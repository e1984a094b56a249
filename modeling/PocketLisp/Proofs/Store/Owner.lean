import PocketLisp.Store.Basic

/-!
# The nearest binding of a name

`Store.owner?` searches a chain of scopes. Here the same search is said as a relation: a scope that
binds the name is its own owner, and any other scope has the owner that the scope around it has.
The relation and the search agree in every store, so the absence of an owner is the failure of the
search.
-/

namespace PocketLisp.Store

/-- The scope around `r`. A link that does not lead to an older scope leads nowhere. -/
def around? (s : Store) (r : ScopeId) : Option ScopeId :=
  ((s.scopes[r]?).bind Scope.outer).filter (· < r)

/-- Scope `owner` has the nearest binding of a name, seen from a scope. -/
inductive Owner (s : Store) (name : String) : (r owner : ScopeId) → Prop where
  | here {r} (bound : (s.bindings r).binds name) : Owner s name r r
  | outward {r outer owner} (unbound : ¬ (s.bindings r).binds name)
      (around : s.around? r = some outer) (nearest : Owner s name outer owner) :
      Owner s name r owner

/-- A scope that owns a name has a value for it. -/
theorem Owner.bound {s : Store} {name : String} {r owner : ScopeId} (h : Owner s name r owner) :
    ∃ value, (s.bindings owner).lookup name = some value := by
  induction h with
  | here bound => exact Option.isSome_iff_exists.mp bound
  | outward _ _ _ ih => exact ih

theorem Owner.binds {s : Store} {name : String} {r owner : ScopeId} (h : Owner s name r owner) :
    (s.bindings owner).binds name :=
  Option.isSome_iff_exists.mpr h.bound

theorem lt_of_around? {s : Store} {r outer : ScopeId} (h : s.around? r = some outer) :
    outer < r := by
  simpa using (Option.filter_eq_some_iff.mp h).2

/-- A chain starts at its scope, if there is one, and goes on in the scope around it. -/
theorem chain_of_around? {s : Store} {r outer : ScopeId} (h : s.around? r = some outer) :
    s.chain r = r :: s.chain outer := by
  obtain ⟨scope, hscope, houter⟩ := Option.bind_eq_some_iff.mp (Option.filter_eq_some_iff.mp h).1
  rw [chain]
  simp only [hscope, houter, if_pos (lt_of_around? h)]

theorem chain_of_around?_eq_none {s : Store} {r : ScopeId} {scope : Scope}
    (hscope : s.scopes[r]? = some scope) (h : s.around? r = none) : s.chain r = [r] := by
  rw [chain]
  cases houter : scope.outer with
  | none => simp only [hscope, houter]
  | some outer =>
      have younger : ¬ outer < r := by simpa [around?, hscope, houter] using h
      simp only [hscope, houter, if_neg younger]

/-- The search for an owner looks into one scope and goes on in the scope around it. -/
theorem owner?_eq (s : Store) (r : ScopeId) (name : String) :
    s.owner? r name =
      if (s.bindings r).binds name then some r
      else (s.around? r).bind (s.owner? · name) := by
  cases hscope : s.scopes[r]? with
  | none =>
      have hchain : s.chain r = [] := by rw [chain, hscope]
      simp [owner?, around?, hchain, hscope, bindings, Bindings.binds]
  | some scope =>
      cases haround : s.around? r with
      | none =>
          simp [owner?, chain_of_around?_eq_none hscope haround, List.find?_singleton]
      | some outer =>
          rw [owner?, chain_of_around? haround, List.find?_cons]
          split <;> simp_all [owner?]

theorem owner?_eq_some_iff {s : Store} {r owner : ScopeId} {name : String} :
    s.owner? r name = some owner ↔ Owner s name r owner := by
  constructor
  · intro h
    induction r using Nat.strongRecOn with
    | ind r ih =>
        rw [owner?_eq] at h
        split at h
        · next bound =>
          cases h
          exact .here bound
        · next unbound =>
          obtain ⟨outer, around, found⟩ := Option.bind_eq_some_iff.mp h
          exact .outward unbound around (ih outer (lt_of_around? around) found)
  · intro h
    induction h with
    | here bound => rw [owner?_eq, if_pos bound]
    | outward unbound around _ ih => rw [owner?_eq, if_neg unbound, around, Option.bind_some, ih]

theorem owner?_eq_none_iff {s : Store} {r : ScopeId} {name : String} :
    s.owner? r name = none ↔ ∀ owner, ¬ Owner s name r owner := by
  simp only [← owner?_eq_some_iff, Option.eq_none_iff_forall_not_mem, Option.mem_def]

end PocketLisp.Store
