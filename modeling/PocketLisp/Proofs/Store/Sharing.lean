import PocketLisp.Proofs.Eval.Ending
import PocketLisp.Proofs.Store.Sight

/-!
# What a write is seen to do from elsewhere

Scopes share the scopes around them, so what is written in one scope is seen from others. A
definition in a scope is seen from those scopes from which the way outward leads to it past scopes
that do not bind the name (`Store.ClearWay`), and an assignment is seen from those that find the
name where it was assigned. From all other scopes, and under all other names, everything is found
to be what it was (`Machine.Written`).

The scopes may form any tree, or several; all that matters is that every scope lies in an older one
(`Store.Nested`), as scopes are always made.
-/

namespace PocketLisp

namespace Store

/-- Every scope lies in an older one or in none. -/
def Nested (s : Store) : Prop :=
  ∀ id < s.scopes.size, ∀ outer ∈ s.outer? id, outer < id

instance (s : Store) : Decidable s.Nested :=
  inferInstanceAs (Decidable (∀ id < _, ∀ outer ∈ _, _))

/-- The way outward from `r` leads to the scope `target`, link by link, past scopes that do not bind
the name. -/
inductive ClearWay (s : Store) (name : String) (target : ScopeId) : (r : ScopeId) → Prop where
  | arrived : ClearWay s name target target
  | link {r outer} (unbound : ¬ (s.bindings r).binds name) (around : s.outer? r = some outer)
      (more : ClearWay s name target outer) : ClearWay s name target r

variable {s : Store} {target r : ScopeId} {name : String} {value : Value}

theorem Nested.older (nested : s.Nested) {outer : ScopeId} (link : s.outer? r = some outer) :
    outer < r :=
  nested r (lt_size_of_outer? link) outer link

/-- No link is left out of the search for a name. -/
theorem Nested.around?_eq (nested : s.Nested) (r : ScopeId) : s.around? r = s.outer? r := by
  rw [Store.around?_eq]
  cases link : s.outer? r with
  | none => rfl
  | some outer => simp [nested.older link]

section Nested

variable (nested : s.Nested)
include nested

/-- A clear way to a scope that binds the name leads to the owner of the name. -/
theorem Nested.clearWay_iff_owner (bound : (s.bindings target).binds name) :
    s.ClearWay name target r ↔ s.Owner name r target := by
  constructor
  · intro way
    induction way with
    | arrived => exact .here bound
    | link unbound around _ ih => exact .outward unbound (nested.around?_eq _ ▸ around) ih
  · intro nearest
    induction nearest with
    | here => exact .arrived
    | outward unbound around _ ih => exact .link unbound (outer?_of_around? around) (ih bound)

/-- A definition is seen from where the way to it is clear. -/
theorem Nested.get?_define_of_clearWay (existing : target < s.scopes.size)
    (way : s.ClearWay name target r) : (s.define target name value).get? r name = some value := by
  induction way with
  | arrived => exact get?_define_self existing
  | @link r outer unbound around _ ih =>
      by_cases here : target = r
      · subst here
        exact get?_define_self existing
      · rw [get?_eq, bindings_define_of_ne s target r name value here,
          lookup_of_not_binds unbound, around?_define, nested.around?_eq, around]
        exact ih

/-- From elsewhere the name is what it was. -/
theorem Nested.get?_define_of_not_clearWay (blocked : ¬ s.ClearWay name target r) :
    (s.define target name value).get? r name = s.get? r name := by
  induction r using Nat.strongRecOn with
  | ind r ih =>
      have elsewhere : target ≠ r := by
        rintro rfl
        exact blocked .arrived
      rw [get?_eq, get?_eq s, bindings_define_of_ne s target r name value elsewhere,
        around?_define, nested.around?_eq]
      by_cases bound : (s.bindings r).binds name
      · obtain ⟨found, bound⟩ := Option.isSome_iff_exists.mp bound
        rw [bound, Option.some_or, Option.some_or]
      · cases around : s.outer? r with
        | none => rfl
        | some outer =>
            have blocked' : ¬ s.ClearWay name target outer :=
              fun more => blocked (.link bound around more)
            rw [Option.bind_some, Option.bind_some, ih outer (nested.older around) blocked']

end Nested

end Store

open EvalM

/-- A lookup answers what the store holds under the name, or that it holds nothing. -/
theorem outcome_lookup (r : ScopeId) (name : String) (m : Machine) :
    (lookup r name).outcome m =
      ((m.store.get? r name).map .ok).getD (.error (.error (.unbound name))) := by
  rw [outcome, lookup, run_get]
  cases m.store.get? r name <;> rfl

/-- In the state `m'` the name has the value in the scopes that see it. What is looked up from
another scope, or under another name, is what it was in the state `m`: its value, or that it is not
bound. -/
structure Machine.Written (m m' : Machine) (name : String) (value : Value)
    (sees : ScopeId → Prop) : Prop where
  seen (f : ScopeId) : sees f → (lookup f name).outcome m' = .ok value
  kept (f : ScopeId) (other : String) : ¬ (other = name ∧ sees f) →
    (lookup f other).outcome m' = (lookup f other).outcome m

section Writes

variable {m : Machine} (nested : m.store.Nested) {e : ScopeId}
include nested

theorem written_define (existing : e < m.store.scopes.size) (name : String) (value : Value) :
    m.Written (m.defined e name value) name value (m.store.ClearWay name e) where
  seen f way := by
    rw [outcome_lookup, Machine.store_defined, nested.get?_define_of_clearWay existing way]
    rfl
  kept f other unseen := by
    rw [outcome_lookup, outcome_lookup, Machine.store_defined]
    by_cases same : other = name
    · subst same
      rw [nested.get?_define_of_not_clearWay fun way => unseen ⟨rfl, way⟩]
    · rw [Store.get?_define_of_ne m.store e f value same]

/-- An assignment is a definition in the scope that owns the name. -/
theorem written_assign {owner : ScopeId} {name : String} (value : Value)
    (nearest : m.store.Owner name e owner) :
    m.Written (m.defined owner name value) name value
      fun f => m.store.owner? f name = m.store.owner? e name := by
  obtain ⟨_, bound⟩ := nearest.bound
  have existing := Store.lt_size_of_mem_bindings (Bindings.mem_of_lookup bound)
  have written := written_define nested existing name value
  have sees (f : ScopeId) : m.store.owner? f name = m.store.owner? e name ↔
      m.store.ClearWay name owner f := by
    rw [Store.owner?_eq_some_iff.mpr nearest, Store.owner?_eq_some_iff,
      nested.clearWay_iff_owner nearest.binds]
  exact ⟨fun f same => written.seen f ((sees f).mp same),
    fun f other unseen => written.kept f other fun ⟨same, way⟩ => unseen ⟨same, (sees f).mpr way⟩⟩

/-- A definition answers its value and is seen from the scopes from which the way to it is clear; a
name that the scope binds already keeps its place among its names. An assignment to a name that is
bound somewhere outward answers its value and is seen from the scopes that find the name at the
same place, and no scope gets another name by it. An assignment to any other name fails and changes
nothing. -/
theorem writes_seen_by_sharers (existing : e < m.store.scopes.size) (name : String)
    (value : Value) :
    (∃ m', define e name value m = .ok value m' ∧
      m.Written m' name value (m.store.ClearWay name e) ∧
      (m'.store.bindings e).names =
        if name ∈ (m.store.bindings e).names then (m.store.bindings e).names
        else (m.store.bindings e).names ++ [name]) ∧
    (∀ owner, m.store.owner? e name = some owner →
      ∃ m', assign e name value m = .ok value m' ∧
        m.Written m' name value (fun f => m.store.owner? f name = m.store.owner? e name) ∧
        ∀ id, (m'.store.bindings id).names = (m.store.bindings id).names) ∧
    (m.store.owner? e name = none →
      assign e name value m = .error (.error (.unbound name)) m) := by
  refine ⟨⟨m.defined e name value, rfl, written_define nested existing name value, ?_⟩, ?_, ?_⟩
  · rw [Machine.store_defined, Store.bindings_define_self name value existing,
      Bindings.names_define]
  · intro owner found
    have nearest := Store.owner?_eq_some_iff.mp found
    exact ⟨_, run_assign value nearest, written_assign nested value nearest,
      Store.names_define_of_binds nearest.binds⟩
  · intro missing
    exact run_assign_unbound value (Store.owner?_eq_none_iff.mp missing)

end Writes

/-- A scope that binds `x`, with two branches inside it; one of these has a scope inside. -/
def branches : Machine where
  store := {
    scopes := #[⟨[("x", .int 1), ("y", .int 2)], none⟩, ⟨[("y", .int 3)], some 0⟩,
      ⟨[], some 1⟩, ⟨[], some 0⟩] }

/-- A definition in a branch is seen inside it and not in the other one. An assignment from there to
the name outside both is seen in the other one. -/
theorem writes_seen_by_branches :
    branches.store.Nested ∧
    (∃ m', define 1 "x" (.int 5) branches = .ok (.int 5) m' ∧
      (lookup 2 "x").outcome m' = .ok (.int 5) ∧ (lookup 3 "x").outcome m' = .ok (.int 1)) ∧
    (∃ m', assign 2 "x" (.int 7) branches = .ok (.int 7) m' ∧
      (lookup 3 "x").outcome m' = .ok (.int 7) ∧ (lookup 2 "y").outcome m' = .ok (.int 3)) ∧
    assign 2 "z" (.int 7) branches = .error (.error (.unbound "z")) branches := by
  have nested : branches.store.Nested := by decide
  have lookups : branches.store.get? 3 "x" = some (.int 1) ∧
      branches.store.get? 2 "y" = some (.int 3) := by decide +kernel
  refine ⟨nested, ?_, ?_, ?_⟩
  · obtain ⟨⟨m', run, written, -⟩, -⟩ :=
      writes_seen_by_sharers nested (by decide : 1 < 4) "x" (.int 5)
    have inside : branches.store.ClearWay "x" 1 2 := .link (by decide) rfl .arrived
    have outside : ¬ branches.store.ClearWay "x" 1 3 := by
      rintro (_ | ⟨-, ⟨⟩, _ | ⟨unbound, -, -⟩⟩)
      exact unbound (by decide)
    refine ⟨m', run, written.seen 2 inside, ?_⟩
    rw [written.kept 3 "x" fun ⟨_, way⟩ => outside way, outcome_lookup, lookups.1]
    rfl
  · have owner : branches.store.owner? 2 "x" = some 0 := by decide +kernel
    obtain ⟨m', run, written, -⟩ :=
      (writes_seen_by_sharers nested (by decide : 2 < 4) "x" (.int 7)).2.1 0 owner
    refine ⟨m', run, written.seen 3 (by decide +kernel), ?_⟩
    rw [written.kept 2 "y" fun ⟨same, _⟩ => absurd same (by decide), outcome_lookup, lookups.2]
    rfl
  · exact (writes_seen_by_sharers nested (by decide : 2 < 4) "z" (.int 7)).2.2 (by decide +kernel)

end PocketLisp
