import PocketLisp.Proofs.Eval.Confinement
import PocketLisp.Proofs.Eval.Names
import PocketLisp.Proofs.Session.Reachable

/-!
# The scopes of a session are a tree

In a session the links outward lead from every scope to older ones and end in the global scope, and
no value leads to a scope that does not exist. So the search for a name, which follows the links
as they are and has no bound of its own, ends from every scope; and since nothing that the global
scope binds is ever removed, the primitive operations are found from everywhere.

`Store.Rooted` says this of one store. That it holds of all stores of a session follows from two
invariants of evaluation: it stays among scopes that exist, and it takes no name away.
-/

namespace PocketLisp

namespace Store

/-- The scopes from `r` outward, link by link, up to one that lies in no other. -/
inductive Outward (s : Store) : (r : ScopeId) → List ScopeId → Prop where
  | last {r} (outermost : s.outer? r = none) : Outward s r [r]
  | link {r outer ids} (around : s.outer? r = some outer) (more : Outward s outer ids) :
      Outward s r (r :: ids)

/-- The search for a scope that binds a name, link by link: it ends at the first one, or with
nothing at a scope that lies in no other. -/
inductive Search (s : Store) (name : String) : (r : ScopeId) → Option ScopeId → Prop where
  | here {r} (bound : (s.bindings r).binds name) : Search s name r (some r)
  | nowhere {r} (unbound : ¬ (s.bindings r).binds name) (outermost : s.outer? r = none) :
      Search s name r none
  | outward {r outer found} (unbound : ¬ (s.bindings r).binds name)
      (around : s.outer? r = some outer) (more : Search s name outer found) :
      Search s name r found

/-- The scopes are a tree with the given root, every scope is younger than the one around it, and
the values that are bound lead to existing scopes only. -/
structure Rooted (s : Store) (root : ScopeId) : Prop where
  existing : root < s.scopes.size
  outermost (id : ScopeId) : id < s.scopes.size → (s.outer? id = none ↔ id = root)
  older {id outer : ScopeId} : s.outer? id = some outer → outer < id
  captured (id : ScopeId) (name : String) (value : Value) : (name, value) ∈ s.bindings id →
    ∀ k ∈ value.scopes, k < s.scopes.size

section Rooted

variable {s : Store} {root r : ScopeId} {name : String}

theorem Rooted.around?_eq (h : s.Rooted root) (r : ScopeId) : s.around? r = s.outer? r := by
  change (s.outer? r).filter (· < r) = s.outer? r
  cases link : s.outer? r with
  | none => rfl
  | some outer => simp [h.older link]

theorem Rooted.outer?_root (h : s.Rooted root) : s.outer? root = none :=
  (h.outermost root h.existing).mpr rfl

/-- What holds of the root, and of a scope if it holds of the scope around it, holds of all
scopes. -/
@[elab_as_elim]
theorem Rooted.induction {motive : ScopeId → Prop} (h : s.Rooted root) (atRoot : motive root)
    (inside : ∀ r outer, r < s.scopes.size → s.outer? r = some outer → motive outer → motive r)
    (existing : r < s.scopes.size) : motive r := by
  -- Links lead to smaller numbers.
  induction r using Nat.strongRecOn with
  | ind r ih =>
      cases link : s.outer? r with
      | none => exact (h.outermost r existing).mp link ▸ atRoot
      | some outer =>
          have older := h.older link
          exact inside r outer existing link (ih outer older (Nat.lt_trans older existing))

/-- The chain of a scope follows the links to the root. -/
theorem Rooted.outward_chain (h : s.Rooted root) (existing : r < s.scopes.size) :
    s.Outward r (s.chain r) ∧ (s.chain r).getLast? = some root := by
  refine h.induction ?_ ?_ existing
  · have found := Array.getElem?_eq_getElem h.existing
    rw [chain_of_around?_eq_none found (h.around?_eq root ▸ h.outer?_root)]
    exact ⟨.last h.outer?_root, rfl⟩
  · intro r outer _ link ⟨more, last⟩
    rw [chain_of_around? (h.around?_eq r ▸ link)]
    exact ⟨.link link more, by rw [List.getLast?_cons, last]; rfl⟩

/-- The search for a name ends, and finds the owner of the name if there is one. -/
theorem Rooted.search_owner? (h : s.Rooted root) (name : String) (existing : r < s.scopes.size) :
    s.Search name r (s.owner? r name) := by
  refine h.induction ?_ ?_ existing
  · rw [owner?_eq]
    split
    · next bound => exact .here bound
    · next unbound =>
      rw [h.around?_eq root, h.outer?_root]
      exact .nowhere unbound h.outer?_root
  · intro r outer _ link more
    rw [owner?_eq]
    split
    · next bound => exact .here bound
    · next unbound =>
      rw [h.around?_eq r, link]
      exact .outward unbound link more

/-- A name that the root binds has an owner everywhere. -/
theorem Rooted.exists_owner (h : s.Rooted root) (bound : (s.bindings root).binds name)
    (existing : r < s.scopes.size) : ∃ owner, s.Owner name r owner := by
  refine h.induction ⟨root, .here bound⟩ ?_ existing
  intro r outer _ link ⟨owner, nearest⟩
  by_cases here : (s.bindings r).binds name
  · exact ⟨r, .here here⟩
  · exact ⟨owner, .outward here (h.around?_eq r ▸ link) nearest⟩

theorem Rooted.exists_get? (h : s.Rooted root) (bound : (s.bindings root).binds name)
    (existing : r < s.scopes.size) : ∃ value, s.get? r name = some value := by
  obtain ⟨owner, nearest⟩ := h.exists_owner bound existing
  obtain ⟨value, found⟩ := nearest.bound
  exact ⟨value, by rw [get?, owner?_eq_some_iff.mpr nearest, Option.bind_some, found]⟩

end Rooted

end Store

namespace Session

/-- What the steps of a session keep: all scopes but the global one are seen as new, and these lead
to each other and to the global scope, which lies in no other and binds the primitive
operations. -/
structure Sound (s : Store) : Prop where
  confined : s.Confined (· = globalScope) (globalScope + 1) fun _ => []
  outermost : s.outer? globalScope = none
  primitives (operation : Primitive) : operation.name ∈ (s.bindings globalScope).names

theorem within_of_lt {size : Nat} {id : ScopeId} (existing : id < size) :
    Within (· = globalScope) (globalScope + 1) size id :=
  (Nat.eq_zero_or_pos id).imp_right fun new => ⟨new, existing⟩

theorem lt_of_within {size : Nat} {id : ScopeId} (existing : globalScope < size)
    (within : Within (· = globalScope) (globalScope + 1) size id) : id < size := by
  obtain rfl | ⟨_, existing'⟩ := within
  · exact existing
  · exact existing'

/-- At the start there is one scope, and it binds procedures only. -/
theorem sound_start : Sound start.store := by
  have size : start.store.scopes.size = globalScope + 1 := rfl
  have outermost : start.store.outer? globalScope = none := rfl
  have only {id : ScopeId} (existing : id < start.store.scopes.size) : id = globalScope := by
    rw [size] at existing
    exact Nat.lt_one_iff.mp existing
  have procedures : ∀ binding ∈ start.store.bindings globalScope, binding.2.scopes = [] := by
    decide
  refine ⟨⟨Nat.le_refl _, ?_, ?_, ?_, ?_⟩, outermost, fun operation => ?_⟩
  · intro id outer _ link
    rw [only (Store.lt_size_of_outer? link), outermost] at link
    cases link
  · intro id new existing
    exact absurd new (Nat.not_le_of_lt (size ▸ existing))
  · intro id _ binding bound k mem
    rw [only (Store.lt_size_of_mem_bindings bound)] at bound
    rw [procedures binding bound] at mem
    exact absurd mem List.not_mem_nil
  · intro id early other
    exact absurd (Nat.lt_one_iff.mp early) other
  · cases operation <;> decide

theorem Sound.keeps (depth : Nat) : Keeps Sound (evaluate depth) := by
  intro form m plain sound
  have existing : globalScope < m.store.scopes.size := sound.confined.size_le
  have extended := extends_stateAfter depth form globalScope m
  have fine : form.Within (· = globalScope) (globalScope + 1) m.store.scopes.size := by
    intro k mem
    rw [Value.scopes_of_plain plain] at mem
    exact absurd mem List.not_mem_nil
  constructor
  · exact ((Invariant.confinement _ _ _).evaluate_keeps depth sound.confined fine
      (.inl rfl)).reached.holds
  · rw [extended.outer _ existing, sound.outermost]
  · exact fun operation => (extended.names_prefix _ existing).subset (sound.primitives operation)

/-- In a sound store the scopes are a tree under the global scope. -/
theorem Sound.rooted {s : Store} (sound : Sound s) : s.Rooted globalScope := by
  obtain ⟨confined, outermost, -⟩ := sound
  have existing : globalScope < s.scopes.size := confined.size_le
  have inside {id : ScopeId} (other : id ≠ globalScope) (existing : id < s.scopes.size) :
      ∃ outer, s.outer? id = some outer :=
    confined.inside id (Nat.pos_of_ne_zero other) existing
  refine ⟨existing, ?_, ?_, ?_⟩
  · intro id existing
    refine ⟨fun none => Decidable.by_contra fun other => ?_, fun same => same ▸ outermost⟩
    obtain ⟨outer, link⟩ := inside other existing
    cases none.symm.trans link
  · intro id outer link
    obtain rfl | ⟨-, older⟩ := confined.outer (within_of_lt (Store.lt_size_of_outer? link)) link
    · have other : id ≠ globalScope := by
        rintro rfl
        cases outermost.symm.trans link
      exact Nat.pos_of_ne_zero other
    · exact older
  · intro id name value bound k mem
    have within := within_of_lt (Store.lt_size_of_mem_bindings bound)
    exact lt_of_within existing (confined.bindings within _ bound k mem)

theorem Reachable.sound {s : Store} (reachable : Reachable s) : Sound s :=
  reachable.induction sound_start Sound.keeps

/-- In every store that a session can come to, the global scope is the only one that lies in no
other, every scope lies in an older one otherwise, and bound values lead to existing scopes. So
from every scope the links lead to the global scope, the search for a name ends, which is how a
name is looked up and assigned, and the primitive operations are bound. -/
theorem rooted_of_reachable {s : Store} (reachable : Reachable s) :
    s.Rooted globalScope ∧ ∀ r < s.scopes.size,
      (s.Outward r (s.chain r) ∧ (s.chain r).getLast? = some globalScope) ∧
      (∀ name, ∃ found, s.Search name r found ∧
        s.get? r name = found.bind (fun owner => (s.bindings owner).lookup name) ∧
        ∀ value, s.assign? r name value = found.map fun owner => s.define owner name value) ∧
      ∀ operation : Primitive, ∃ value, s.get? r operation.name = some value := by
  have sound := reachable.sound
  have rooted := sound.rooted
  refine ⟨rooted, fun r existing => ⟨rooted.outward_chain existing, fun name => ?_, ?_⟩⟩
  · exact ⟨s.owner? r name, rooted.search_owner? name existing, rfl, fun _ => rfl⟩
  · intro operation
    exact rooted.exists_get? (Bindings.binds_iff.mpr (sound.primitives operation)) existing

/-- After a text that makes scopes and fails half-way. -/
theorem rooted_after_failure :
    ∃ value, (evalText (evaluate 8)
      "(define f (lambda (x) (lambda () x))) (define g (f 1)) (car (g)) (set! f 2)"
      start).2.store.get? 1 "car" = some value := by
  refine ((rooted_of_reachable (.evalText 8 _ .start)).2 1 ?_).2.2 .car
  decide +kernel

end Session

end PocketLisp
