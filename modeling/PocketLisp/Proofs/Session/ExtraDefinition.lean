import PocketLisp.Proofs.Session.Reachable
import PocketLisp.Proofs.Session.Simulation

/-!
# A definition that is not missed

A session may start with one more name in its global scope than it starts with otherwise. As long as
the session without it never fails for want of the name, the two give the same answers: a name is
looked up only when the evaluation needs it, and if it then is found in the one session, it is found
in the same place in the other. Special forms are told by their heads and never looked up, so the
names that introduce them are names like any other.

`Store.Besides` relates the stores of the two sessions. It is a simulation, which is given up when
the first session fails for want of the name.
-/

namespace PocketLisp

namespace Store

variable {s s' : Store} {x name : String} {r owner : ScopeId}

/-- The store `s'` is the store `s`, except that the global scope of `s'` may bind `x` when that of
`s` does not, and at another place among its names. -/
structure Besides (x : String) (s s' : Store) : Prop where
  nextIdentity : s'.nextIdentity = s.nextIdentity
  size : s'.scopes.size = s.scopes.size
  outer (id : ScopeId) : s'.outer? id = s.outer? id
  existing : Session.globalScope < s.scopes.size
  outermost : s.outer? Session.globalScope = none
  others (id : ScopeId) (name : String) : id ≠ Session.globalScope ∨ name ≠ x →
    (s'.bindings id).lookup name = (s.bindings id).lookup name
  kept (value : Value) : (s.bindings Session.globalScope).lookup x = some value →
    (s'.bindings Session.globalScope).lookup x = some value

theorem Besides.binds (h : s.Besides x s') {id : ScopeId}
    (other : id ≠ Session.globalScope ∨ name ≠ x) :
    (s'.bindings id).binds name = (s.bindings id).binds name := by
  rw [Bindings.binds, h.others id name other, Bindings.binds]

theorem Besides.around (h : s.Besides x s') (id : ScopeId) : s'.around? id = s.around? id :=
  congrArg (Option.filter (· < id)) (h.outer id)

/-- What is found without the extra name is found with it. -/
theorem Besides.found (h : s.Besides x s') (nearest : s.Owner name r owner) :
    s'.Owner name r owner ∧ (s'.bindings owner).lookup name = (s.bindings owner).lookup name := by
  induction nearest with
  | @here r bound =>
      obtain ⟨value, found⟩ := Option.isSome_iff_exists.mp bound
      have found' : (s'.bindings r).lookup name = some value := by
        by_cases other : r ≠ Session.globalScope ∨ name ≠ x
        · rw [h.others r name other, found]
        · obtain ⟨rfl, rfl⟩ := by simpa using other
          exact h.kept value found
      exact ⟨.here (Option.isSome_iff_exists.mpr ⟨value, found'⟩), found'.trans found.symm⟩
  | @outward r outer owner unbound around _ ih =>
      -- The global scope lies in no other, so the search has not passed it.
      have inner : r ≠ Session.globalScope := by
        rintro rfl
        cases h.outermost.symm.trans (outer?_of_around? around)
      have unbound' : ¬ (s'.bindings r).binds name := by rwa [h.binds (.inl inner)]
      exact ⟨.outward unbound' ((h.around r).trans around) ih.1, ih.2⟩

/-- Only the extra name is found with it and not without it. -/
theorem Besides.owner_of_ne (h : s.Besides x s') (other : name ≠ x)
    (nearest : s'.Owner name r owner) : s.Owner name r owner := by
  induction nearest with
  | here bound => exact .here (h.binds (.inr other) ▸ bound)
  | outward unbound around _ ih =>
      exact .outward (h.binds (.inr other) ▸ unbound) ((h.around _).symm.trans around) ih

theorem Besides.define (h : s.Besides x s') (r : ScopeId) (name : String) (value : Value) :
    (s.define r name value).Besides x (s'.define r name value) where
  nextIdentity := h.nextIdentity
  size := by simpa using h.size
  outer id := by simpa using h.outer id
  existing := by simpa using h.existing
  outermost := by simpa using h.outermost
  others id other apart := by
    simp only [lookup_bindings_define, h.size, h.others id other apart]
  kept v := by
    simp only [lookup_bindings_define, h.size]
    split
    · exact fun found => found
    · exact h.kept v

theorem Besides.addScope (h : s.Besides x s') (scope : Scope) :
    (s.addScope scope).2.Besides x (s'.addScope scope).2 where
  nextIdentity := h.nextIdentity
  size := by simp [h.size]
  outer id := by rw [outer?_addScope, outer?_addScope, h.size, h.outer]
  existing := by simpa using Nat.lt_succ_of_lt h.existing
  outermost := by rw [outer?_addScope_of_lt s scope h.existing, h.outermost]
  others id other apart := by
    rw [bindings_addScope, bindings_addScope, h.size]
    split
    · rfl
    · exact h.others id other apart
  kept value found := by
    rw [bindings_addScope_of_lt s scope h.existing] at found
    rw [bindings_addScope_of_lt s' scope (h.size ▸ h.existing)]
    exact h.kept value found

end Store

/-- Two runs of which the second may find one name more in the global scope, up to where the first
run fails for want of it. -/
def Simulation.besides (x : String) : Simulation where
  related s s' := s.Besides x s'
  excused failure := failure = .error (.unbound x)
  nextIdentity h := h.nextIdentity
  identity h := ⟨congrArg (· + 1) h.nextIdentity, h.size, h.outer, h.existing, h.outermost,
    h.others, h.kept⟩
  size h := h.size
  addScope scope h := h.addScope scope
  bound h nearest := h.found nearest
  unbound {s s' name r} h nowhere := by
    by_cases same : name = x
    · exact .inl (same ▸ rfl)
    · exact .inr fun owner nearest => nowhere owner (h.owner_of_ne same nearest)
  define r name value h := h.define r name value

namespace Session

/-- The state of a new session whose global scope was given one more name. -/
def startWith (x : String) (d : Value) : Machine :=
  { start with store := start.store.define globalScope x d }

theorem besides_startWith {x : String} (free : ∀ operation : Primitive, operation.name ≠ x)
    (d : Value) : start.store.Besides x (startWith x d).store where
  nextIdentity := rfl
  size := Store.size_define ..
  outer id := Store.outer?_define ..
  existing := by decide
  outermost := rfl
  others id name apart := by
    have elsewhere : ¬ (globalScope = id ∧ globalScope < start.store.scopes.size ∧ name = x) := by
      rintro ⟨rfl, -, rfl⟩
      exact apart.elim (absurd rfl) (absurd rfl)
    rw [startWith, Store.lookup_bindings_define, if_neg elsewhere]
  kept value found := by
    obtain ⟨operation, identity, same⟩ := start_binds (Bindings.mem_of_lookup found)
    exact absurd (congrArg Prod.fst same).symm (free operation)

/-- Let a session evaluate any texts, and let another one evaluate them whose global scope was first
given one more name, other than those of the operations. If no step of the first session ends for
want of that name, every step of the second has the same results. The name may be one that
introduces a special form. -/
theorem extra_definition_unnoticed (depth : Nat) (texts : List String) {x : String}
    (free : ∀ operation : Primitive, operation.name ≠ x) (d : Value)
    (found : ∀ step ∈ steps (evaluate depth) texts start,
      step.1.failure ≠ some (.evaluation (.error (.unbound x)))) :
    (steps (evaluate depth) texts (startWith x d)).map Prod.fst =
      (steps (evaluate depth) texts start).map Prod.fst := by
  have related : (Simulation.besides x).related start.store (startWith x d).store :=
    besides_startWith free d
  refine parallel_steps (Simulation.tracks_evaluate depth) texts related ?_
  rintro step mem ⟨failure, failed, excused⟩
  exact found step mem (excused ▸ failed)

/-- A definition of `if` is not noticed by a session that has branches, fails, and defines `if`
itself. -/
theorem definition_of_if_unnoticed :
    (steps (evaluate 9) ["(define f (lambda (y) (if y 'yes 'no)))", "(f nil) (car 1) (f 1)",
        "(define if f) (if if if nil) (if"] (startWith "if" (.int 5))).map Prod.fst =
      (steps (evaluate 9) ["(define f (lambda (y) (if y 'yes 'no)))", "(f nil) (car 1) (f 1)",
        "(define if f) (if if if nil) (if"] start).map Prod.fst := by
  refine extra_definition_unnoticed 9 _ ?_ (.int 5) ?_
  · intro operation
    cases operation <;> decide
  · decide +kernel

end Session

end PocketLisp
