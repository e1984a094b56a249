import PocketLisp.Proofs.Eval.Invariant

/-!
# Scopes and the names in them

What evaluation can do to the scopes that are there before it: none goes away or is moved to
another place, and none loses a name. Only the scope in which the form is evaluated may get new
names, behind those that it has. This holds of every outcome of every form
(`evaluate_extends`).

Definitions write into the scope of the form or into a scope that was made since. Assignments may
write anywhere, but only where the name is bound already.
-/

namespace PocketLisp

namespace Store

/-- All scopes of `s` are in `s'` where they were, with their names in the same order. Of these
scopes only `r` may have more names in `s'`. -/
structure Extends (s : Store) (r : ScopeId) (s' : Store) : Prop where
  size_le : s.scopes.size ≤ s'.scopes.size
  outer : ∀ id < s.scopes.size, s'.outer? id = s.outer? id
  names_prefix : ∀ id < s.scopes.size, (s.bindings id).names <+: (s'.bindings id).names
  names_of_ne : ∀ id < s.scopes.size, id ≠ r → (s'.bindings id).names = (s.bindings id).names

variable {s s' : Store} {r id : ScopeId} {name : String} {value : Value}

theorem Extends.refl (s : Store) (r : ScopeId) : s.Extends r s where
  size_le := Nat.le_refl _
  outer _ _ := rfl
  names_prefix _ _ := List.prefix_rfl
  names_of_ne _ _ _ := rfl

/-- A definition may be made in `r` and in scopes that are new. -/
theorem Extends.define (h : s.Extends r s') (allowed : id = r ∨ s.scopes.size ≤ id) :
    s.Extends r (s'.define id name value) where
  size_le := by simpa using h.size_le
  outer k existed := by simpa using h.outer k existed
  names_prefix k existed := by
    by_cases here : id = k
    · subst here
      rw [bindings_define_self name value (Nat.lt_of_lt_of_le existed h.size_le)]
      exact (h.names_prefix id existed).trans (Bindings.names_prefix_define ..)
    · rw [bindings_define_of_ne s' id k name value here]
      exact h.names_prefix k existed
  names_of_ne k existed other := by
    have here : id ≠ k := by
      rintro rfl
      exact allowed.elim other (Nat.not_le_of_lt existed)
    rw [bindings_define_of_ne s' id k name value here]
    exact h.names_of_ne k existed other

/-- A bound name may be given a new value in any scope. -/
theorem Extends.define_of_binds (h : s.Extends r s') (bound : (s'.bindings id).binds name) :
    s.Extends r (s'.define id name value) where
  size_le := by simpa using h.size_le
  outer k existed := by simpa using h.outer k existed
  names_prefix k existed := by
    rw [names_define_of_binds bound]
    exact h.names_prefix k existed
  names_of_ne k existed other := by
    rw [names_define_of_binds bound]
    exact h.names_of_ne k existed other

theorem Extends.addScope (h : s.Extends r s') (scope : Scope) :
    s.Extends r (s'.addScope scope).2 := by
  have still {k : ScopeId} (existed : k < s.scopes.size) : k < s'.scopes.size :=
    Nat.lt_of_lt_of_le existed h.size_le
  constructor
  · simpa using Nat.le_succ_of_le h.size_le
  · intro k existed
    rw [outer?_addScope_of_lt s' scope (still existed)]
    exact h.outer k existed
  · intro k existed
    rw [bindings_addScope_of_lt s' scope (still existed)]
    exact h.names_prefix k existed
  · intro k existed other
    rw [bindings_addScope_of_lt s' scope (still existed)]
    exact h.names_of_ne k existed other

end Store

/-- Evaluation in `r`, started in the store `s`, extends `s`. Forms are evaluated in `r` and in
scopes that are new. -/
def Invariant.extension (s : Store) (r : ScopeId) : Invariant where
  holds s' := s.Extends r s'
  value _ _ := True
  scope _ id := id = r ∨ s.scopes.size ≤ id
  value_mono _ _ := trivial
  scope_mono _ allowed := allowed
  value_nil _ := trivial
  value_truth _ := trivial
  value_sum _ _ := trivial
  value_pair := by simp
  value_closure _ _ _ _ := trivial
  value_parts _ := ⟨trivial, trivial⟩
  lookup _ _ _ _ := trivial
  identity extended := ⟨extended.size_le, extended.outer, extended.names_prefix,
    extended.names_of_ne⟩
  define extended allowed _ _ := extended.define allowed
  assign extended _ nearest _ := extended.define_of_binds nearest.binds
  enter extended _ _ _ := ⟨extended.addScope _, .inr extended.size_le⟩

theorem extends_stateAfter (depth : Nat) (form : Value) (r : ScopeId) (m : Machine) :
    m.store.Extends r ((evaluate depth form r).stateAfter m).store :=
  ((Invariant.extension m.store r).evaluate_keeps depth (.refl m.store r) trivial
    (.inl rfl)).reached.holds

theorem names_assign (r : ScopeId) (name : String) (value : Value) (m : Machine) (id : ScopeId) :
    (((EvalM.assign r name value).stateAfter m).store.bindings id).names =
      (m.store.bindings id).names := by
  by_cases somewhere : ∃ owner, m.store.Owner name r owner
  · obtain ⟨owner, nearest⟩ := somewhere
    rw [(EvalM.ends_assign value nearest).store_stateAfter,
      Store.names_define_of_binds nearest.binds]
  · rw [(EvalM.ends_assign_unbound value (not_exists.mp somewhere)).store_stateAfter]

/-- Whatever a form does and however its evaluation ends, the scopes that were there before are
still there, inside the same scopes. The scope of the form may have got new names behind its old
ones; every other scope has exactly the names it had. An assignment alone adds no name anywhere. -/
theorem evaluate_extends (depth : Nat) (form : Value) (r : ScopeId) (m : Machine) :
    m.store.Extends r ((evaluate depth form r).stateAfter m).store ∧
      ∀ (name : String) (value : Value) (id : ScopeId),
        (((EvalM.assign r name value).stateAfter m).store.bindings id).names =
          (m.store.bindings id).names :=
  ⟨extends_stateAfter depth form r m, fun name value id => names_assign r name value m id⟩

end PocketLisp
