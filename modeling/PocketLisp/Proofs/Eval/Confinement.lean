import PocketLisp.Proofs.Eval.Invariant
import PocketLisp.Proofs.Store.Reach

/-!
# Evaluation stays among the scopes it can reach

A form reads and writes scopes only through the scope in which it is evaluated and through
closures. What it cannot reach in this way at the start it can never reach: every scope that it
gets at later was made while it was evaluated. So the scopes that it cannot reach keep their
bindings, and no value that it hands out or stores leads to one of them.

The invariant is about a set of old scopes that is closed under links, and all scopes that are
made later (`Store.Confined`). It does not matter for its preservation how the set was found; for
the theorem about evaluation it is the set of scopes that can be reached.
-/

namespace PocketLisp

/-- The scope is one of the set `old`, or one of those from number `n` up to `size`. -/
def Within (old : ScopeId → Prop) (n size : Nat) (id : ScopeId) : Prop :=
  old id ∨ n ≤ id ∧ id < size

theorem Within.mono {old : ScopeId → Prop} {n size size' : Nat} {id : ScopeId}
    (h : Within old n size id) (le : size ≤ size') : Within old n size' id :=
  h.imp_right fun ⟨new, existing⟩ => ⟨new, Nat.lt_of_lt_of_le existing le⟩

/-- All scopes of a value are within bounds. -/
def Value.Within (old : ScopeId → Prop) (n size : Nat) (v : Value) : Prop :=
  ∀ k ∈ v.scopes, PocketLisp.Within old n size k

namespace Store

variable {old : ScopeId → Prop} {n : Nat} {before : ScopeId → Bindings} {s : Store}

/-- The scopes of the set `old` and those from number `n` on lead to each other only. A new scope
lies inside another that is within bounds and was there before it. All other scopes have the
bindings that they had before. -/
structure Confined (old : ScopeId → Prop) (n : Nat) (before : ScopeId → Bindings) (s : Store) :
    Prop where
  size_le : n ≤ s.scopes.size
  outer {id outer : ScopeId} : Within old n s.scopes.size id → s.outer? id = some outer →
    Within old n id outer
  inside (id : ScopeId) : n ≤ id → id < s.scopes.size → ∃ outer, s.outer? id = some outer
  bindings {id : ScopeId} : Within old n s.scopes.size id → ∀ binding ∈ s.bindings id,
    binding.2.Within old n s.scopes.size
  kept (id : ScopeId) : id < n → ¬ old id → s.bindings id = before id

theorem Confined.owner {r owner : ScopeId} {name : String} (h : s.Confined old n before)
    (within : Within old n s.scopes.size r) (nearest : s.Owner name r owner) :
    Within old n s.scopes.size owner := by
  -- Each link leads to an older scope, for which the bound may be relaxed again.
  induction nearest with
  | here => exact within
  | outward _ around _ ih =>
      have link := outer?_of_around? around
      exact ih ((h.outer within link).mono (Nat.le_of_lt (lt_size_of_outer? link)))

theorem Confined.define {id : ScopeId} {name : String} {value : Value}
    (h : s.Confined old n before) (within : Within old n s.scopes.size id)
    (fine : value.Within old n s.scopes.size) : (s.define id name value).Confined old n before where
  size_le := by simpa using h.size_le
  outer within link := h.outer (by simpa using within) (by simpa using link)
  inside k new existing := by simpa using h.inside k new (by simpa using existing)
  bindings {k} within' binding bound := by
    rw [size_define] at within' ⊢
    by_cases here : id = k
    · subst here
      have existing := lt_size_of_mem_bindings bound
      rw [bindings_define_self name value (by simpa using existing)] at bound
      obtain rfl | bound := Bindings.mem_define bound
      · exact fine
      · exact h.bindings within' binding bound
    · rw [bindings_define_of_ne s id k name value here] at bound
      exact h.bindings within' binding bound
  kept k early other := by
    have here : id ≠ k := by
      rintro rfl
      exact within.elim other fun ⟨new, _⟩ => Nat.not_le_of_lt early new
    rw [bindings_define_of_ne s id k name value here]
    exact h.kept k early other

theorem Confined.addScope {scope : Scope} {captured : ScopeId} (h : s.Confined old n before)
    (around : scope.outer = some captured) (within : Within old n s.scopes.size captured)
    (fine : ∀ binding ∈ scope.bindings, binding.2.Within old n s.scopes.size) :
    (s.addScope scope).2.Confined old n before := by
  have older_or_new {k : ScopeId} (existing : k < (s.addScope scope).2.scopes.size) :
      k < s.scopes.size ∨ k = s.scopes.size :=
    Nat.lt_succ_iff_lt_or_eq.mp (by simpa using existing)
  have older {k : ScopeId} (existing : k < s.scopes.size)
      (within : Within old n (s.addScope scope).2.scopes.size k) : Within old n s.scopes.size k :=
    within.imp_right fun ⟨new, _⟩ => ⟨new, existing⟩
  have grown (v : Value) (fine : v.Within old n s.scopes.size) :
      v.Within old n (s.addScope scope).2.scopes.size :=
    fun k mem => (fine k mem).mono (by simp)
  constructor
  · exact Nat.le_trans h.size_le (by simp)
  · intro k outer within' link
    obtain existing | rfl := older_or_new (lt_size_of_outer? link)
    · rw [outer?_addScope_of_lt s scope existing] at link
      exact h.outer (older existing within') link
    · rw [outer?_addScope_self, around] at link
      cases link
      exact within
  · intro k new existing
    obtain existing | rfl := older_or_new existing
    · rw [outer?_addScope_of_lt s scope existing]
      exact h.inside k new existing
    · exact ⟨captured, by rw [outer?_addScope_self, around]⟩
  · intro k within' binding bound
    obtain existing | rfl := older_or_new (lt_size_of_mem_bindings bound)
    · rw [bindings_addScope_of_lt s scope existing] at bound
      exact grown _ (h.bindings (older existing within') binding bound)
    · rw [bindings_addScope_self] at bound
      exact grown _ (fine binding bound)
  · intro k early other
    rw [bindings_addScope_of_lt s scope (Nat.lt_of_lt_of_le early h.size_le)]
    exact h.kept k early other

end Store

/-- Evaluation stays within bounds: all its values and scopes are, and the store is confined. -/
def Invariant.confinement (old : ScopeId → Prop) (n : Nat) (before : ScopeId → Bindings) :
    Invariant where
  holds s := s.Confined old n before
  value size v := v.Within old n size
  scope size r := Within old n size r
  value_mono le fine := fun k mem => (fine k mem).mono le
  scope_mono le within := within.mono le
  value_nil _ := List.forall_mem_nil _
  value_truth _ := List.forall_mem_nil _
  value_sum _ _ := List.forall_mem_nil _
  value_pair := List.forall_mem_append
  value_closure _ within fineParams fineBody :=
    List.forall_mem_cons.mpr ⟨within, List.forall_mem_append.mpr ⟨fineParams, fineBody⟩⟩
  value_parts fine := List.forall_mem_append.mp (List.forall_mem_cons.mp fine).2
  lookup confined within nearest found :=
    confined.bindings (confined.owner within nearest) _ (Bindings.mem_of_lookup found)
  identity confined := ⟨confined.size_le, confined.outer, confined.inside, confined.bindings,
    confined.kept⟩
  define confined within _ fine := confined.define within fine
  assign confined within nearest fine := confined.define (confined.owner within nearest) fine
  enter confined fine _ fineArgs := by
    refine ⟨confined.addScope rfl (fine _ List.mem_cons_self) fun binding bound => ?_, ?_⟩
    · exact fineArgs _ (List.of_mem_zip (mem_bindNames bound)).2
    · exact .inr ⟨confined.size_le, Nat.lt_succ_self _⟩

/-- The scopes that cannot be reached from a form and the scope `r`, in the sense of `leads`, have
the same bindings after its evaluation. What is handed out, and every binding that is new or has
changed, leads only to scopes that could be reached or were made meanwhile. -/
structure Encapsulates (leads : Value → List ScopeId) (depth : Nat) (form : Value) (r : ScopeId)
    (m : Machine) : Prop where
  unreached (id : ScopeId) : id < m.store.scopes.size → ¬ m.store.Reaches leads form r id →
    ((evaluate depth form r).stateAfter m).store.bindings id = m.store.bindings id
  handedOut (v : Value) : v ∈ (evaluate depth form r).handedOut m → ∀ k ∈ leads v,
    Within (m.store.Reaches leads form r) m.store.scopes.size
      ((evaluate depth form r).stateAfter m).store.scopes.size k
  stored (id : ScopeId) (name : String) (v : Value) :
    (((evaluate depth form r).stateAfter m).store.bindings id).lookup name = some v →
    (m.store.bindings id).lookup name ≠ some v → ∀ k ∈ leads v,
    Within (m.store.Reaches leads form r) m.store.scopes.size
      ((evaluate depth form r).stateAfter m).store.scopes.size k

/-- What can be reached is left by no link. -/
theorem Store.confined_of_reaches (s : Store) (form : Value) (r : ScopeId) :
    s.Confined (s.Reaches Value.scopes form r) s.scopes.size s.bindings := by
  have reached {k : ScopeId} (within : Within (s.Reaches Value.scopes form r) s.scopes.size
      s.scopes.size k) : s.Reaches Value.scopes form r k :=
    within.resolve_right fun ⟨new, existing⟩ => Nat.not_le_of_lt existing new
  constructor
  · exact Nat.le_refl _
  · exact fun within link => .inl (.outer (reached within) link)
  · exact fun id new existing => absurd new (Nat.not_le_of_lt existing)
  · exact fun within binding bound k mem => .inl (.binding (reached within) bound mem)
  · exact fun id _ _ => rfl

/-- An evaluation, however it ends, leaves the scopes that it cannot reach as they are, and hands
out and stores only what leads to scopes that it can reach or has made. -/
theorem evaluate_encapsulates (depth : Nat) (form : Value) (r : ScopeId) (m : Machine) :
    Encapsulates Value.scopes depth form r m := by
  have keeps := (Invariant.confinement _ _ _).evaluate_keeps depth
    (m.store.confined_of_reaches form r) (fun _ mem => .inl (.form mem)) (.inl .scope)
  have confined := keeps.reached.holds
  constructor
  · exact confined.kept
  · exact fun v out => keeps.handedOut out
  · intro id name v after before
    have bound := Bindings.mem_of_lookup after
    -- A scope out of bounds has its old bindings, so one that has changed is within.
    by_cases within : Within (m.store.Reaches Value.scopes form r) m.store.scopes.size
        ((evaluate depth form r).stateAfter m).store.scopes.size id
    · exact confined.bindings within _ bound
    · have early : id < m.store.scopes.size := Nat.lt_of_not_le fun new =>
        within (.inr ⟨new, Store.lt_size_of_mem_bindings bound⟩)
      have same := confined.kept id early fun reached => within (.inl reached)
      exact absurd (same ▸ after) before

/-- A closure that counts up the name `n` in the scope that it captured. -/
def counter (id : Identity) (scope : ScopeId) : Value :=
  .closure id .nil
    (.ofList [.ofList [.symbol "set!", .symbol "n",
      .ofList [.symbol "+", .symbol "n", .int 1]]]) scope

/-- Two scopes, each with a name `n` of its own, inside a scope that can add. -/
def twoCounts : Machine where
  store := {
    scopes := #[⟨[("+", .procedure 0 "+" .add)], none⟩, ⟨[("n", .int 0)], some 0⟩,
      ⟨[("n", .int 0)], some 0⟩]
    nextIdentity := 1 }

/-- To count up in one of the scopes leaves the other as it is. -/
theorem counters_independent :
    ((evaluate 5 (.ofList [counter 1 1]) 0).stateAfter twoCounts).store.bindings 1 =
        [("n", .int 1)] ∧
      ((evaluate 5 (.ofList [counter 1 1]) 0).stateAfter twoCounts).store.bindings 2 =
        twoCounts.store.bindings 2 := by
  refine ⟨by decide +kernel, (evaluate_encapsulates 5 _ 0 twoCounts).unreached 2 (by decide) ?_⟩
  intro reached
  have closed : 2 ∈ [0, 1] := reached.mem_of_closed (by decide) (by decide) (by decide)
  exact absurd closed (by decide)

/-- A closure over scope 0 stands in the body of a closure that scope 1 binds, and nothing else
leads to scope 0. -/
def closureInBody : Machine where
  store :=
    let inner := .closure 0 .nil (.ofList [.ofList [.symbol "set!", .symbol "x", .int 2]]) 0
    { scopes := #[⟨[("x", .int 1)], none⟩, ⟨[("f", .closure 1 .nil (.ofList [inner]) 1)], none⟩]
      nextIdentity := 2 }

/-- It is not enough to look for closures inside pairs: the body of a closure is evaluated when the
closure is called, and then the closures in it are values. -/
theorem not_encapsulates_captured :
    ¬ Encapsulates Value.captured 5 (.ofList [.ofList [.symbol "f"]]) 1 closureInBody := by
  intro h
  have hidden : ¬ closureInBody.store.Reaches Value.captured
      (.ofList [.ofList [.symbol "f"]]) 1 0 := by
    intro reached
    have closed : 0 ∈ [1] := reached.mem_of_closed (by decide) (by decide) (by decide)
    exact absurd closed (by decide)
  have same := h.unreached 0 (by decide) hidden
  revert same
  decide +kernel

end PocketLisp
