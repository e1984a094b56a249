import PocketLisp.Proofs.Eval.Chronicle
import PocketLisp.Proofs.Store.Write

/-!
# What evaluation keeps

An `Invariant` is a property of stores together with the values that may occur and the scopes in
which forms may be evaluated. Its laws speak of single operations: what a lookup may find, what a
definition, an assignment or a call does to the store. From them follows, once for all invariants,
that evaluation keeps the property (`Invariant.evaluate_keeps`): the store that is left has it,
and the value or the error is one of those that may occur. This holds of every outcome, also when
the forms are nested too deeply and evaluation breaks off half-way.

Values and scopes may depend on how many scopes there are, which never becomes less. So an invariant
is a chronicle whose record is this number, and that evaluation keeps it is a case of what it does
for all chronicles.
-/

namespace PocketLisp

open EvalM

/-- A property of stores that the operations of evaluation keep. -/
structure Invariant where
  /-- The stores with the property. -/
  holds : Store → Prop
  /-- The values that may occur when there are `n` scopes, forms among them. -/
  value : (n : Nat) → Value → Prop
  /-- The scopes in which forms may be evaluated when there are `n` scopes. -/
  scope : (n : Nat) → ScopeId → Prop
  value_mono {n n' : Nat} {v : Value} : n ≤ n' → value n v → value n' v
  scope_mono {n n' : Nat} {r : ScopeId} : n ≤ n' → scope n r → scope n' r
  value_nil (n : Nat) : value n .nil
  value_truth (n : Nat) : value n (.symbol "t")
  value_sum (n : Nat) (k : Int) : value n (.int (wrap k))
  value_pair {n : Nat} {first rest : Value} :
    value n (.pair first rest) ↔ value n first ∧ value n rest
  value_closure {n : Nat} {names : List String} {body : Value} {r : ScopeId} (id : Identity) :
    scope n r → value n (.ofList (names.map .symbol)) → value n body →
      value n (.closure id (.ofList (names.map .symbol)) body r)
  value_parts {n : Nat} {id : Identity} {params body : Value} {captured : ScopeId} :
    value n (.closure id params body captured) → value n params ∧ value n body
  lookup {s : Store} {r owner : ScopeId} {name : String} {v : Value} :
    holds s → scope s.scopes.size r → s.Owner name r owner →
      (s.bindings owner).lookup name = some v → value s.scopes.size v
  identity {s : Store} : holds s → holds { s with nextIdentity := s.nextIdentity + 1 }
  define {s : Store} {r : ScopeId} {name : String} {v : Value} :
    holds s → scope s.scopes.size r → value s.scopes.size (.symbol name) →
      value s.scopes.size v → holds (s.define r name v)
  assign {s : Store} {r owner : ScopeId} {name : String} {v : Value} :
    holds s → scope s.scopes.size r → s.Owner name r owner → value s.scopes.size v →
      holds (s.define owner name v)
  enter {s : Store} {id : Identity} {params body : Value} {captured : ScopeId}
    {names : List String} {args : List Value} :
    holds s → value s.scopes.size (.closure id params body captured) →
      params.elements = names.map .symbol → (∀ arg ∈ args, value s.scopes.size arg) →
      holds (s.addScope ⟨bindNames names args, some captured⟩).2 ∧
        scope (s.scopes.size + 1) s.scopes.size

namespace Invariant

variable (inv : Invariant)

/-- What an error shows may occur. -/
def Error (n : Nat) : EvalError → Prop
  | .unbound name => inv.value n (.symbol name)
  | .mismatch v _ => inv.value n v
  | .wrongCount .. | .tooFew .. | .tooMany .. => True

/-- What a failure shows may occur. -/
def Failure (n : Nat) : EvalFailure → Prop
  | .error e => inv.Error n e
  | .tooDeep => True

/-- The store `s'` has the property, and no scope of `s` is gone. -/
structure Reached (s s' : Store) : Prop where
  grows : s.scopes.size ≤ s'.scopes.size
  holds : inv.holds s'

/-- Whatever the outcome, an action leaves a store with the property, and what it hands out may
occur. -/
def Keeps {α : Type} (may : Nat → α → Prop) (action : EvalM α) (m : Machine) : Prop :=
  match action m with
  | .ok a m' => inv.Reached m.store m'.store ∧ may m'.store.scopes.size a
  | .error f m' => inv.Reached m.store m'.store ∧ inv.Failure m'.store.scopes.size f

variable {inv}

section Actions

variable {α : Type} {may : Nat → α → Prop} {m : Machine}

theorem Keeps.of_ok {action : EvalM α} {a : α} {m' : Machine} (h : inv.Keeps may action m)
    (run : action m = .ok a m') : inv.Reached m.store m'.store ∧ may m'.store.scopes.size a := by
  simpa only [Keeps, run] using h

theorem Keeps.of_error {action : EvalM α} {failure : EvalFailure} {m' : Machine}
    (h : inv.Keeps may action m) (run : action m = .error failure m') :
    inv.Reached m.store m'.store ∧ inv.Failure m'.store.scopes.size failure := by
  simpa only [Keeps, run] using h

/-- The store that is left has the property, whatever the outcome. -/
theorem Keeps.reached {action : EvalM α} (h : inv.Keeps may action m) :
    inv.Reached m.store (action.stateAfter m).store := by
  cases run : action m with
  | ok a m' => exact stateAfter_of_ok run ▸ (h.of_ok run).1
  | error failure m' => exact stateAfter_of_error run ▸ (h.of_error run).1

/-- What an error shows is what it may show. -/
theorem Error.shown {n : Nat} {e : EvalError} (fine : inv.Error n e) {v : Value}
    (shown : v ∈ e.shown?) : inv.value n v := by
  cases e with
  | unbound | mismatch =>
      cases shown
      exact fine
  | wrongCount | tooFew | tooMany => cases shown

/-- What is handed out may occur. -/
theorem Keeps.handedOut {action : EvalM Value} {v : Value} (h : inv.Keeps inv.value action m)
    (out : v ∈ action.handedOut m) : inv.value (action.stateAfter m).store.scopes.size v := by
  unfold EvalM.handedOut at out
  cases run : action m with
  | ok w m' =>
      simp only [run, Option.mem_some_iff] at out
      exact stateAfter_of_ok run ▸ out ▸ (h.of_ok run).2
  | error failure m' =>
      simp only [run] at out
      cases failure with
      | tooDeep => cases out
      | error e => exact stateAfter_of_error run ▸ Error.shown (h.of_error run).2 out

end Actions

variable (inv) in
/-- An evaluator that keeps the property, wherever it may be started. -/
def Safe (ev : Evaluator) : Prop :=
  ∀ ⦃form : Value⦄ ⦃r : ScopeId⦄ ⦃m : Machine⦄, inv.holds m.store →
    inv.value m.store.scopes.size form → inv.scope m.store.scopes.size r →
    inv.Keeps inv.value (ev form r) m

variable (inv) in
/-- The number of scopes is a record of an evaluation, and it fits where the property holds. -/
def toChronicle : Chronicle Nat where
  later n n' := n ≤ n'
  fits n m := m.store.scopes.size = n ∧ inv.holds m.store
  value := inv.value
  scope := inv.scope
  later_refl := Nat.le_refl
  later_trans := Nat.le_trans
  value_mono := inv.value_mono
  scope_mono := inv.scope_mono
  value_nil := inv.value_nil
  value_truth := inv.value_truth
  value_sum := inv.value_sum
  value_pair := inv.value_pair
  value_parts := inv.value_parts
  lookup := by
    rintro _ m r owner name v ⟨rfl, holds⟩ scope nearest found
    exact inv.lookup holds scope nearest found
  special _ fits := ⟨_, Nat.le_refl _, fits⟩
  define := by
    rintro _ m r name v ⟨rfl, holds⟩ scope fineName fine
    exact ⟨_, Nat.le_refl _, by simp, inv.define holds scope fineName fine⟩
  assign := by
    rintro _ m r owner name v ⟨rfl, holds⟩ scope nearest fine
    exact ⟨_, Nat.le_refl _, by simp, inv.assign holds scope nearest fine⟩
  enter := by
    rintro _ m id params body captured names args ⟨rfl, holds⟩ fine symbols - fineArgs
    obtain ⟨entered, scope⟩ := inv.enter holds fine symbols fineArgs
    exact ⟨_, Nat.le_succ _, ⟨by simp, entered⟩, scope⟩
  lambda := by
    rintro _ m r names body ⟨rfl, holds⟩ scope fineParams fineBody
    exact ⟨_, Nat.le_refl _, ⟨by simp, inv.identity holds⟩,
      inv.value_closure _ scope fineParams fineBody⟩

theorem failure_of_toChronicle {n : Nat} {failure : EvalFailure}
    (fine : inv.toChronicle.Failure n failure) : inv.Failure n failure := by
  cases failure with
  | tooDeep => trivial
  | error e =>
      cases e with
      | unbound | mismatch => exact fine _ rfl
      | wrongCount | tooFew | tooMany => trivial

variable (inv) in
/-- Evaluation keeps every invariant, to whatever depth it goes and whatever its outcome. -/
theorem evaluate_keeps (depth : Nat) : inv.Safe (evaluate depth) := by
  intro form r m holds fine scope
  have keeps := inv.toChronicle.evaluate_keeps depth ⟨rfl, holds⟩ fine scope
  unfold Keeps
  cases run : evaluate depth form r m with
  | ok v m' =>
      obtain ⟨_, grows, ⟨rfl, holds'⟩, fine'⟩ := keeps.of_ok run
      exact ⟨⟨grows, holds'⟩, fine'⟩
  | error failure m' =>
      obtain ⟨_, grows, ⟨rfl, holds'⟩, fine'⟩ := keeps.of_error run
      exact ⟨⟨grows, holds'⟩, failure_of_toChronicle fine'⟩

end Invariant

end PocketLisp
