import PocketLisp.Eval.Machine
import PocketLisp.Proofs.Store.Owner

/-!
# How a computation ends

`Ends action m answer s` says that an action started in the state `m` ends with an answer, a value
or an error of the program, and leaves the store `s`. It says nothing of the trace, and an action
that was nested too deeply has no ending. Each operation on the state has its endings stated once;
proofs about evaluation put these together and never unfold the monad.
-/

namespace PocketLisp

namespace Machine

/-- The state after a name was bound in the scope `r`. -/
def defined (m : Machine) (r : ScopeId) (name : String) (value : Value) : Machine :=
  { m with store := m.store.define r name value }

/-- The state after a scope was added. -/
def added (m : Machine) (scope : Scope) : Machine :=
  { m with store := (m.store.addScope scope).2 }

/-- The state after an identity was taken. -/
def identified (m : Machine) : Machine :=
  { m with store := { m.store with nextIdentity := m.store.nextIdentity + 1 } }

section Stores

variable (m : Machine)

@[simp] theorem store_defined (r : ScopeId) (name : String) (value : Value) :
    (m.defined r name value).store = m.store.define r name value := rfl

@[simp] theorem store_added (scope : Scope) :
    (m.added scope).store = (m.store.addScope scope).2 := rfl

@[simp] theorem store_identified :
    m.identified.store = { m.store with nextIdentity := m.store.nextIdentity + 1 } := rfl

end Stores

end Machine

namespace EvalM

variable {α β : Type} {m : Machine} {s : Store}

/-- The action ends with the answer and leaves the store `s`, whatever it reports. -/
def Ends (action : EvalM α) (m : Machine) (answer : Except EvalError α) (s : Store) : Prop :=
  match answer with
  | .ok a => ∃ m', action m = .ok a m' ∧ m'.store = s
  | .error e => ∃ m', action m = .error (.error e) m' ∧ m'.store = s

/-- What an action ends with, whatever state it leaves. -/
def outcome {α : Type} (action : EvalM α) (m : Machine) : Except EvalFailure α :=
  match action m with
  | .ok a _ => .ok a
  | .error failure _ => .error failure

theorem outcome_of_ok {action : EvalM α} {m' : Machine} {a : α} (run : action m = .ok a m') :
    action.outcome m = .ok a := by
  rw [outcome, run]

theorem outcome_of_error {action : EvalM α} {m' : Machine} {failure : EvalFailure}
    (run : action m = .error failure m') : action.outcome m = .error failure := by
  rw [outcome, run]

theorem stateAfter_of_ok {action : EvalM α} {m' : Machine} {a : α} (run : action m = .ok a m') :
    action.stateAfter m = m' := by
  rw [stateAfter, run]

theorem stateAfter_of_error {action : EvalM α} {m' : Machine} {failure : EvalFailure}
    (run : action m = .error failure m') : action.stateAfter m = m' := by
  rw [stateAfter, run]

/-- The second of two actions goes on where the first one has its value. -/
theorem bind_of_ok {action : EvalM α} {m' : Machine} {a : α} (run : action m = .ok a m')
    (next : α → EvalM β) : (action >>= next) m = next a m' := by
  simp only [bind, EStateM.bind, run]

/-- Two actions in turn fail where the first one does. -/
theorem bind_of_error {action : EvalM α} {m' : Machine} {failure : EvalFailure}
    (run : action m = .error failure m') (next : α → EvalM β) :
    (action >>= next) m = .error failure m' := by
  simp only [bind, EStateM.bind, run]

/-- Two actions in turn leave the state that the second one leaves. -/
theorem stateAfter_bind_of_ok {action : EvalM α} {m' : Machine} {a : α} (run : action m = .ok a m')
    (next : α → EvalM β) : (action >>= next).stateAfter m = (next a).stateAfter m' := by
  rw [stateAfter, bind_of_ok run, stateAfter]

/-- An action has one ending at most. -/
theorem Ends.unique {action : EvalM α} {answer answer' : Except EvalError α} {s' : Store}
    (h : action.Ends m answer s) (h' : action.Ends m answer' s') : answer = answer' ∧ s = s' := by
  cases answer <;> cases answer' <;>
    (obtain ⟨_, h, rfl⟩ := h; obtain ⟨_, h', rfl⟩ := h'; simp_all)

/-- An action that was nested too deeply does not end. -/
theorem Ends.ne_tooDeep {action : EvalM α} {answer : Except EvalError α}
    (h : action.Ends m answer s) (m' : Machine) : action m ≠ .error .tooDeep m' := by
  cases answer <;> (obtain ⟨_, h, _⟩ := h; simp [h])

/-- An action ends or is nested too deeply. -/
theorem ends_or_tooDeep (action : EvalM α) (m : Machine) :
    (∃ answer s, action.Ends m answer s) ∨ ∃ m', action m = .error .tooDeep m' := by
  cases h : action m with
  | ok a m' => exact .inl ⟨.ok a, m'.store, m', h, rfl⟩
  | error failure m' =>
      cases failure with
      | error e => exact .inl ⟨.error e, m'.store, m', h, rfl⟩
      | tooDeep => exact .inr ⟨m', rfl⟩

/-- The store that an action with an ending leaves. -/
theorem Ends.store_stateAfter {action : EvalM α} {answer : Except EvalError α}
    (h : action.Ends m answer s) : (action.stateAfter m).store = s := by
  cases answer with
  | ok a =>
      obtain ⟨m', run, rfl⟩ := h
      rw [stateAfter_of_ok run]
  | error e =>
      obtain ⟨m', run, rfl⟩ := h
      rw [stateAfter_of_error run]

theorem ends_pure (a : α) (m : Machine) : (pure a : EvalM α).Ends m (.ok a) m.store :=
  ⟨m, rfl, rfl⟩

theorem ends_fail (e : EvalError) (m : Machine) :
    (fail e : EvalM α).Ends m (.error e) m.store :=
  ⟨m, rfl, rfl⟩

theorem ends_ofExcept {check answer : Except EvalError α} (h : check = answer) (m : Machine) :
    (ofExcept check).Ends m answer m.store := by
  cases h
  cases check with
  | ok a => exact ends_pure a m
  | error e => exact ends_fail e m

/-- The first of two actions fails, and the second is not reached. -/
theorem Ends.bind_error {action : EvalM α} {next : α → EvalM β} {e : EvalError}
    (h : action.Ends m (.error e) s) : (action >>= next).Ends m (.error e) s := by
  obtain ⟨m', h, hs⟩ := h
  exact ⟨m', bind_of_error h next, hs⟩

/-- The second of two actions goes on from the store that the first one left. -/
theorem Ends.bind_ok {action : EvalM α} {next : α → EvalM β} {a : α}
    {answer : Except EvalError β} {s' : Store} (h : action.Ends m (.ok a) s)
    (hnext : ∀ m', m'.store = s → (next a).Ends m' answer s') :
    (action >>= next).Ends m answer s' := by
  obtain ⟨m', h, hs⟩ := h
  have run : (action >>= next) m = next a m' := bind_of_ok h next
  have h' := hnext m' hs
  cases answer <;> simpa only [Ends, run] using h'

/-- Two actions in turn end in one of these two ways only. -/
theorem Ends.bind_cases {action : EvalM α} {next : α → EvalM β} {answer : Except EvalError β}
    (h : (action >>= next).Ends m answer s) :
    (∃ e, answer = .error e ∧ action.Ends m (.error e) s) ∨
      ∃ a m', action.Ends m (.ok a) m'.store ∧ (next a).Ends m' answer s := by
  cases hrun : action m with
  | ok a m' =>
      have run : (action >>= next) m = next a m' := bind_of_ok hrun next
      exact .inr ⟨a, m', ⟨m', hrun, rfl⟩, by cases answer <;> simpa only [Ends, run] using h⟩
  | error failure m' =>
      have run : (action >>= next) m = .error failure m' := bind_of_error hrun next
      cases answer with
      | ok b => simp [Ends, run] at h
      | error e =>
          obtain ⟨_, h, hs⟩ := h
          rw [run] at h
          cases h
          exact .inl ⟨e, rfl, m', hrun, hs⟩

/-- What is known of the first of two actions decides where the second one starts. -/
theorem Ends.of_bind {action : EvalM α} {next : α → EvalM β} {answer : Except EvalError β}
    {a : α} {s₁ : Store} (h : (action >>= next).Ends m answer s)
    (first : action.Ends m (.ok a) s₁) :
    ∃ m', m'.store = s₁ ∧ (next a).Ends m' answer s := by
  obtain ⟨e, rfl, failed⟩ | ⟨b, m', ended, h⟩ := h.bind_cases
  · cases (first.unique failed).1
  · obtain ⟨hb, rfl⟩ := first.unique ended
    cases hb
    exact ⟨m', rfl, h⟩

/-- Two actions in turn fail as the first one does, or the first one has a value and they fail as
the second one does. -/
theorem bind_eq_error_iff {action : EvalM α} {next : α → EvalM β} {failure : EvalFailure}
    {m' : Machine} : (action >>= next) m = .error failure m' ↔
      action m = .error failure m' ∨
        ∃ a m₁, action m = .ok a m₁ ∧ next a m₁ = .error failure m' := by
  cases run : action m with
  | ok a m₁ => simp [bind_of_ok run, and_assoc]
  | error failure m₁ => simp [bind_of_error run]

theorem ends_report (event : Event) (m : Machine) :
    (report event).Ends m (.ok ()) m.store :=
  ⟨_, rfl, rfl⟩

theorem ends_addScope (scope : Scope) (m : Machine) :
    (addScope scope).Ends m (.ok m.store.scopes.size)
      { m.store with scopes := m.store.scopes.push scope } :=
  ⟨_, rfl, rfl⟩

theorem ends_freshIdentity (m : Machine) :
    freshIdentity.Ends m (.ok m.store.nextIdentity)
      { m.store with nextIdentity := m.store.nextIdentity + 1 } :=
  ⟨_, rfl, rfl⟩

theorem ends_define (r : ScopeId) (name : String) (value : Value) (m : Machine) :
    (define r name value).Ends m (.ok value) (m.store.define r name value) :=
  ⟨_, rfl, rfl⟩

/-- A check that was passed gives its result to what comes next. -/
theorem run_checked {check : Except EvalError α} {a : α} (passed : check = .ok a)
    (next : α → EvalM β) (m : Machine) : (ofExcept check >>= next) m = next a m := by
  rw [passed]
  rfl

theorem run_unchecked {check : Except EvalError α} {e : EvalError} (failed : check = .error e)
    (next : α → EvalM β) (m : Machine) :
    (ofExcept check >>= next) m = .error (.error e) m := by
  rw [failed]
  rfl

/-- What comes next sees the state as it is. -/
theorem run_get (next : Machine → EvalM β) (m : Machine) :
    ((get : EvalM Machine) >>= next) m = next m m :=
  rfl

section Names

variable {name : String} {r owner : ScopeId} (value : Value)

/-- A name has the value of its nearest binding. -/
theorem run_lookup {value : Value} (nearest : m.store.Owner name r owner)
    (bound : (m.store.bindings owner).lookup name = some value) :
    lookup r name m = .ok value m := by
  have found : m.store.get? r name = some value := by
    rw [Store.get?, Store.owner?_eq_some_iff.mpr nearest, Option.bind_some, bound]
  rw [lookup, run_get, found]
  rfl

theorem run_lookup_unbound (nowhere : ∀ owner, ¬ m.store.Owner name r owner) :
    lookup r name m = .error (.error (.unbound name)) m := by
  have missing : m.store.get? r name = none := by
    rw [Store.get?, Store.owner?_eq_none_iff.mpr nowhere, Option.bind_none]
  rw [lookup, run_get, missing]
  rfl

/-- An assignment changes the nearest binding and no other. -/
theorem run_assign (nearest : m.store.Owner name r owner) :
    assign r name value m = .ok value (m.defined owner name value) := by
  have found : m.store.assign? r name value = some (m.store.define owner name value) := by
    rw [Store.assign?, Store.owner?_eq_some_iff.mpr nearest, Option.map_some]
  rw [assign, run_get, found]
  rfl

theorem run_assign_unbound (nowhere : ∀ owner, ¬ m.store.Owner name r owner) :
    assign r name value m = .error (.error (.unbound name)) m := by
  have missing : m.store.assign? r name value = none := by
    rw [Store.assign?, Store.owner?_eq_none_iff.mpr nowhere, Option.map_none]
  rw [assign, run_get, missing]
  rfl

theorem ends_lookup {value : Value} (nearest : m.store.Owner name r owner)
    (bound : (m.store.bindings owner).lookup name = some value) :
    (lookup r name).Ends m (.ok value) m.store :=
  ⟨_, run_lookup nearest bound, rfl⟩

theorem ends_lookup_unbound (nowhere : ∀ owner, ¬ m.store.Owner name r owner) :
    (lookup r name).Ends m (.error (.unbound name)) m.store :=
  ⟨_, run_lookup_unbound nowhere, rfl⟩

theorem ends_assign (nearest : m.store.Owner name r owner) :
    (assign r name value).Ends m (.ok value) (m.store.define owner name value) :=
  ⟨_, run_assign value nearest, rfl⟩

theorem ends_assign_unbound (nowhere : ∀ owner, ¬ m.store.Owner name r owner) :
    (assign r name value).Ends m (.error (.unbound name)) m.store :=
  ⟨_, run_assign_unbound value nowhere, rfl⟩

end Names

end EvalM

end PocketLisp
