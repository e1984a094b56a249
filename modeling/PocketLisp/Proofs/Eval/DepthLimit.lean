import PocketLisp.Proofs.Eval.Lockstep

/-!
# Deeper evaluation

An evaluator that may follow the forms to a larger depth does what one with a smaller limit does,
state by state, wherever the latter does not break off (`agrees_evaluate`). Nothing catches the
break-off: an action that is nested too deeply makes every action that contains it so. Hence two
evaluators that agree in this sense make two steps that agree (`lockstep_agrees`), and the theorem
is by induction on the smaller limit.
-/

namespace PocketLisp

open EvalM

namespace EvalM

/-- From every state the second action does what the first one does, unless that is nested too
deeply. -/
def Agrees {α : Type} (action action' : EvalM α) : Prop :=
  ∀ m, (∀ m', action m ≠ .error .tooDeep m') → action' m = action m

variable {α β : Type} {action action' : EvalM α} {next next' : α → EvalM β}

theorem Agrees.refl (action : EvalM α) : action.Agrees action :=
  fun _ _ => rfl

/-- Actions in turn agree if each of them does: where the first breaks off, the two together do. -/
theorem Agrees.bind (first : action.Agrees action') (rest : ∀ a, (next a).Agrees (next' a)) :
    (action >>= next).Agrees (action' >>= next') := by
  intro m fine
  cases run : action m with
  | ok a m₁ =>
      have same : action' m = .ok a m₁ := run ▸ first m (by simp [run])
      rw [bind_of_ok run] at fine ⊢
      rw [bind_of_ok same]
      exact rest a m₁ fine
  | error failure m₁ =>
      have whole : (action >>= next) m = .error failure m₁ := bind_of_error run next
      have same : action' m = .error failure m₁ := by
        rw [first m, run]
        intro m' deep
        cases run.symm.trans deep
        exact fine m₁ whole
      rw [whole, bind_of_error same]

end EvalM

theorem lockstep_agrees : Lockstep @Agrees where
  bind first rest := first.bind rest
  check _ := .refl _
  report _ := .refl _
  addScope _ := .refl _
  freshIdentity := .refl _
  lookup _ _ := .refl _
  define _ _ _ := .refl _
  assign _ _ _ := .refl _

theorem agrees_apply {ev ev' : Evaluator} (agrees : ∀ form r, (ev form r).Agrees (ev' form r))
    (callee : Value) (args : List Value) : (apply ev callee args).Agrees (apply ev' callee args) :=
  lockstep_agrees.apply agrees callee args

/-- Evaluation to a larger depth agrees with evaluation to a smaller one. -/
theorem agrees_evaluate {n n' : Nat} (le : n ≤ n') (form : Value) (r : ScopeId) :
    (evaluate n form r).Agrees (evaluate n' form r) := by
  induction n generalizing n' form r with
  -- Evaluation to depth 0 breaks off at once, so there is nothing to agree with.
  | zero => exact fun m fine => absurd rfl (fine m)
  | succ n ih =>
      obtain ⟨k, rfl⟩ : ∃ k, n' = k + 1 := ⟨n' - 1, by omega⟩
      exact lockstep_agrees.step (ih (Nat.le_of_succ_le_succ le)) form r

end PocketLisp
