import PocketLisp.Eval.Apply
import PocketLisp.Eval.SpecialForm

/-!
# Evaluation

A symbol has the value of its nearest binding. A list whose head introduces a special form is that
form, whatever the scopes bind. Any other list is a call: the head is evaluated, then the arguments
from left to right, and the value of the head is applied. All other values stand for themselves.

`step` says this over an evaluator for the subforms, and `evaluate` ties the knot a limited number
of times. A larger limit changes no answer other than `EvalFailure.tooDeep`.
-/

namespace PocketLisp

/-- Evaluates a form, given an evaluator for the forms inside it. -/
def step (ev : Evaluator) : Evaluator
  | .symbol name, r => EvalM.lookup r name
  | .pair head rest, r =>
    match SpecialForm.ofHead? head with
    | some form => do
      EvalM.report (.specialForm form.name)
      form.run ev rest.elements r
    | none => do
      let callee ← ev head r
      let args ← rest.elements.mapM (ev · r)
      apply ev callee args
  | form, _ => pure form

/-- Evaluates a form with forms nested to at most the given depth. -/
def evaluate : (depth : Nat) → Evaluator
  | 0, _, _ => throw .tooDeep
  | depth + 1, form, r => step (evaluate depth) form r

/-- The evaluator that gives every form itself as its value. -/
def identityEvaluator : Evaluator := fun form _ => pure form

end PocketLisp
