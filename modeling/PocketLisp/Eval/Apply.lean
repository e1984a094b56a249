import PocketLisp.Eval.Check
import PocketLisp.Eval.Machine
import PocketLisp.Eval.Primitive

/-!
# Application

A procedure performs its operation. A closure runs its body in a new scope inside the scope it
captured; the parameters are bound there to the arguments, one argument to each. Nothing is created
and nothing is reported before the number of arguments is known to be right.
-/

namespace PocketLisp

/-- Binds names to values in order; of a name that is repeated the last value remains. -/
def bindNames (names : List String) (values : List Value) : Bindings :=
  (names.zip values).foldl (fun bindings (name, value) => bindings.define name value) []

/-- The scope in which the body of a closure runs. -/
def callScope (params : List Value) (captured : ScopeId) (args : List Value) :
    Except EvalError Scope := do
  checkCount args.length params.length
  let names ← symbolNames params
  pure { bindings := bindNames names args, outer := some captured }

/-- Evaluates forms in order; the answer is the last value, or the empty list if there is no
form. -/
def evalBody (ev : Evaluator) (forms : List Value) (r : ScopeId) : EvalM Value :=
  forms.foldlM (fun _ form => ev form r) .nil

/-- Applies a closure to evaluated arguments. -/
def applyClosure (ev : Evaluator) (closure : Value) (params body : Value) (captured : ScopeId)
    (args : List Value) : EvalM Value := do
  let r ← EvalM.addScope (← .ofExcept (callScope params.elements captured args))
  EvalM.report (.applying closure args)
  evalBody ev body.elements r

/-- Applies a value to evaluated arguments. -/
def apply (ev : Evaluator) (callee : Value) (args : List Value) : EvalM Value :=
  match callee with
  | .procedure _ _ operation => .ofExcept (operation.run args)
  | .closure _ params body captured => applyClosure ev callee params body captured args
  | other => .fail (.mismatch other .function)

end PocketLisp
