import PocketLisp.Eval.Check
import PocketLisp.Eval.Machine

/-!
# Special forms

A special form gets its argument forms unevaluated. Its shape is checked first, by `shape`, which
knows neither scopes nor the state; only a form of the right shape is then carried out, by
`Form.run`. So an error in the shape never comes after an effect.
-/

namespace PocketLisp

/-- The special forms. -/
inductive SpecialForm where
  | quote
  | branch
  | define
  | assign
  | lambda
  deriving Repr, DecidableEq

/-- A special form whose shape was found right, with its parts. -/
inductive Form where
  | quote (datum : Value)
  | branch (test yes : Value) (no : Option Value)
  | define (name : String) (value : Value)
  | assign (name : String) (value : Value)
  | lambda (params : List String) (body : List Value)
  deriving Repr, DecidableEq

namespace SpecialForm

/-- The symbol that introduces a special form. -/
def name : SpecialForm → String
  | quote => "quote"
  | branch => "if"
  | define => "define"
  | assign => "set!"
  | lambda => "lambda"

/-- All special forms. -/
def all : List SpecialForm := [quote, branch, define, assign, lambda]

theorem mem_all (f : SpecialForm) : f ∈ all := by
  cases f <;> simp [all]

/-- The special form that a name introduces. -/
def ofName? (text : String) : Option SpecialForm :=
  all.find? (·.name == text)

@[simp] theorem ofName?_name (f : SpecialForm) : ofName? f.name = some f := by
  cases f <;> decide

/-- The special form that the head of a list introduces. -/
def ofHead? : Value → Option SpecialForm
  | .symbol name => ofName? name
  | _ => none

/-- The name and the value form of a definition or an assignment. -/
def namedValue (args : List Value) : Except EvalError (String × Value) := do
  let (target, value) ← twoArguments args
  pure (← symbolName target, value)

/-- The names in a parameter list. A tail other than the empty list binds nothing. -/
def paramNames (params : Value) : Except EvalError (List String) :=
  match params with
  | .nil => .ok []
  | .pair _ _ => symbolNames params.elements
  | other => .error (.mismatch other .list)

/-- Checks the shape of a special form with the given argument forms. -/
def shape : SpecialForm → List Value → Except EvalError Form
  | quote, args => do
    pure (.quote (← oneArgument args))
  | branch, args => do
    checkRange args.length 2 (some 3)
    pure (.branch (args.getD 0 .nil) (args.getD 1 .nil) args[2]?)
  | define, args => do
    let (name, value) ← namedValue args
    pure (.define name value)
  | assign, args => do
    let (name, value) ← namedValue args
    pure (.assign name value)
  | lambda, params :: body => do
    pure (.lambda (← paramNames params) body)
  | lambda, [] => .error (.tooFew 0 1)

end SpecialForm

/-- Makes a closure with an identity of its own. -/
def makeClosure (params body : List Value) (captured : ScopeId) : EvalM Value := do
  let id ← EvalM.freshIdentity
  pure (.closure id (.ofList params) (.ofList body) captured)

/-- Carries out a special form in a scope. -/
def Form.run (ev : Evaluator) (r : ScopeId) : Form → EvalM Value
  | quote datum => pure datum
  | branch test yes no => do
    let value ← ev test r
    if value.isTrue then ev yes r
    else
      match no with
      | some no => ev no r
      | none => pure .nil
  | define name form => do
    let value ← ev form r
    EvalM.define r name value
  | assign name form => do
    let value ← ev form r
    EvalM.assign r name value
  | lambda params body => do
    let closure ← makeClosure (params.map .symbol) body r
    EvalM.report (.closureMade closure)
    pure closure

/-- Checks a special form and carries it out. -/
def SpecialForm.run (ev : Evaluator) (form : SpecialForm) (args : List Value) (r : ScopeId) :
    EvalM Value := do
  (← .ofExcept (form.shape args)).run ev r

end PocketLisp
