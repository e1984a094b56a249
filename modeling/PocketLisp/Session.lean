import PocketLisp.Eval.Evaluate
import PocketLisp.Eval.Global
import PocketLisp.Reader.Cursor

/-!
# Sessions

A session evaluates texts one after another in one global scope. Reading and evaluating alternate:
a datum is evaluated before the next one is read, so what stands before a fault of the text takes
effect. The session goes on after every failure, from the state that was reached.
-/

namespace PocketLisp

/-- Why a text was not evaluated to its end. -/
inductive Failure where
  | reading (failure : ReadFailure)
  | evaluation (failure : EvalFailure)
  deriving Repr, DecidableEq

/-- The explanation of a failure. -/
def Failure.message : Failure → String
  | reading failure => failure.message
  | evaluation failure => failure.message

/-- The values of the forms of a text, and why it ended early if it did. -/
structure Results where
  values : List Value
  failure : Option Failure
  deriving Repr, DecidableEq

namespace Results

/-- The value of the last form, or the empty list if there is none; the failure if there is
one. -/
def last (results : Results) : Except Failure Value :=
  match results.failure with
  | some failure => .error failure
  | none => .ok (results.values.getLast?.getD .nil)

end Results

namespace Session

/-- The scope in which the forms of a session are evaluated. -/
def globalScope : ScopeId := 0

/-- The state of a session that has evaluated nothing. -/
def start : Machine :=
  EvalM.globalScope.stateAfter {}

/-- The first scope of a new session is its global scope. -/
theorem globalScope_start : EvalM.globalScope {} = .ok globalScope start := by
  rfl

/-- Reads and evaluates the data at the cursor in turn. The values found before are given newest
first. -/
def evalAfter (ev : Evaluator) (found : List Value) (c : Cursor) (m : Machine) :
    Results × Machine :=
  if _remaining : c.atEnd then (⟨found.reverse, none⟩, m)
  else
    match _taken : c.readDatum with
    | (.error failure, _) => (⟨found.reverse, some (.reading failure)⟩, m)
    | (.ok datum, rest) =>
      match ev datum globalScope m with
      | .ok value m => evalAfter ev (value :: found) rest m
      | .error failure m => (⟨found.reverse, some (.evaluation failure)⟩, m)
termination_by c.tokens.length
decreasing_by
  have := Cursor.length_readDatum_lt (by simpa using _remaining)
  rwa [_taken] at this

/-- Evaluates the forms of a text in order. -/
def evalText (ev : Evaluator) (text : String) (m : Machine) : Results × Machine :=
  evalAfter ev [] (Cursor.ofText text) m

/-- Evaluates one form in the global scope. -/
def evalForm (ev : Evaluator) (form : Value) (m : Machine) : Except Failure Value × Machine :=
  match ev form globalScope m with
  | .ok value m => (.ok value, m)
  | .error failure m => (.error (.evaluation failure), m)

/-- Evaluates the first form of a text and leaves the rest unread. -/
def evalFirst (ev : Evaluator) (text : String) (m : Machine) : Except Failure Value × Machine :=
  match readFirst text with
  | .ok (form, _) => evalForm ev form m
  | .error failure => (.error (.reading failure), m)

end Session

end PocketLisp
