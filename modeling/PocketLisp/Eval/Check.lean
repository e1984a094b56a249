import PocketLisp.Eval.Error

/-!
# Checks of arguments

The checks that procedures and special forms share: how many arguments there are, and whether the
values that should be names are symbols. Arguments are taken only when their number is right.
-/

namespace PocketLisp

/-- Demands an exact number of arguments. -/
def checkCount (actual expected : Nat) : Except EvalError Unit :=
  if actual = expected then .ok () else .error (.wrongCount actual expected)

/-- Demands a number of arguments from a range, which may have no upper end. -/
def checkRange (actual minimum : Nat) (maximum : Option Nat) : Except EvalError Unit :=
  if actual < minimum then .error (.tooFew actual minimum)
  else
    match maximum with
    | some maximum => if maximum < actual then .error (.tooMany actual maximum) else .ok ()
    | none => .ok ()

/-- The argument of an operation or a form that takes one. -/
def oneArgument (args : List Value) : Except EvalError Value := do
  checkCount args.length 1
  pure (args.getD 0 .nil)

/-- The arguments of an operation or a form that takes two. -/
def twoArguments (args : List Value) : Except EvalError (Value × Value) := do
  checkCount args.length 2
  pure (args.getD 0 .nil, args.getD 1 .nil)

theorem checkCount_of_ne {actual expected : Nat} (count : actual ≠ expected) :
    checkCount actual expected = .error (.wrongCount actual expected) :=
  if_neg count

theorem oneArgument_of_ne {args : List Value} (count : args.length ≠ 1) :
    oneArgument args = .error (.wrongCount args.length 1) := by
  rw [oneArgument, checkCount_of_ne count]
  rfl

theorem twoArguments_of_ne {args : List Value} (count : args.length ≠ 2) :
    twoArguments args = .error (.wrongCount args.length 2) := by
  rw [twoArguments, checkCount_of_ne count]
  rfl

/-- The name of a symbol. -/
def symbolName : Value → Except EvalError String
  | .symbol name => .ok name
  | other => .error (.mismatch other .symbol)

/-- The names of symbols, or the error of the first value that is none. -/
def symbolNames (values : List Value) : Except EvalError (List String) :=
  values.mapM symbolName

end PocketLisp
