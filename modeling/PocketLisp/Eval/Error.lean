import PocketLisp.Reader.Error
import PocketLisp.Value.Equal
import PocketLisp.Value.Printer

/-!
# Why evaluation fails

A variable may be unbound, a value may be of the wrong kind, and a procedure or a special form may
get the wrong number of arguments. `LispError` joins these causes with the faults of a text; errors
compare by their cause and its parts.
-/

namespace PocketLisp

/-- The kinds of value that a form or a procedure may ask for. -/
inductive Kind where
  | number
  | function
  | cons
  | symbol
  | list
  deriving Repr, DecidableEq, Inhabited

/-- How a kind is named in messages. -/
def Kind.name : Kind → String
  | number => "Number"
  | function => "Function"
  | cons => "Cons"
  | symbol => "Symbol"
  | list => "List"

/-- A failure to evaluate. An unbound variable is known by the printed form of its name. -/
inductive EvalError where
  | unbound (name : String)
  | mismatch (value : Value) (expected : Kind)
  | wrongCount (actual expected : Nat)
  | tooFew (actual minimum : Nat)
  | tooMany (actual maximum : Nat)
  deriving Repr, DecidableEq

namespace EvalError

/-- The explanation of a failure to evaluate. -/
def message : EvalError → String
  | unbound name => "Unbound variable: " ++ name
  | mismatch value expected =>
    "The value " ++ value.print ++ " is not of type " ++ expected.name
  | wrongCount actual expected =>
    "Wrong number of arguments: expected = " ++ toString expected ++ ", actual = " ++
      toString actual
  | tooFew actual minimum =>
    "Too few arguments (" ++ toString actual ++ " arguments provided, at least " ++
      toString minimum ++ " required)"
  | tooMany actual maximum =>
    "Too many arguments (" ++ toString actual ++ " arguments provided, at most " ++
      toString maximum ++ " required)"

/-- Whether two failures have the same cause and equal parts. -/
def same : EvalError → EvalError → Bool
  | unbound x, unbound y => x == y
  | mismatch v kind, mismatch w kind' => v.equal w && kind == kind'
  | wrongCount a e, wrongCount a' e' => a == a' && e == e'
  | tooFew a m, tooFew a' m' => a == a' && m == m'
  | tooMany a m, tooMany a' m' => a == a' && m == m'
  | _, _ => false

@[simp] theorem same_refl (e : EvalError) : e.same e = true := by
  cases e <;> simp [same]

end EvalError

/-- The families of errors, of which an error may name only the family. -/
inductive ErrorFamily where
  | any
  | evaluation
  | reading
  deriving Repr, DecidableEq

/-- An error of the language: a fault of a text, a failure to evaluate, or no more than a family of
them. -/
inductive LispError where
  | reading (error : ReadError)
  | evaluation (error : EvalError)
  | unspecific (family : ErrorFamily)
  deriving Repr, DecidableEq

namespace LispError

/-- The explanation of an error. A bare family explains nothing. -/
def message : LispError → String
  | reading error => error.message
  | evaluation error => error.message
  | unspecific _ => ""

/-- Whether two errors have the same cause and equal parts. -/
def same : LispError → LispError → Bool
  | reading e, reading e' => e == e'
  | evaluation e, evaluation e' => e.same e'
  | unspecific f, unspecific f' => f == f'
  | _, _ => false

@[simp] theorem same_refl (e : LispError) : e.same e = true := by
  cases e <;> simp [same]

end LispError

end PocketLisp
