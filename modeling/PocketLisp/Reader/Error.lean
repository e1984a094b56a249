import PocketLisp.Text.Decimal
import PocketLisp.Text.Quoted

/-!
# Why reading fails

A text is malformed when it ends inside a datum, closes a list that is not open, or continues a
dotted list after its tail. Apart from these, a numeral may have more digits than are converted;
that is a limit of the reader and not a fault of the text's structure.
-/

namespace PocketLisp

/-- A fault of the text. -/
inductive ReadError where
  | endOfText
  | unmatchedClose
  | unexpected (actual expected : String)
  deriving Repr, DecidableEq

/-- The explanation of a fault. -/
def ReadError.message : ReadError → String
  | endOfText => "End of file"
  | unmatchedClose => "Unmatched closed parenthesis"
  | unexpected actual expected =>
    "Expecting character " ++ Text.quoted expected ++ ", but it's character " ++
      Text.quoted actual

/-- Why no datum was read. -/
inductive ReadFailure where
  | malformed (error : ReadError)
  | numeralTooLong (digits : Nat)
  deriving Repr, DecidableEq

/-- The explanation of a refused numeral. -/
def numeralTooLongMessage (digits : Nat) : String :=
  "Exceeds the limit (" ++ toString Text.digitLimit ++
    " digits) for integer string conversion: value has " ++ toString digits ++
    " digits; use sys.set_int_max_str_digits() to increase the limit"

/-- The explanation of a failure to read. -/
def ReadFailure.message : ReadFailure → String
  | malformed error => error.message
  | numeralTooLong digits => numeralTooLongMessage digits

end PocketLisp
