import PocketLisp.Reader.Error
import PocketLisp.Value.Basic

/-!
# Atoms

An atom that is a decimal numeral in the range of fixed-width integers is that integer; `nil` is the
empty list; any other atom, a numeral out of the range among them, is the symbol of that name.
A numeral with more than `Text.digitLimit` digits is refused.
-/

namespace PocketLisp

/-- The value that an atom denotes. -/
def readAtom (text : String) : Except ReadFailure Value :=
  match Text.Numeral.ofChars? text.toList with
  | some numeral =>
    if Text.digitLimit < numeral.digits.length then
      .error (.numeralTooLong numeral.digits.length)
    else if InWord numeral.value then .ok (.int numeral.value)
    else .ok (.ofName text)
  | none => .ok (.ofName text)

end PocketLisp
