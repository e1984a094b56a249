import PocketLisp.Text.Blank
import PocketLisp.Text.Decimal
import PocketLisp.Text.DecimalDigit

/-!
# Settings

Two variables set the prompt and the depth limit. A variable that is missing or empty leaves the
default, and so does a limit that is not a positive integer.

The limit may be written with decimal digits of any script, with a sign, with single underscores
between digits, and with space around it.
-/

namespace PocketLisp

/-- The prompt of the loop, and how deep forms may be nested. -/
structure Settings where
  prompt : String := "LISP> "
  depthLimit : Nat := 10000
  deriving Repr, DecidableEq

namespace Settings

/-- The name of the variable that sets the prompt. -/
def promptVariable : String := "MINILISP_PROMPT"

/-- The name of the variable that sets the limit. -/
def limitVariable : String := "MINILISP_RECURSION_LIMIT"

/-- Space around a numeral. -/
def isPadding (c : Char) : Bool :=
  Text.isBlank c && !Text.isInformationSeparator c

/-- Removes the space around a numeral. -/
def trim (chars : List Char) : List Char :=
  ((chars.dropWhile isPadding).reverse.dropWhile isPadding).reverse

/-- The digits of the remaining characters, after a digit. -/
def moreDigits? : List Char → Option (List Nat)
  | [] => some []
  | '_' :: c :: rest => do
    let digit ← Text.digitValue? c
    let digits ← moreDigits? rest
    pure (digit :: digits)
  | c :: rest => do
    let digit ← Text.digitValue? c
    let digits ← moreDigits? rest
    pure (digit :: digits)

/-- The digits of a numeral: at least one, and single underscores only between two of them. -/
def digits? : List Char → Option (List Nat)
  | [] => none
  | c :: rest => do
    let digit ← Text.digitValue? c
    let digits ← moreDigits? rest
    pure (digit :: digits)

/-- The integer that a setting spells. -/
def integer? (text : String) : Option Int :=
  let (negative, rest) := Text.Numeral.splitSign (trim text.toList)
  match digits? rest with
  | some digits =>
    if Text.digitLimit < digits.length then none
    else some (Text.Numeral.value ⟨negative, digits⟩)
  | none => none

/-- What a variable sets, if it is present and not empty. -/
def given? (setting? : Option String) : Option String :=
  setting?.filter fun text => !text.isEmpty

/-- The limit that a variable sets, if it spells a positive integer. -/
def limit? (setting? : Option String) : Option Nat :=
  match (given? setting?).bind integer? with
  | some n => if 0 < n then some n.toNat else none
  | none => none

/-- The settings for the given values of the two variables. -/
def ofVariables (prompt? limitText? : Option String) : Settings :=
  let default : Settings := {}
  { prompt := (given? prompt?).getD default.prompt
    depthLimit := (limit? limitText?).getD default.depthLimit }

end Settings

end PocketLisp
