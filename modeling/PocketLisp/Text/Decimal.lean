/-!
# Decimal numerals

The written form of an integer has a minus sign when the integer is negative, then its decimal
digits without leading zeros. A numeral that is read may also have a plus sign and leading zeros.
-/

namespace PocketLisp.Text

/-- The written form of an integer. -/
def decimal (n : Int) : List Char :=
  let digits := Nat.toDigits 10 n.natAbs
  if n < 0 then '-' :: digits else digits

/-- The number that a run of decimal digits denotes. -/
def digitsValue (digits : List Nat) : Nat :=
  digits.foldl (fun value digit => 10 * value + digit) 0

@[simp] theorem digitsValue_nil : digitsValue [] = 0 := rfl

/-- A digit at the end counts once, and all before it ten times. -/
theorem digitsValue_concat (digits : List Nat) (digit : Nat) :
    digitsValue (digits ++ [digit]) = 10 * digitsValue digits + digit := by
  simp [digitsValue]

/-- A sign and at least one digit. -/
structure Numeral where
  negative : Bool
  digits : List Nat
  deriving Repr, DecidableEq

namespace Numeral

/-- The integer that a numeral denotes. -/
def value (n : Numeral) : Int :=
  if n.negative then -(digitsValue n.digits : Int) else digitsValue n.digits

/-- Splits an optional sign from what follows it; the flag says that the sign is a minus. -/
def splitSign : List Char → Bool × List Char
  | '+' :: rest => (false, rest)
  | '-' :: rest => (true, rest)
  | chars => (false, chars)

end Numeral

/-- The value of an ASCII digit. -/
def asciiDigit? (c : Char) : Option Nat :=
  if c.isDigit then some (c.toNat - '0'.toNat) else none

/-- The numeral that the characters spell: an optional sign and one or more ASCII digits, with
nothing around them. -/
def Numeral.ofChars? (chars : List Char) : Option Numeral :=
  let (negative, rest) := splitSign chars
  match rest.mapM asciiDigit? with
  | some digits => if digits.isEmpty then none else some ⟨negative, digits⟩
  | none => none

/-- How many digits a numeral that is read may have. Beyond it the numeral is refused, whatever its
value: leading zeros count and the sign does not. -/
def digitLimit : Nat := 4300

end PocketLisp.Text
