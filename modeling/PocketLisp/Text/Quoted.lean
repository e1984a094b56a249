import PocketLisp.Text.Printable

/-!
# Quoted text

A quoted text shows every character of a string unambiguously. It stands between apostrophes, or
between double quotes when the string has an apostrophe and no double quote. A backslash and the
enclosing quote are written after a backslash; newline, carriage return and tab have letters; any
other character that is not printable is written by its code point in lower-case hexadecimal, in
the shortest of three widths that holds it.
-/

namespace PocketLisp.Text

/-- The lower-case hexadecimal digits of a number, at least `width` of them. -/
def hexDigits (width code : Nat) : List Char :=
  let digits := Nat.toDigits 16 code
  List.replicate (width - digits.length) '0' ++ digits

/-- The escape of a character by its code point. -/
def codeEscape (c : Char) : List Char :=
  let code := c.toNat
  if code < 0x100 then '\\' :: 'x' :: hexDigits 2 code
  else if code < 0x10000 then '\\' :: 'u' :: hexDigits 4 code
  else '\\' :: 'U' :: hexDigits 8 code

/-- How one character is written between the given quotes. -/
def quotedChar (quote c : Char) : List Char :=
  if c == '\\' || c == quote then ['\\', c]
  else if c == '\n' then ['\\', 'n']
  else if c == '\r' then ['\\', 'r']
  else if c == '\t' then ['\\', 't']
  else if isPrintable c then [c]
  else codeEscape c

/-- The quote that encloses a string. -/
def enclosingQuote (chars : List Char) : Char :=
  if chars.contains '\'' && !chars.contains '"' then '"' else '\''

/-- The quoted form of a string. -/
def quoted (text : String) : String :=
  let chars := text.toList
  let quote := enclosingQuote chars
  String.ofList (quote :: chars.flatMap (quotedChar quote) ++ [quote])

end PocketLisp.Text
