/-!
# Blank characters

Blanks separate atoms and are otherwise without meaning. They are the ASCII controls from tab to
carriage return, the four information separators, the space, and the spaces and line ends of the
rest of Unicode.
-/

namespace PocketLisp.Text

/-- A character that separates atoms. -/
def isBlank (c : Char) : Bool :=
  let code := c.toNat
  (0x9 ≤ code && code ≤ 0xd) || (0x1c ≤ code && code ≤ 0x20) || code == 0x85 || code == 0xa0 ||
    code == 0x1680 || (0x2000 ≤ code && code ≤ 0x200a) || code == 0x2028 || code == 0x2029 ||
    code == 0x202f || code == 0x205f || code == 0x3000

/-- The four information separators, which separate atoms but are not space around a numeral. -/
def isInformationSeparator (c : Char) : Bool :=
  0x1c ≤ c.toNat && c.toNat ≤ 0x1f

@[simp] theorem isBlank_newline : isBlank '\n' = true := by decide

@[simp] theorem isBlank_space : isBlank ' ' = true := by decide

end PocketLisp.Text
