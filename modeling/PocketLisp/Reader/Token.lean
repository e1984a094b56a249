import PocketLisp.Text.Blank

/-!
# Tokens

A text is a sequence of parentheses, quote marks and atoms, with blanks between them. An atom is a
longest run of other characters. Each token remembers the offset just past it, counted in
characters from the start of the text.

`lex` reads the characters once from left to right and holds the characters of the atom that is
still open, newest first.
-/

namespace PocketLisp

/-- What a token is, with the text of an atom. -/
inductive Lexeme where
  | opening
  | closing
  | quote
  | atom (text : String)
  deriving Repr, DecidableEq

namespace Lexeme

/-- The lexeme that a single character spells, whatever stands around it. -/
def ofChar? : Char → Option Lexeme
  | '(' => some opening
  | ')' => some closing
  | '\'' => some quote
  | _ => none

/-- How a lexeme is spelled. -/
def text : Lexeme → String
  | opening => "("
  | closing => ")"
  | quote => "'"
  | atom text => text

end Lexeme

/-- A lexeme and the offset just past it. -/
structure Token where
  lexeme : Lexeme
  stop : Nat
  deriving Repr, DecidableEq

namespace Token

/-- Ends the open atom, whose characters are given newest first, in front of `offset`. The tokens
that were found before it are given and returned newest first. -/
def endAtom (openAtom : List Char) (offset : Nat) (found : List Token) : List Token :=
  match openAtom with
  | [] => found
  | _ :: _ => ⟨.atom (String.ofList openAtom.reverse), offset⟩ :: found

/-- The tokens of the remaining characters, the first of which stands at `offset`, after the open
atom and the tokens found so far. -/
def scan (offset : Nat) (openAtom : List Char) (found : List Token) : List Char → List Token
  | [] => (endAtom openAtom offset found).reverse
  | c :: rest =>
    if Text.isBlank c then
      scan (offset + 1) [] (endAtom openAtom offset found) rest
    else
      match Lexeme.ofChar? c with
      | some lexeme =>
        scan (offset + 1) [] (⟨lexeme, offset + 1⟩ :: endAtom openAtom offset found) rest
      | none => scan (offset + 1) (c :: openAtom) found rest

/-- The tokens found before the scan are a part of its result that the rest of the text leaves
alone. -/
theorem scan_eq_append (chars : List Char) (offset : Nat) (openAtom : List Char)
    (found : List Token) :
    scan offset openAtom found chars = found.reverse ++ scan offset openAtom [] chars := by
  have endAtom_eq (offset : Nat) (openAtom : List Char) (found : List Token) :
      endAtom openAtom offset found = endAtom openAtom offset [] ++ found := by
    cases openAtom <;> rfl
  induction chars generalizing offset openAtom found with
  | nil => rw [scan, scan, endAtom_eq]; simp
  | cons c rest ih =>
    rw [scan, scan]
    split
    · rw [ih, endAtom_eq, ih _ _ (endAtom openAtom offset [])]
      simp
    · split
      · rw [ih, endAtom_eq, ih _ _ (_ :: endAtom openAtom offset [])]
        simp
      · exact ih ..

/-- The tokens of the characters from the given offset on. An offset past the end stands for the
end. -/
def lexFrom (start : Nat) (chars : List Char) : List Token :=
  scan start [] [] (chars.drop start)

/-- The tokens of a text. -/
def lex (text : String) : List Token :=
  lexFrom 0 text.toList

end Token

end PocketLisp
