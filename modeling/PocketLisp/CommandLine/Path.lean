/-!
# Paths

A path is a sequence of names, absolute or not. Empty names and single dots are left out, so that
`d//a` and `./d/a` are the same path; two dots stay, since what they lead to is not in the text.
-/

namespace PocketLisp.CommandLine

/-- A path in its simplest form: how many slashes it begins with, and its names. -/
structure Path where
  slashes : Nat
  names : List String
  deriving Repr, DecidableEq

namespace Path

/-- The pieces between slashes. -/
def pieces (chars : List Char) : List (List Char) :=
  chars.splitOn '/'

/-- The slashes that stay at the beginning: exactly two are kept, any other number is one. -/
def leadingSlashes (chars : List Char) : Nat :=
  match (chars.takeWhile (· == '/')).length with
  | 0 => 0
  | 2 => 2
  | _ => 1

/-- Reads a path. -/
def ofText (text : String) : Path :=
  { slashes := leadingSlashes text.toList
    names := ((pieces text.toList).filter fun piece => !piece.isEmpty && piece != ['.']).map
      String.ofList }

/-- How a path is shown. The path without names is the dot. -/
def text (p : Path) : String :=
  if p.slashes == 0 && p.names.isEmpty then "."
  else String.ofList (List.replicate p.slashes '/') ++ String.intercalate "/" p.names

end Path

end PocketLisp.CommandLine
