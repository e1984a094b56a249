/-!
# Lines

A text is the sequence of its lines. A line ends at a newline, which belongs to it; only the last
line may lack one.
-/

namespace PocketLisp.Text

/-- The lines of the remaining characters, after the characters of the current line, which are given
newest first. -/
def linesAfter (current : List Char) : List Char → List (List Char)
  | [] => if current.isEmpty then [] else [current.reverse]
  | c :: rest =>
    if c = '\n' then (c :: current).reverse :: linesAfter [] rest
    else linesAfter (c :: current) rest

/-- The lines hold every character of the text, in order. -/
theorem flatten_linesAfter (current chars : List Char) :
    (linesAfter current chars).flatten = current.reverse ++ chars := by
  induction chars generalizing current with
  | nil => cases current <;> simp [linesAfter]
  | cons c rest ih => by_cases h : c = '\n' <;> simp [linesAfter, h, ih]

/-- The lines of a text. -/
def lines (text : String) : List String :=
  (linesAfter [] text.toList).map String.ofList

end PocketLisp.Text
