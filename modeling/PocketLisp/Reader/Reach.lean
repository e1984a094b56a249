import PocketLisp.Reader.Cursor

/-!
# Reading within a limit

The reader keeps a construct open while it reads the data inside it, and the host may have room for
only so many. The tokens are then taken up to the one that would open another one, and the data that
were complete before it are read (`readAllWithin`). Which data these are, and whether the text has a
fault before, does not depend on the limit otherwise.
-/

namespace PocketLisp

/-- Why no more data are read from a text: the reader fails, or the host has no room for the
constructs that are open. -/
inductive Halt where
  | failed (failure : ReadFailure)
  | tooDeep
  deriving Repr, DecidableEq

namespace Reader

/-- How many of the lexemes come before the one that would leave more than `limit` constructs open.
None of those behind a fault does. -/
def reach (limit : Nat) (goal : Goal) (frames : List Frame) : List Lexeme → Nat
  | [] => 0
  | lexeme :: rest =>
    match goal.accept lexeme frames with
    | .more goal frames =>
      if frames.length ≤ limit then reach limit goal frames rest + 1 else 0
    | .complete _ => reach limit .datum [] rest + 1
    | .failed _ | .refused _ => rest.length + 1

end Reader

/-- The cursor over the tokens that can be taken with no more than `limit` constructs open, and
whether there are others. -/
def Cursor.within (limit : Nat) (c : Cursor) : Cursor × Bool :=
  let n := Reader.reach limit .datum [] (c.tokens.map Token.lexeme)
  ({ c with tokens := c.tokens.take n }, n < c.tokens.length)

/-- The data of a text that are read with no more than `limit` constructs open, and why they end if
not with the text. -/
def readAllWithin (limit : Nat) (text : String) : List Value × Option Halt :=
  let (c, cut) := (Cursor.ofText text).within limit
  let (data, failure, _) := c.readAll
  (data, if cut then some .tooDeep else failure.map .failed)

end PocketLisp
