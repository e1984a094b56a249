import PocketLisp.Reader.Atom
import PocketLisp.Reader.Token

/-!
# Reading one datum

A datum is an atom, a quote mark followed by a datum, or a list in parentheses. In a list that has
an item already, the atom `.` says that the next datum is the tail; the list must be closed right
after it.

The reader keeps what is open in a stack of frames, innermost first, and takes one token at a time.
A token either completes the whole datum, or leaves the reader waiting for more, or fails. The
token that a failure rests on is taken, except the one that stands where a dotted list must close.
-/

namespace PocketLisp.Reader

/-- A construct that is open and waits for a datum. The items of a list are held newest first. -/
inductive Frame where
  | quote
  | list (items : List Value)
  | dotted (items : List Value)
  deriving Repr, DecidableEq

/-- What the next token must do: start a datum, or close the list of these items and this tail. -/
inductive Goal where
  | datum
  | close (items : List Value) (tail : Value)
  deriving Repr, DecidableEq

/-- What becomes of the reader when it takes a token. -/
inductive Step where
  | more (goal : Goal) (frames : List Frame)
  | complete (datum : Value)
  | failed (failure : ReadFailure)
  | refused (failure : ReadFailure)
  deriving Repr, DecidableEq

/-- Hands a finished datum to the innermost frame. Quotes are completed by it on the spot. -/
def deliver (datum : Value) : List Frame → Step
  | [] => .complete datum
  | .quote :: frames => deliver datum.quote frames
  | .list items :: frames => .more .datum (.list (datum :: items) :: frames)
  | .dotted items :: frames => .more (.close items datum) frames

/-- The value of a list whose items are given newest first. -/
def listOf (items : List Value) (tail : Value) : Value :=
  Value.ofList items.reverse tail

/-- Takes an atom where a datum is expected. -/
def acceptAtom (text : String) (frames : List Frame) : Step :=
  match readAtom text with
  | .ok datum => deliver datum frames
  | .error failure => .failed failure

/-- Takes a token where a datum is expected. -/
def acceptDatum (lexeme : Lexeme) (frames : List Frame) : Step :=
  match lexeme, frames with
  | .atom ".", .list (item :: items) :: frames => .more .datum (.dotted (item :: items) :: frames)
  | .atom text, frames => acceptAtom text frames
  | .quote, frames => .more .datum (.quote :: frames)
  | .opening, frames => .more .datum (.list [] :: frames)
  | .closing, .list items :: frames => deliver (listOf items .nil) frames
  | .closing, _ => .failed (.malformed .unmatchedClose)

/-- Takes a token where a dotted list must close. -/
def acceptClose (lexeme : Lexeme) (items : List Value) (tail : Value) (frames : List Frame) :
    Step :=
  match lexeme with
  | .closing => deliver (listOf items tail) frames
  | other => .refused (.malformed (.unexpected (other.text.take 1).toString ")"))

/-- Takes a token. -/
def Goal.accept (goal : Goal) (lexeme : Lexeme) (frames : List Frame) : Step :=
  match goal with
  | .datum => acceptDatum lexeme frames
  | .close items tail => acceptClose lexeme items tail frames

end PocketLisp.Reader
