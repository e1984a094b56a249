import PocketLisp.Reader.Datum

/-!
# Token cursors

A cursor stands somewhere in the tokens of a text. Reading a datum moves it past the tokens that
were taken, also when the reading fails, so a client can go on from there. A datum takes at least
one token as long as tokens remain (`length_readDatum_lt`), so reading until the end terminates.
-/

namespace PocketLisp

/-- The tokens not yet taken, and the offset just past the last one that was. -/
structure Cursor where
  tokens : List Token
  position : Nat
  deriving Repr, DecidableEq

namespace Cursor

/-- The cursor at the start of a token list. -/
def start (tokens : List Token) : Cursor := ⟨tokens, 0⟩

/-- The cursor at the start of the tokens of a text. -/
def ofText (text : String) : Cursor := start (Token.lex text)

/-- The next token, which is not taken. -/
def peek (s : Cursor) : Option Token := s.tokens.head?

/-- Whether all tokens are taken. -/
def atEnd (s : Cursor) : Bool := s.tokens.isEmpty

/-- Takes the next token. -/
def advance (s : Cursor) : Except ReadFailure Token × Cursor :=
  match s.tokens with
  | [] => (.error (.malformed .endOfText), s)
  | token :: rest => (.ok token, ⟨rest, token.stop⟩)

/-- Takes tokens towards a goal, with the given constructions open, until the outermost datum is
complete or the reading fails. -/
def readTowards (goal : Reader.Goal) (frames : List Reader.Frame) (position : Nat) :
    List Token → Except ReadFailure Value × Cursor
  | [] => (.error (.malformed .endOfText), ⟨[], position⟩)
  | token :: rest =>
    match goal.accept token.lexeme frames with
    | .more goal frames => readTowards goal frames token.stop rest
    | .complete datum => (.ok datum, ⟨rest, token.stop⟩)
    | .failed failure => (.error failure, ⟨rest, token.stop⟩)
    | .refused failure => (.error failure, ⟨token :: rest, position⟩)

/-- Reads one datum. -/
def readDatum (s : Cursor) : Except ReadFailure Value × Cursor :=
  readTowards .datum [] s.position s.tokens

/-- A token that is expected to start a datum is never left in place. -/
theorem acceptDatum_ne_refused (lexeme : Lexeme) (frames : List Reader.Frame)
    (failure : ReadFailure) : Reader.acceptDatum lexeme frames ≠ .refused failure := by
  have deliver_ne (datum : Value) (frames : List Reader.Frame) :
      Reader.deliver datum frames ≠ .refused failure := by
    induction frames generalizing datum with
    | nil => simp [Reader.deliver]
    | cons frame frames ih => cases frame <;> simp [Reader.deliver, ih]
  unfold Reader.acceptDatum
  split
  · simp
  · unfold Reader.acceptAtom
    split
    · exact deliver_ne _ _
    · simp
  · simp
  · simp
  · exact deliver_ne _ _
  · simp

/-- Reading never adds tokens. -/
theorem length_readTowards_le (goal : Reader.Goal) (frames : List Reader.Frame) (position : Nat)
    (tokens : List Token) :
    (readTowards goal frames position tokens).2.tokens.length ≤ tokens.length := by
  induction tokens generalizing goal frames position with
  | nil => simp [readTowards]
  | cons token rest ih =>
    rw [readTowards]
    split
    · exact Nat.le_succ_of_le (ih ..)
    all_goals simp

/-- A datum takes at least one token. -/
theorem length_readDatum_lt {s : Cursor} (h : s.atEnd = false) :
    s.readDatum.2.tokens.length < s.tokens.length := by
  obtain ⟨tokens, position⟩ := s
  cases tokens with
  | nil => simp [atEnd] at h
  | cons token rest =>
    simp only [readDatum, readTowards]
    split
    · exact Nat.lt_succ_of_le (length_readTowards_le ..)
    · simp
    · simp
    · next refusal => exact absurd refusal (acceptDatum_ne_refused _ _ _)

/-- Reads data until the tokens end or the first failure. The data read before are given
newest first. -/
def readAllAfter (found : List Value) (s : Cursor) :
    List Value × Option ReadFailure × Cursor :=
  if _remaining : s.atEnd then (found.reverse, none, s)
  else
    match _taken : s.readDatum with
    | (.ok datum, rest) => readAllAfter (datum :: found) rest
    | (.error failure, rest) => (found.reverse, some failure, rest)
termination_by s.tokens.length
decreasing_by
  have := length_readDatum_lt (by simpa using _remaining)
  rwa [_taken] at this

section ReadAllAfter

variable {s rest : Cursor} {found : List Value} {datum : Value} {failure : ReadFailure}

theorem readAllAfter_ended (ended : s.atEnd = true) :
    s.readAllAfter found = (found.reverse, none, s) := by
  rw [readAllAfter, dif_pos ended]

theorem readAllAfter_ok (pending : ¬ s.atEnd = true) (read : s.readDatum = (.ok datum, rest)) :
    s.readAllAfter found = rest.readAllAfter (datum :: found) := by
  rw [readAllAfter, dif_neg pending]
  split
  · next read' =>
    cases read.symm.trans read'
    rfl
  · next read' => cases read.symm.trans read'

theorem readAllAfter_error (pending : ¬ s.atEnd = true)
    (read : s.readDatum = (.error failure, rest)) :
    s.readAllAfter found = (found.reverse, some failure, rest) := by
  rw [readAllAfter, dif_neg pending]
  split
  · next read' => cases read.symm.trans read'
  · next read' =>
    cases read.symm.trans read'
    rfl

end ReadAllAfter

/-- Reads all data that are left: those before the first failure, and the failure if there is
one. -/
def readAll (s : Cursor) : List Value × Option ReadFailure × Cursor :=
  s.readAllAfter []

end Cursor

/-- The first datum of a text, and the offset just past it. -/
def readFirst (text : String) : Except ReadFailure (Value × Nat) :=
  let (result, rest) := (Cursor.ofText text).readDatum
  result.map (·, rest.position)

/-- The data of a text before the first failure, and the failure if there is one. -/
def readAll (text : String) : List Value × Option ReadFailure :=
  let (data, failure, _) := (Cursor.ofText text).readAll
  (data, failure)

end PocketLisp
