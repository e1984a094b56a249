import PocketLisp.Reader.Cursor

/-!
# Token streams

A stream asks its source for a token only when the token is needed, and looks at most one token
ahead. A token that was looked at waits in the buffer until it is taken, so looking at it again asks
for nothing. Since looking may fill the buffer, every operation hands on the stream.

A datum is read token by token: each token is looked at first, and taken unless it is refused. The
operations of a stream can be requested one after another, also after a failed one
(`TokenStream.run`).
-/

namespace PocketLisp

/-- The tokens that were not asked for yet, the token that was looked at and is not taken, and the
offset just past the last token that was taken. -/
structure TokenStream where
  source : List Token
  buffer : Option Token := none
  position : Nat := 0
  deriving Repr, DecidableEq

namespace TokenStream

/-- The stream of the tokens of a text. -/
def ofText (text : String) : TokenStream := { source := Token.lex text }

/-- Where the stream stands in its tokens, however many of them it asked for. -/
def cursor (s : TokenStream) : Cursor := ⟨s.buffer.toList ++ s.source, s.position⟩

/-- Looks at the next token. -/
def peek (s : TokenStream) : Option Token × TokenStream :=
  match s.buffer with
  | some token => (some token, s)
  | none =>
    match s.source with
    | [] => (none, s)
    | token :: rest => (some token, { s with source := rest, buffer := some token })

/-- Takes the next token. -/
def advance (s : TokenStream) : Except ReadFailure Token × TokenStream :=
  match s.peek with
  | (none, s) => (.error (.malformed .endOfText), s)
  | (some token, s) => (.ok token, { s with buffer := none, position := token.stop })

/-- Whether all tokens are taken. -/
def atEnd (s : TokenStream) : Bool × TokenStream :=
  let (next, s) := s.peek
  (next.isNone, s)

/-- To look at a token leaves the stream where it stands. -/
theorem peek_cursor (s : TokenStream) :
    s.peek.1 = s.cursor.peek ∧ s.peek.2.cursor = s.cursor := by
  obtain ⟨source, buffer, position⟩ := s
  cases buffer with
  | some token => exact ⟨rfl, rfl⟩
  | none => cases source <;> exact ⟨rfl, rfl⟩

theorem atEnd_cursor (s : TokenStream) :
    s.atEnd.1 = s.cursor.atEnd ∧ s.atEnd.2.cursor = s.cursor := by
  obtain ⟨source, buffer, position⟩ := s
  cases buffer with
  | some token => exact ⟨rfl, rfl⟩
  | none => cases source <;> exact ⟨rfl, rfl⟩

/-- A token is taken from where the stream stands. -/
theorem advance_cursor (s : TokenStream) :
    s.advance.1 = s.cursor.advance.1 ∧ s.advance.2.cursor = s.cursor.advance.2 := by
  obtain ⟨source, buffer, position⟩ := s
  cases buffer with
  | some token => exact ⟨rfl, rfl⟩
  | none => cases source <;> exact ⟨rfl, rfl⟩

/-- The token that was looked at is the one that is taken. -/
theorem cursor_of_peek {s looked : TokenStream} {token : Token}
    (next : s.peek = (some token, looked)) :
    ∃ rest, s.cursor = ⟨token :: rest, s.position⟩ ∧ looked.cursor = s.cursor ∧
      looked.advance.2.cursor = ⟨rest, token.stop⟩ := by
  obtain ⟨first, same⟩ := next ▸ s.peek_cursor
  obtain ⟨rest, tokens⟩ := List.head?_eq_some_iff.mp (Eq.symm first)
  have here : s.cursor = ⟨token :: rest, s.position⟩ := by rw [← tokens]; rfl
  exact ⟨rest, here, same, by rw [looked.advance_cursor.2, same, here, Cursor.advance]⟩

/-- Where nothing can be looked at, all tokens are taken. -/
theorem cursor_of_peek_none {s looked : TokenStream} (next : s.peek = (none, looked)) :
    s.cursor = ⟨[], s.position⟩ ∧ looked.cursor = s.cursor := by
  obtain ⟨first, same⟩ := next ▸ s.peek_cursor
  have tokens : s.cursor.tokens = [] := List.head?_eq_none_iff.mp (Eq.symm first)
  exact ⟨by rw [← tokens]; rfl, same⟩

/-- Takes tokens towards a goal, with the given constructions open, until the outermost datum is
complete or the reading fails. -/
def readTowards (goal : Reader.Goal) (frames : List Reader.Frame) (s : TokenStream) :
    Except ReadFailure Value × TokenStream :=
  match _looked : s.peek with
  | (none, s) => (.error (.malformed .endOfText), s)
  | (some token, s) =>
    match goal.accept token.lexeme frames with
    | .more goal frames => readTowards goal frames s.advance.2
    | .complete datum => (.ok datum, s.advance.2)
    | .failed failure => (.error failure, s.advance.2)
    | .refused failure => (.error failure, s)
termination_by s.cursor.tokens.length
decreasing_by
  obtain ⟨rest, here, -, behind⟩ := cursor_of_peek _looked
  rw [here, behind]
  exact Nat.lt_succ_self _

/-- Reads one datum. -/
def readDatum (s : TokenStream) : Except ReadFailure Value × TokenStream :=
  s.readTowards .datum []

/-- The tokens are read that stand there, one after the other. -/
theorem readTowards_cursor (goal : Reader.Goal) (frames : List Reader.Frame) {s : TokenStream}
    {tokens : List Token} {position : Nat} (here : s.cursor = ⟨tokens, position⟩) :
    (s.readTowards goal frames).map id cursor =
      Cursor.readTowards goal frames position tokens := by
  induction tokens generalizing goal frames position s with
  | nil =>
      rw [readTowards]
      split
      · next looked next =>
        rw [Cursor.readTowards, ← here, ← (cursor_of_peek_none next).2]
        rfl
      · next token looked next =>
        obtain ⟨rest, there, -⟩ := cursor_of_peek next
        cases here.symm.trans there
  | cons token rest ih =>
      rw [readTowards]
      split
      · next looked next =>
        cases here.symm.trans (cursor_of_peek_none next).1
      · next token' looked next =>
        obtain ⟨rest', there, same, behind⟩ := cursor_of_peek next
        cases here.symm.trans there
        rw [Cursor.readTowards]
        cases goal.accept token.lexeme frames with
        | more goal frames => exact ih goal frames behind
        | complete datum => exact congrArg (Prod.mk _) behind
        | failed failure => exact congrArg (Prod.mk _) behind
        | refused failure => exact congrArg (Prod.mk _) (same.trans here)

theorem readDatum_cursor (s : TokenStream) :
    s.readDatum.1 = s.cursor.readDatum.1 ∧ s.readDatum.2.cursor = s.cursor.readDatum.2 :=
  Prod.ext_iff.mp (readTowards_cursor .datum [] rfl)

/-- Where tokens are left, a datum takes at least one. -/
theorem length_readDatum_lt {s looked : TokenStream} (pending : s.atEnd = (false, looked)) :
    looked.readDatum.2.cursor.tokens.length < s.cursor.tokens.length := by
  obtain ⟨ended, same⟩ := pending ▸ s.atEnd_cursor
  have here : looked.cursor.atEnd = false := same ▸ Eq.symm ended
  rw [looked.readDatum_cursor.2, ← same]
  exact Cursor.length_readDatum_lt here

/-- Reads data until the tokens end or the first failure. The data read before are given
newest first. -/
def readAllAfter (found : List Value) (s : TokenStream) :
    List Value × Option ReadFailure × TokenStream :=
  match _pending : s.atEnd with
  | (true, s) => (found.reverse, none, s)
  | (false, looked) =>
    match _taken : looked.readDatum with
    | (.ok datum, rest) => readAllAfter (datum :: found) rest
    | (.error failure, rest) => (found.reverse, some failure, rest)
termination_by s.cursor.tokens.length
decreasing_by
  have := length_readDatum_lt _pending
  rwa [_taken] at this

/-- Reads all data that are left: those before the first failure, and the failure if there is
one. -/
def readAll (s : TokenStream) : List Value × Option ReadFailure × TokenStream :=
  s.readAllAfter []

/-- What can be requested of a stream. -/
inductive Operation where
  | peek
  | advance
  | atEnd
  | readDatum
  | readAll
  deriving Repr, DecidableEq

/-- What a request is answered with. -/
inductive Reply where
  | next (token : Option Token)
  | taken (result : Except ReadFailure Token)
  | ended (answer : Bool)
  | datum (result : Except ReadFailure Value)
  | data (found : List Value) (failure : Option ReadFailure)
  deriving Repr

/-- Does what is requested. -/
def perform (operation : Operation) (s : TokenStream) : Reply × TokenStream :=
  match operation with
  | .peek => s.peek.map .next id
  | .advance => s.advance.map .taken id
  | .atEnd => s.atEnd.map .ended id
  | .readDatum => s.readDatum.map .datum id
  | .readAll =>
    let (found, failure, s) := s.readAll
    (.data found failure, s)

/-- Does what is requested, one request after the other. Each reply is given with the position
after it. -/
def run : List Operation → TokenStream → List (Reply × Nat) × TokenStream
  | [], s => ([], s)
  | operation :: operations, s =>
    let done := s.perform operation
    let others := run operations done.2
    ((done.1, done.2.position) :: others.1, others.2)

end TokenStream

end PocketLisp
