import PocketLisp.Proofs.Reader.Grammar
import PocketLisp.Proofs.Reader.Layout
import PocketLisp.Reader.Stream

/-!
# Token streams refine cursors

A stream that looks ahead and a cursor that has all tokens at hand answer the same requests alike:
one request is answered from where the stream stands and moves it as it moves the cursor
(`TokenStream.perform_cursor`), so this holds of any number of requests. What is buffered is
therefore never seen.

What a request is answered with is determined by the tokens that it takes and those that it leaves
(`Cursor.Answers`). A sequence of requests takes the tokens of a text from the front, each once,
and stands behind the last that was taken (`Cursor.Follows`); also a datum that is not read takes
tokens, so reading again and again ends.
-/

namespace PocketLisp

open TokenStream (Operation Reply)

/-- The offset just past the last of the tokens, or the given one if there are none. -/
def reached (position : Nat) (taken : List Token) : Nat :=
  (taken.getLast?.map Token.stop).getD position

@[simp] theorem reached_nil (position : Nat) : reached position [] = position := rfl

@[simp] theorem reached_concat (position : Nat) (taken : List Token) (token : Token) :
    reached position (taken ++ [token]) = token.stop := by
  simp [reached]

@[simp] theorem reached_append (position : Nat) (taken more : List Token) :
    reached position (taken ++ more) = reached (reached position taken) more := by
  obtain rfl | ⟨before, last, rfl⟩ := List.eq_nil_or_concat' more
  · simp
  · rw [← List.append_assoc, reached_concat, reached_concat]

@[simp] theorem reached_cons (position : Nat) (token : Token) (more : List Token) :
    reached position (token :: more) = reached token.stop more :=
  reached_append position [token] more

namespace Cursor

/-- Does what is requested. -/
def perform (operation : Operation) (s : Cursor) : Reply × Cursor :=
  match operation with
  | .peek => (.next s.peek, s)
  | .advance => s.advance.map .taken id
  | .atEnd => (.ended s.atEnd, s)
  | .readDatum => s.readDatum.map .datum id
  | .readAll => (.data s.readAll.1 s.readAll.2.1, s.readAll.2.2)

/-- Does what is requested, one request after the other. -/
def run : List Operation → Cursor → List (Reply × Nat) × Cursor
  | [], s => ([], s)
  | operation :: operations, s =>
    let done := s.perform operation
    let others := run operations done.2
    ((done.1, done.2.position) :: others.1, others.2)

/-- What reading a datum gives where the tokens `taken`, which it takes, are in front of the tokens
`left`: the datum that the former denote, or a fault that shows between them and the latter. -/
inductive Found : Except ReadFailure Value → (taken left : List Token) → Prop where
  | datum {v taken left} (denotes : Denotes (taken.map Token.lexeme) v) : Found (.ok v) taken left
  | fault {error taken left} (fault : Fault error taken left) :
      Found (.error (.malformed error)) taken left

/-- The data that are found one after the other, until the end or the first fault. -/
inductive FoundAll : List Value → Option ReadFailure → (taken left : List Token) → Prop where
  | ended : FoundAll [] none [] []
  | datum {v data failure first taken left} (denotes : Denotes (first.map Token.lexeme) v)
      (others : FoundAll data failure taken left) :
      FoundAll (v :: data) failure (first ++ taken) left
  | fault {error taken left} (present : taken ≠ []) (fault : Fault error taken left) :
      FoundAll [] (some (.malformed error)) taken left

/-- What a request is answered with where the tokens `taken`, which it takes, are in front of the
tokens `left`. -/
inductive Answers : Operation → Reply → (taken left : List Token) → Prop where
  | peek {left} : Answers .peek (.next left.head?) [] left
  | atEnd {left} : Answers .atEnd (.ended left.isEmpty) [] left
  | advance {token left} : Answers .advance (.taken (.ok token)) [token] left
  | exhausted : Answers .advance (.taken (.error (.malformed .endOfText))) [] []
  | readDatum {result taken left} (present : taken ++ left ≠ [] → taken ≠ [])
      (found : Found result taken left) : Answers .readDatum (.datum result) taken left
  | readAll {data failure taken left} (found : FoundAll data failure taken left) :
      Answers .readAll (.data data failure) taken left

/-- The requests are answered, one after the other, from the tokens `taken ++ left`, of which they
take the former, each token once and in order; the position is behind the last that is taken and
never moves back. -/
inductive Follows : (position : Nat) → List Operation → List (Reply × Nat) →
    (taken left : List Token) → Prop where
  | nil {position left} : Follows position [] [] [] left
  | cons {position operation operations reply replies more taken left}
      (answers : Answers operation reply more (taken ++ left))
      (forward : position ≤ reached position more)
      (others : Follows (reached position more) operations replies taken left) :
      Follows position (operation :: operations) ((reply, reached position more) :: replies)
        (more ++ taken) left

/-- The cursor takes these tokens on its way. -/
structure Moves (s : Cursor) (taken : List Token) (s' : Cursor) : Prop where
  tokens : s.tokens = taken ++ s'.tokens
  position : s'.position = reached s.position taken

theorem Moves.refl (s : Cursor) : s.Moves [] s := ⟨rfl, rfl⟩

theorem Moves.trans {s s' s'' : Cursor} {taken more : List Token} (first : s.Moves taken s')
    (second : s'.Moves more s'') : s.Moves (taken ++ more) s'' :=
  ⟨by rw [first.tokens, second.tokens, List.append_assoc],
    by rw [second.position, first.position, reached_append]⟩

theorem Moves.head (token : Token) (rest : List Token) (position : Nat) :
    Moves ⟨token :: rest, position⟩ [token] ⟨rest, token.stop⟩ :=
  ⟨rfl, rfl⟩

open Reader

/-- Whatever comes of it, reading takes tokens from the front. -/
theorem moves_readTowards (goal : Goal) (frames : List Frame) (position : Nat)
    (tokens : List Token) :
    ∃ taken, Moves ⟨tokens, position⟩ taken (readTowards goal frames position tokens).2 := by
  induction tokens generalizing goal frames position with
  | nil => exact ⟨[], .refl _⟩
  | cons token rest ih =>
      rw [readTowards]
      cases goal.accept token.lexeme frames with
      | more goal frames =>
          obtain ⟨taken, moves⟩ := ih goal frames token.stop
          exact ⟨[token] ++ taken, (Moves.head token rest position).trans moves⟩
      | complete datum | failed failure => exact ⟨[token], .head token rest position⟩
      | refused failure => exact ⟨[], .refl _⟩

/-- The numerals that are not taken are short. -/
def Convertible (s : Cursor) : Prop :=
  ∀ token ∈ s.tokens, token.lexeme.Convertible

theorem Moves.convertible {s s' : Cursor} {taken : List Token} (moves : s.Moves taken s')
    (short : s.Convertible) : s'.Convertible := fun token mem =>
  short token (moves.tokens ▸ List.mem_append_right taken mem)

/-- A datum is denoted by the tokens that are taken, and a fault is found where it shows. -/
theorem found_readDatum {s : Cursor} (short : s.Convertible) :
    ∃ taken, s.Moves taken s.readDatum.2 ∧ Found s.readDatum.1 taken s.readDatum.2.tokens := by
  obtain ⟨taken, moves⟩ : ∃ taken, s.Moves taken s.readDatum.2 := moves_readTowards ..
  refine ⟨taken, moves, ?_⟩
  rcases read : s.readDatum with ⟨result, rest⟩
  rw [read] at moves
  cases result with
  | ok v =>
      obtain ⟨used, last, tokens, -, denotes⟩ := denotes_of_readTowards (.datum .nothing) read
      rw [List.append_cons] at tokens
      obtain rfl := List.append_cancel_right (moves.tokens.symm.trans tokens)
      exact .datum denotes
  | error failure =>
      obtain ⟨error, used, rfl, tokens, fault⟩ := fault_of_readTowards
        (fun token mem text atom => readAtom_of_convertible (atom ▸ short token mem)) read
      obtain rfl := List.append_cancel_right (moves.tokens.symm.trans tokens)
      exact .fault fault

/-- Where tokens are left, reading a datum takes some. -/
theorem Moves.taken_ne_nil {s : Cursor} {taken : List Token} (moves : s.Moves taken s.readDatum.2)
    (pending : s.tokens ≠ []) : taken ≠ [] := by
  rintro rfl
  have fewer := length_readDatum_lt (s := s) (by simpa [atEnd] using pending)
  rw [moves.tokens] at fewer
  exact absurd fewer (Nat.lt_irrefl _)

theorem found_readAllAfter (found : List Value) {s : Cursor} (short : s.Convertible) :
    ∃ data taken, (s.readAllAfter found).1 = found.reverse ++ data ∧
      s.Moves taken (s.readAllAfter found).2.2 ∧
      FoundAll data (s.readAllAfter found).2.1 taken (s.readAllAfter found).2.2.tokens := by
  induction found, s using readAllAfter.induct with
  | case1 found s ended =>
      have empty : s.tokens = [] := by simpa [atEnd] using ended
      rw [readAllAfter_ended ended, empty]
      exact ⟨[], [], by simp, .refl s, .ended⟩
  | case2 found s pending v rest read ih =>
      obtain ⟨first, moves, datum⟩ := found_readDatum short
      rw [read] at moves datum
      obtain ⟨data, taken, others, moves', all⟩ := ih (moves.convertible short)
      cases datum with
      | datum denotes =>
          rw [readAllAfter_ok pending read]
          exact ⟨v :: data, first ++ taken, by simp [others], moves.trans moves',
            .datum denotes all⟩
  | case3 found s pending failure rest read =>
      obtain ⟨taken, moves, fault⟩ := found_readDatum short
      have present : taken ≠ [] := moves.taken_ne_nil (by simpa [atEnd] using pending)
      rw [read] at moves fault
      cases fault with
      | fault shows =>
          rw [readAllAfter_error pending read]
          exact ⟨[], taken, by simp, moves, .fault present shows⟩

/-- A request is answered from the tokens that it takes and those that it leaves. -/
theorem answers_perform (operation : Operation) {s : Cursor} (short : s.Convertible) :
    ∃ taken, s.Moves taken (s.perform operation).2 ∧
      Answers operation (s.perform operation).1 taken (s.perform operation).2.tokens := by
  obtain ⟨tokens, position⟩ := s
  cases operation with
  | peek => exact ⟨[], .refl _, .peek⟩
  | atEnd => exact ⟨[], .refl _, .atEnd⟩
  | advance =>
      cases tokens with
      | nil => exact ⟨[], .refl _, .exhausted⟩
      | cons token rest => exact ⟨[token], .head token rest position, .advance⟩
  | readDatum =>
      obtain ⟨taken, moves, found⟩ := found_readDatum short
      exact ⟨taken, moves, .readDatum (moves.tokens ▸ moves.taken_ne_nil) found⟩
  | readAll =>
      obtain ⟨data, taken, read, moves, found⟩ := found_readAllAfter [] short
      rw [List.reverse_nil, List.nil_append] at read
      exact ⟨taken, moves, .readAll (read ▸ found)⟩

/-- The tokens stop one behind the other, and behind where the cursor stands. -/
def InOrder (s : Cursor) : Prop :=
  (s.position :: s.tokens.map Token.stop).Pairwise (· ≤ ·)

theorem Moves.inOrder {s s' : Cursor} {taken : List Token} (moves : s.Moves taken s')
    (order : s.InOrder) : s.position ≤ s'.position ∧ s'.InOrder := by
  rw [InOrder, moves.tokens] at order
  rw [InOrder, moves.position]
  obtain rfl | ⟨before, last, rfl⟩ := List.eq_nil_or_concat' taken
  · exact ⟨Nat.le_refl _, order⟩
  · rw [reached_concat]
    rw [List.append_assoc, List.map_append] at order
    obtain ⟨first, order⟩ := List.pairwise_cons.mp order
    obtain ⟨-, others, -⟩ := List.pairwise_append.mp order
    exact ⟨first _ (by simp), others⟩

/-- Requests are answered one after the other. -/
theorem follows_run (operations : List Operation) {s : Cursor} (short : s.Convertible)
    (order : s.InOrder) :
    ∃ taken, s.Moves taken (s.run operations).2 ∧
      Follows s.position operations (s.run operations).1 taken (s.run operations).2.tokens := by
  induction operations generalizing s with
  | nil => exact ⟨[], .refl s, .nil⟩
  | cons operation operations ih =>
      obtain ⟨more, moves, answers⟩ := answers_perform operation short
      obtain ⟨forward, order⟩ := moves.inOrder order
      obtain ⟨taken, moves', follows⟩ := ih (moves.convertible short) order
      refine ⟨more ++ taken, moves.trans moves', ?_⟩
      rw [moves.position] at forward follows
      rw [moves'.tokens] at answers
      have all := Follows.cons answers forward follows
      rw [← moves.position] at all
      exact all

/-- Requests do not add tokens, and reading a datum takes one as long as there are any. -/
theorem length_perform_le (operation : Operation) {s : Cursor} (short : s.Convertible) :
    (s.perform operation).2.tokens.length ≤ s.tokens.length - [operation].count .readDatum := by
  obtain ⟨taken, moves, answers⟩ := answers_perform operation short
  have whole : s.tokens.length = taken.length + (s.perform operation).2.tokens.length := by
    rw [moves.tokens, List.length_append]
  by_cases reads : operation = .readDatum
  · subst reads
    rw [List.count_singleton_self]
    by_cases pending : s.tokens = []
    · rw [pending, List.length_nil] at whole
      omega
    · have some := List.length_pos_iff.mpr (moves.taken_ne_nil pending)
      omega
  · rw [List.count_singleton, if_neg (by simpa using reads)]
    omega

theorem length_run_le (operations : List Operation) {s : Cursor} (short : s.Convertible) :
    (s.run operations).2.tokens.length ≤ s.tokens.length - operations.count .readDatum := by
  induction operations generalizing s with
  | nil => exact Nat.le_refl _
  | cons operation operations ih =>
      obtain ⟨taken, moves, -⟩ := answers_perform operation short
      have here := length_perform_le operation short
      have others := ih (moves.convertible short)
      have parts : (operation :: operations).count .readDatum =
          [operation].count .readDatum + operations.count .readDatum := by
        rw [← List.singleton_append, List.count_append]
      rw [run]
      dsimp only
      omega

/-- What is read does not depend on what was read before. -/
theorem readTowards_position (goal : Goal) (frames : List Frame) (position position' : Nat)
    (tokens : List Token) :
    (readTowards goal frames position tokens).1 = (readTowards goal frames position' tokens).1 ∧
      (readTowards goal frames position tokens).2.tokens =
        (readTowards goal frames position' tokens).2.tokens := by
  cases tokens with
  | nil => exact ⟨rfl, rfl⟩
  | cons token rest =>
      rw [readTowards, readTowards]
      cases goal.accept token.lexeme frames <;> exact ⟨rfl, rfl⟩

end Cursor

/-- The tokens of a layout stop behind where they begin, one behind the other. -/
theorem Layout.pairwise_tokensFrom (offset : Nat) (parts : List (Lexeme × List Char)) :
    (offset :: (tokensFrom offset parts).map Token.stop).Pairwise (· ≤ ·) := by
  induction parts generalizing offset with
  | nil => simp [tokensFrom]
  | cons part parts ih =>
      obtain ⟨lexeme, gap⟩ := part
      obtain ⟨behind, others⟩ := List.pairwise_cons.mp
        (ih (offset + lexeme.text.length + gap.length))
      rw [tokensFrom, List.map_cons, List.pairwise_cons, List.pairwise_cons]
      refine ⟨fun stop mem => ?_, fun stop mem => ?_, others⟩
      · obtain rfl | mem := List.mem_cons.mp mem
        · exact Nat.le_add_right ..
        · exact Nat.le_trans (by omega) (behind stop mem)
      · exact Nat.le_trans (Nat.le_add_right ..) (behind stop mem)

namespace Cursor

theorem inOrder_ofText (text : String) : (ofText text).InOrder := by
  obtain ⟨l, decomposes⟩ := Layout.exists_decomposes text.toList
  rw [InOrder, ofText, start, decomposes.lex_eq]
  refine List.pairwise_cons.mpr ⟨fun stop _ => Nat.zero_le stop, ?_⟩
  exact (List.pairwise_cons.mp (Layout.pairwise_tokensFrom l.lead.length l.parts)).2

end Cursor

namespace TokenStream

section Pending

variable {s looked rest : TokenStream} {result : Except ReadFailure Value}

theorem cursor_pending (pending : s.atEnd = (false, looked)) : ¬ s.cursor.atEnd = true := by
  obtain ⟨here, -⟩ := pending ▸ s.atEnd_cursor
  simp [← here]

theorem cursor_read (pending : s.atEnd = (false, looked))
    (read : looked.readDatum = (result, rest)) : s.cursor.readDatum = (result, rest.cursor) := by
  obtain ⟨-, same⟩ := pending ▸ s.atEnd_cursor
  obtain ⟨answer, behind⟩ := read ▸ looked.readDatum_cursor
  rw [same] at answer behind
  exact Prod.ext answer.symm behind.symm

end Pending

theorem readAllAfter_cursor (found : List Value) (s : TokenStream) :
    (s.readAllAfter found).1 = (s.cursor.readAllAfter found).1 ∧
      (s.readAllAfter found).2.1 = (s.cursor.readAllAfter found).2.1 ∧
      (s.readAllAfter found).2.2.cursor = (s.cursor.readAllAfter found).2.2 := by
  induction found, s using readAllAfter.induct with
  | case1 found s looked ended =>
      obtain ⟨here, same⟩ := ended ▸ s.atEnd_cursor
      rw [Cursor.readAllAfter_ended here.symm, readAllAfter]
      split
      · next ended' =>
        cases ended.symm.trans ended'
        exact ⟨rfl, rfl, same⟩
      · next pending => cases ended.symm.trans pending
  | case2 found s looked pending datum rest read ih =>
      rw [Cursor.readAllAfter_ok (cursor_pending pending) (cursor_read pending read), readAllAfter]
      split
      · next ended => cases pending.symm.trans ended
      · next pending' =>
        cases pending.symm.trans pending'
        split
        · next read' =>
          cases read.symm.trans read'
          exact ih
        · next read' => cases read.symm.trans read'
  | case3 found s looked pending failure rest read =>
      rw [Cursor.readAllAfter_error (cursor_pending pending) (cursor_read pending read),
        readAllAfter]
      split
      · next ended => cases pending.symm.trans ended
      · next pending' =>
        cases pending.symm.trans pending'
        split
        · next read' => cases read.symm.trans read'
        · next read' =>
          cases read.symm.trans read'
          exact ⟨rfl, rfl, rfl⟩

/-- A request is answered from where the stream stands, and moves it as it moves a cursor. -/
theorem perform_cursor (operation : Operation) (s : TokenStream) :
    (s.perform operation).1 = (s.cursor.perform operation).1 ∧
      (s.perform operation).2.cursor = (s.cursor.perform operation).2 := by
  cases operation with
  | peek => exact ⟨congrArg Reply.next s.peek_cursor.1, s.peek_cursor.2⟩
  | advance => exact ⟨congrArg Reply.taken s.advance_cursor.1, s.advance_cursor.2⟩
  | atEnd => exact ⟨congrArg Reply.ended s.atEnd_cursor.1, s.atEnd_cursor.2⟩
  | readDatum => exact ⟨congrArg Reply.datum s.readDatum_cursor.1, s.readDatum_cursor.2⟩
  | readAll =>
      obtain ⟨data, failure, behind⟩ := s.readAllAfter_cursor []
      exact ⟨congrArg₂ Reply.data data failure, behind⟩

/-- Any number of requests are answered as from a cursor, and leave the stream where they leave the
cursor. -/
theorem run_cursor (operations : List Operation) (s : TokenStream) :
    (s.run operations).1 = (s.cursor.run operations).1 ∧
      (s.run operations).2.cursor = (s.cursor.run operations).2 := by
  induction operations generalizing s with
  | nil => exact ⟨rfl, rfl⟩
  | cons operation operations ih =>
      obtain ⟨reply, behind⟩ := s.perform_cursor operation
      have position : (s.perform operation).2.position = (s.cursor.perform operation).2.position :=
        congrArg Cursor.position behind
      obtain ⟨replies, last⟩ := ih (s.perform operation).2
      rw [behind] at replies last
      exact ⟨congrArg₂ List.cons (congrArg₂ Prod.mk reply position) replies, last⟩

theorem cursor_ofText (text : String) : (ofText text).cursor = Cursor.ofText text := rfl

/-- A stream over the tokens of a text refines a cursor over them. Whatever is requested, also after
a datum was not read, is answered as from the cursor, and from the tokens in front of it: those that
were taken are the first ones of the text, each taken once and in order, and the position is behind
the last of them. To look at a token, or whether there is one, changes no later answer. A datum is
read as from a list of the tokens that are left, and takes one of them at least; so reading as often
as there are tokens, whatever is requested in between, leaves none. -/
theorem run_refines_cursor {text : String} (short : ShortNumerals text)
    (operations : List Operation) :
    ∃ replies s, run operations (ofText text) = (replies, s) ∧
      Cursor.run operations (Cursor.ofText text) = (replies, s.cursor) ∧
      (∃ taken, Token.lex text = taken ++ s.cursor.tokens ∧ s.position = reached 0 taken ∧
        Cursor.Follows 0 operations replies taken s.cursor.tokens) ∧
      (∀ later, (run later s.peek.2).1 = (run later s).1 ∧
        (run later s.atEnd.2).1 = (run later s).1) ∧
      (s.readDatum.1 = (Cursor.start s.cursor.tokens).readDatum.1 ∧
        s.readDatum.2.cursor.tokens = (Cursor.start s.cursor.tokens).readDatum.2.tokens) ∧
      (s.cursor.tokens ≠ [] →
        s.readDatum.2.cursor.tokens.length < s.cursor.tokens.length) ∧
      ∀ later, s.cursor.tokens.length ≤ later.count .readDatum →
        (run later s).2.cursor.tokens = [] := by
  obtain ⟨answered, stands⟩ := run_cursor operations (ofText text)
  obtain ⟨taken, moves, follows⟩ :=
    Cursor.follows_run operations (s := Cursor.ofText text) short (Cursor.inOrder_ofText text)
  rw [cursor_ofText] at answered stands
  have left := moves.convertible short
  rw [← stands] at moves follows left
  rw [← answered] at follows
  refine ⟨_, _, rfl, Prod.ext answered.symm stands.symm,
    ⟨taken, moves.tokens, moves.position, follows⟩, fun later => ⟨?_, ?_⟩, ?_, fun pending => ?_,
    fun later enough => ?_⟩
  · rw [(run_cursor later _).1, (peek_cursor _).2, ← (run_cursor later _).1]
  · rw [(run_cursor later _).1, (atEnd_cursor _).2, ← (run_cursor later _).1]
  · rw [(readDatum_cursor _).1, (readDatum_cursor _).2]
    exact Cursor.readTowards_position .datum [] _ 0 _
  · rw [(readDatum_cursor _).2]
    exact Cursor.length_readDatum_lt (by simpa [Cursor.atEnd] using pending)
  · have fewer := Cursor.length_run_le later left
    rw [(run_cursor later _).2]
    exact List.length_eq_zero_iff.mp (by omega)

theorem run_refines_cursor_faults :
    ShortNumerals "(a . b c) ) (x" ∧
    ∃ s, run [.peek, .readDatum, .advance, .readDatum, .readDatum, .readDatum, .atEnd]
        (ofText "(a . b c) ) (x") =
      ([(.next (some ⟨.opening, 1⟩), 0),
        (.datum (.error (.malformed (.unexpected ("c".take 1).toString ")"))), 6),
        (.taken (.ok ⟨.atom "c", 8⟩), 8),
        (.datum (.error (.malformed .unmatchedClose)), 9),
        (.datum (.error (.malformed .unmatchedClose)), 11),
        (.datum (.error (.malformed .endOfText)), 14),
        (.ended true, 14)], s) ∧ s.cursor = ⟨[], 14⟩ := by
  have short : ShortNumerals "(a . b c) ) (x" := by decide
  obtain ⟨replies, s, ran, asCursor, -⟩ := run_refines_cursor short
    [.peek, .readDatum, .advance, .readDatum, .readDatum, .readDatum, .atEnd]
  obtain ⟨rfl, stands⟩ := Prod.ext_iff.mp asCursor
  exact ⟨short, s, ran, stands.symm⟩

end TokenStream

end PocketLisp
