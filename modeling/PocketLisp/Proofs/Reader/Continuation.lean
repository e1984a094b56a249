import PocketLisp.Proofs.Reader.Atom
import PocketLisp.Proofs.Reader.Feed

/-!
# Texts that go on

A line break after a text cuts it, so the reader takes what follows from the state in which the
text left it. If that state is idle, what follows is read as if it stood alone. If it is not, the
reader waits for more, and some text satisfies it: any datum and the closing parentheses that are
missing. And if the reading has failed, no text makes a difference.
-/

namespace PocketLisp

namespace Reader

/-- Whatever datum is handed over, enough closing parentheses complete the outermost one. -/
theorem exists_closings (datum : Value) (frames : List Frame) :
    ∃ n found, (deliver datum frames).andThen (List.replicate n .closing) =
      ⟨[found], .ok .idle⟩ := by
  induction frames generalizing datum with
  | nil => exact ⟨0, datum, rfl⟩
  | cons frame frames ih =>
      cases frame with
      | quote => exact ih datum.quote
      | list items =>
          obtain ⟨n, found, run⟩ := ih (listOf (datum :: items) .nil)
          exact ⟨n + 1, found, run⟩
      | dotted items =>
          obtain ⟨n, found, run⟩ := ih (listOf items datum)
          exact ⟨n + 1, found, run⟩

theorem lexemes_closings (n : Nat) :
    lexemes (List.replicate n ')') = List.replicate n .closing := by
  induction n with
  | zero => rfl
  | succ n ih =>
      have closing : Lexeme.ofChar? ')' = some .closing := rfl
      rw [List.replicate_succ, lexemes_single closing, ih, List.replicate_succ]

/-- From every state, some text leads the reader to the end of the datum. -/
theorem exists_completion (s : State) :
    ∃ text found, feed s (lexemes text) = ⟨[found], .ok .idle⟩ := by
  obtain ⟨goal, frames⟩ := s
  cases goal with
  | datum =>
      obtain ⟨n, found, run⟩ := exists_closings (.symbol "x") frames
      have atom : AtomText ['x'] := ⟨by simp, by simp [AtomChar]; decide⟩
      have delimited : Delimited (List.replicate n ')') := by
        cases n with
        | zero => exact .nil
        | succ n => exact .closing _
      refine ⟨'x' :: List.replicate n ')', found, ?_⟩
      rw [← List.singleton_append, lexemes_atom atom delimited, lexemes_closings]
      exact run
  | close items tail =>
      obtain ⟨n, found, run⟩ := exists_closings (listOf items tail) frames
      refine ⟨List.replicate (n + 1) ')', found, ?_⟩
      rw [lexemes_closings]
      exact run

/-- The end of a text is no failure of the machine. -/
theorem stand_ne_endOfText (s : State) (ls : List Lexeme) :
    (feed s ls).stand ≠ .error (.malformed .endOfText) := by
  induction ls generalizing s with
  | nil => simp [feed_nil]
  | cons lexeme rest ih =>
      obtain ⟨goal, frames⟩ := s
      have taken := takes_accept goal lexeme frames
      rw [feed_cons]
      generalize goal.accept lexeme frames = step at taken
      -- A datum that is handed over passes through the quotes above it before the next lexeme.
      have delivered (datum : Value) (frames : List Frame) :
          ((deliver datum frames).andThen rest).stand ≠ .error (.malformed .endOfText) := by
        induction frames generalizing datum with
        | nil => exact ih .idle
        | cons frame frames ih' =>
            cases frame with
            | quote => exact ih' datum.quote
            | list items => exact ih _
            | dotted items => exact ih _
      cases taken with
      | atom read => exact delivered _ _
      | refusedAtom read =>
          obtain ⟨digits, rfl⟩ := readAtom_error read
          simp
      | dot => exact ih _
      | quote => exact ih _
      | opening => exact ih _
      | endList => exact delivered _ _
      | unmatched => simp
      | endDotted => exact delivered _ _
      | unexpected => simp

theorem Reading.resume_of_error {reading : Reading} {failure : ReadFailure}
    (failed : reading.stand = .error failure) (rest : List Lexeme) :
    reading.resume rest = reading := by
  simp [resume, failed]

theorem Reading.resume_of_ok {reading : Reading} {s : State} (stand : reading.stand = .ok s)
    (rest : List Lexeme) :
    reading.resume rest = ⟨reading.data ++ (feed s rest).data, (feed s rest).stand⟩ := by
  simp [resume, stand]

/-- What a reading lacks, by where it stands. -/
theorem Reading.failure_cases (reading : Reading) :
    (reading.stand = .ok .idle ∧ reading.failure = none) ∨
    (∃ s, reading.stand = .ok s ∧ reading.failure = some (.malformed .endOfText)) ∨
    ∃ failure, reading.stand = .error failure ∧ reading.failure = some failure := by
  unfold failure
  cases reading.stand with
  | error failure => exact .inr (.inr ⟨failure, rfl, rfl⟩)
  | ok s =>
      by_cases idle : s = .idle
      · exact .inl ⟨idle ▸ rfl, if_pos idle⟩
      · exact .inr (.inl ⟨s, rfl, if_neg idle⟩)

end Reader

open Reader

/-- After a line break, the reader goes on from where it stood. -/
theorem readAll_newline (text more : String) :
    readAll (text ++ "\n" ++ more) =
      (((feed .idle (lexemes text.toList)).resume (lexemes more.toList)).data,
        ((feed .idle (lexemes text.toList)).resume (lexemes more.toList)).failure) := by
  have cut : (text ++ "\n" ++ more).toList = text.toList ++ '\n' :: more.toList := by
    simp
  rw [readAll_eq_feed, cut, lexemes_append_blank _ Text.isBlank_newline, feed_append]

/-- A text is complete exactly when what follows it is read on its own; it ends too early exactly
when it waits for a continuation; and any other failure is final. -/
theorem readAll_continued (text : String) :
    match (readAll text).2 with
    | none => ∀ more, readAll (text ++ "\n" ++ more) =
        ((readAll text).1 ++ (readAll more).1, (readAll more).2)
    | some (.malformed .endOfText) =>
        (∃ more, (readAll (text ++ "\n" ++ more)).2 = none) ∧
        ∀ more, (readAll text).1 <+: (readAll (text ++ "\n" ++ more)).1
    | some _ => ∀ more, readAll (text ++ "\n" ++ more) = readAll text := by
  simp only [readAll_newline]
  simp only [readAll_eq_feed]
  have final := stand_ne_endOfText .idle (lexemes text.toList)
  generalize feed .idle (lexemes text.toList) = reading at final
  obtain ⟨stand, lack⟩ | ⟨s, stand, lack⟩ | ⟨failure, stand, lack⟩ := reading.failure_cases
  · rw [lack]
    intro more
    rw [Reading.resume_of_ok stand]
    rfl
  · rw [lack]
    constructor
    · obtain ⟨more, found, run⟩ := exists_completion s
      refine ⟨String.ofList more, ?_⟩
      rw [Reading.resume_of_ok stand, String.toList_ofList, run]
      simp [Reading.failure]
    · intro more
      rw [Reading.resume_of_ok stand]
      exact List.prefix_append ..
  · have resume := Reading.resume_of_error stand
    rw [lack]
    split
    · contradiction
    · next endOfText =>
      exact absurd (stand.trans (congrArg _ (Option.some.inj endOfText))) final
    · intro more
      rw [resume, lack]

end PocketLisp
