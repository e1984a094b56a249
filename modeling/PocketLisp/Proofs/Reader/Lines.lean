import PocketLisp.Proofs.Reader.Continuation
import PocketLisp.Proofs.Reader.Grammar
import PocketLisp.Proofs.Text.Lines

/-!
# Reading a text by its lines

The end of a line cuts a text: no atom goes on behind it. So if the first lines of a text are
complete, the others are read as if they stood alone (`readAll_join_append`). If the first lines
have a fault that no continuation mends, the others are not looked at
(`readAll_join_append_of_fault`).
-/

namespace PocketLisp

open Reader

/-- A text is complete where the reader is idle. -/
theorem stand_of_complete {text : String} (complete : (readAll text).2 = none) :
    (feed .idle (lexemes text.toList)).stand = .ok .idle := by
  rw [readAll_eq_feed] at complete
  obtain ⟨stand, -⟩ | ⟨_, -, lack⟩ | ⟨_, -, lack⟩ :=
    (feed .idle (lexemes text.toList)).failure_cases
  · exact stand
  · cases complete.symm.trans lack
  · cases complete.symm.trans lack

/-- A fault that no continuation mends has stopped the reader. -/
theorem stand_of_fault {text : String} {failure : ReadFailure}
    (faulty : (readAll text).2 = some failure) (final : failure ≠ .malformed .endOfText) :
    (feed .idle (lexemes text.toList)).stand = .error failure := by
  rw [readAll_eq_feed] at faulty
  obtain ⟨-, lack⟩ | ⟨_, -, lack⟩ | ⟨_, stand, lack⟩ :=
    (feed .idle (lexemes text.toList)).failure_cases
  · cases faulty.symm.trans lack
  · exact absurd (Option.some.inj (faulty.symm.trans lack)) final
  · rw [stand, Option.some.inj (faulty.symm.trans lack)]

/-- Behind a complete text and a line break, what follows is read as if it stood alone. -/
theorem readAll_append_newline {text : String} (complete : (readAll text).2 = none)
    (more : String) :
    readAll (text ++ "\n" ++ more) =
      ((readAll text).1 ++ (readAll more).1, (readAll more).2) := by
  rw [readAll_newline, Reading.resume_of_ok (stand_of_complete complete), readAll_eq_feed,
    readAll_eq_feed]
  rfl

/-- Complete texts with line breaks between them are complete, and their data are those of the
texts in turn. -/
theorem readAll_intercalate {texts : List String}
    (complete : ∀ text ∈ texts, (readAll text).2 = none) :
    readAll ("\n".intercalate texts) = (texts.flatMap fun text => (readAll text).1, none) := by
  induction texts with
  | nil =>
      rw [readAll_eq_feed, String.intercalate_nil]
      rfl
  | cons text texts ih =>
      obtain ⟨first, others⟩ := List.forall_mem_cons.mp complete
      by_cases last : texts = []
      · subst last
        rw [String.intercalate_singleton, List.flatMap_singleton, ← first]
      · rw [String.intercalate_cons_of_ne_nil last, readAll_append_newline first, ih others,
          List.flatMap_cons]

section Cut

variable {first rest : List String} (fine : Text.Lines (first ++ rest))
include fine

/-- The lexemes of a text are those of its first lines and those of the others. -/
theorem lexemes_join_append :
    lexemes (String.join (first ++ rest)).toList =
      lexemes (String.join first).toList ++ lexemes (String.join rest).toList := by
  induction first with
  | nil => rfl
  | cons line first ih =>
      by_cases alone : first ++ rest = []
      · obtain ⟨rfl, rfl⟩ := List.append_eq_nil_iff.mp alone
        simp [lexemes_nil]
      · obtain ⟨body, rfl⟩ := fine.exists_body alone
        have cut (more : String) : lexemes (body ++ "\n" ++ more).toList =
            lexemes body.toList ++ lexemes more.toList := by
          simpa using lexemes_append_blank body.toList Text.isBlank_newline more.toList
        rw [List.cons_append, String.join_cons, String.join_cons, cut, cut, ih fine.tail,
          List.append_assoc]

/-- The reader goes on from where the first lines left it. -/
theorem readAll_join_append_eq_resume :
    readAll (String.join (first ++ rest)) =
      (((feed .idle (lexemes (String.join first).toList)).resume
          (lexemes (String.join rest).toList)).data,
        ((feed .idle (lexemes (String.join first).toList)).resume
          (lexemes (String.join rest).toList)).failure) := by
  rw [readAll_eq_feed, lexemes_join_append fine, feed_append]

/-- Behind complete lines, the others are read as if they stood alone. -/
theorem readAll_join_append (complete : (readAll (String.join first)).2 = none) :
    readAll (String.join (first ++ rest)) =
      ((readAll (String.join first)).1 ++ (readAll (String.join rest)).1,
        (readAll (String.join rest)).2) := by
  rw [readAll_join_append_eq_resume fine, Reading.resume_of_ok (stand_of_complete complete),
    readAll_eq_feed, readAll_eq_feed]
  rfl

/-- A fault that no continuation mends is met before the other lines are looked at. -/
theorem readAll_join_append_of_fault {failure : ReadFailure}
    (faulty : (readAll (String.join first)).2 = some failure)
    (final : failure ≠ .malformed .endOfText) :
    readAll (String.join (first ++ rest)) = readAll (String.join first) := by
  rw [readAll_join_append_eq_resume fine, Reading.resume_of_error (stand_of_fault faulty final),
    readAll_eq_feed]

end Cut

theorem shortNumerals_iff {text : String} :
    ShortNumerals text ↔ ∀ lexeme ∈ lexemes text.toList, lexeme.Convertible := by
  rw [lexemes, List.forall_mem_map]
  rfl

/-- If no numeral is too long, the reader stops only at a fault of the text. -/
theorem malformed_of_feed {s : State} {ls : List Lexeme} {failure : ReadFailure}
    (short : ∀ lexeme ∈ ls, lexeme.Convertible) (failed : (feed s ls).stand = .error failure) :
    ∃ error, failure = .malformed error := by
  induction ls generalizing s with
  | nil => cases failed
  | cons lexeme rest ih =>
      obtain ⟨first, others⟩ := List.forall_mem_cons.mp short
      have faults := accept_faultsOnly s.goal s.frames fun _ atom =>
        readAtom_of_convertible (atom ▸ first)
      rw [feed_cons] at failed
      cases step : s.goal.accept lexeme s.frames with
      | more goal frames =>
          rw [step, Step.andThen_more] at failed
          exact ih others failed
      | complete datum =>
          rw [step, Step.andThen_complete, Reading.stand_after] at failed
          exact ih others failed
      | failed found | refused found =>
          rw [step] at faults failed
          cases failed
          exact ⟨_, faults.2⟩

/-- If no numeral is too long, a text that is not complete is malformed. -/
theorem malformed_of_readAll {text : String} (short : ShortNumerals text)
    {failure : ReadFailure} (faulty : (readAll text).2 = some failure) :
    ∃ error, failure = .malformed error := by
  by_cases final : failure = .malformed .endOfText
  · exact ⟨_, final⟩
  · exact malformed_of_feed (shortNumerals_iff.mp short) (stand_of_fault faulty final)

end PocketLisp
