import Mathlib.Data.List.Basic
import PocketLisp.Proofs.Reader.Lines
import PocketLisp.Reader.Reach

/-!
# What a limit changes

A text fits a limit if its lexemes can all be taken with no more constructs open (`Reader.Fits`).
Then the limit changes nothing, and otherwise the reading is cut, behind some of the data of the
text (`readAllWithin_cases`). Lexemes fit if their first part does and the others do from where the
first part left the reader (`Reader.fits_append`), so all that was said of texts that are read line
by line holds within a limit too.
-/

namespace PocketLisp

namespace Reader

variable {limit limit' : Nat} {s : State} {ls first rest : List Lexeme} {lexeme : Lexeme}

/-- All the lexemes can be taken with no more than `limit` constructs open. -/
def Fits (limit : Nat) (s : State) (ls : List Lexeme) : Prop :=
  reach limit s.goal s.frames ls = ls.length

instance : Decidable (Fits limit s ls) :=
  inferInstanceAs (Decidable (_ = _))

theorem fits_nil : Fits limit s [] := rfl

theorem fits_cons_more {goal : Goal} {frames : List Frame}
    (step : s.goal.accept lexeme s.frames = .more goal frames) :
    Fits limit s (lexeme :: rest) ↔ frames.length ≤ limit ∧ Fits limit ⟨goal, frames⟩ rest := by
  rw [Fits, reach, step]
  by_cases room : frames.length ≤ limit <;> simp [room, Fits]

theorem fits_cons_complete {datum : Value}
    (step : s.goal.accept lexeme s.frames = .complete datum) :
    Fits limit s (lexeme :: rest) ↔ Fits limit .idle rest := by
  rw [Fits, reach, step]
  exact Nat.succ_inj

/-- A fault is met whatever the limit is. -/
theorem fits_cons_of_error {failure : ReadFailure}
    (step : s.goal.accept lexeme s.frames = .failed failure ∨
      s.goal.accept lexeme s.frames = .refused failure) : Fits limit s (lexeme :: rest) := by
  obtain step | step := step <;> rw [Fits, reach, step] <;> rfl

/-- Lexemes fit in two parts. -/
theorem fits_append :
    Fits limit s (first ++ rest) ↔
      Fits limit s first ∧ ∀ s', (feed s first).stand = .ok s' → Fits limit s' rest := by
  induction first generalizing s with
  | nil => simp [fits_nil, feed_nil]
  | cons lexeme first ih =>
      rw [List.cons_append, feed_cons]
      cases step : s.goal.accept lexeme s.frames with
      | more goal frames => rw [fits_cons_more step, fits_cons_more step, ih, and_assoc]; rfl
      | complete datum => rw [fits_cons_complete step, fits_cons_complete step, ih]; rfl
      | failed failure =>
          exact iff_of_true (fits_cons_of_error (.inl step))
            ⟨fits_cons_of_error (.inl step), nofun⟩
      | refused failure =>
          exact iff_of_true (fits_cons_of_error (.inr step))
            ⟨fits_cons_of_error (.inr step), nofun⟩

/-- A larger limit leaves more room. -/
theorem Fits.mono (fits : Fits limit s ls) (le : limit ≤ limit') : Fits limit' s ls := by
  induction ls generalizing s with
  | nil => exact fits_nil
  | cons lexeme rest ih =>
      cases step : s.goal.accept lexeme s.frames with
      | more goal frames =>
          obtain ⟨room, fitsRest⟩ := (fits_cons_more step).mp fits
          exact (fits_cons_more step).mpr ⟨Nat.le_trans room le, ih fitsRest⟩
      | complete datum =>
          exact (fits_cons_complete step).mpr (ih ((fits_cons_complete step).mp fits))
      | failed failure => exact fits_cons_of_error (.inl step)
      | refused failure => exact fits_cons_of_error (.inr step)

theorem reach_le (limit : Nat) (goal : Goal) (frames : List Frame) (ls : List Lexeme) :
    reach limit goal frames ls ≤ ls.length := by
  induction ls generalizing goal frames with
  | nil => exact Nat.le_refl _
  | cons lexeme rest ih =>
      rw [reach, List.length_cons]
      split
      · split
        · exact Nat.succ_le_succ (ih ..)
        · exact Nat.zero_le _
      · exact Nat.succ_le_succ (ih ..)
      all_goals exact Nat.le_refl _

/-- A larger limit lets no fewer lexemes be taken. -/
theorem reach_mono (le : limit ≤ limit') (goal : Goal) (frames : List Frame) (ls : List Lexeme) :
    reach limit goal frames ls ≤ reach limit' goal frames ls := by
  induction ls generalizing goal frames with
  | nil => exact Nat.le_refl _
  | cons lexeme rest ih =>
      rw [reach, reach]
      split
      · next goal frames _ =>
        by_cases room : frames.length ≤ limit
        · rw [if_pos room, if_pos (Nat.le_trans room le)]
          exact Nat.succ_le_succ (ih goal frames)
        · rw [if_neg room]
          exact Nat.zero_le _
      · exact Nat.succ_le_succ (ih ..)
      all_goals exact Nat.le_refl _

/-- The data of the first lexemes come first. -/
theorem data_prefix (s : State) (first rest : List Lexeme) :
    (feed s first).data <+: (feed s (first ++ rest)).data := by
  rw [feed_append]
  unfold Reading.resume
  split
  · exact List.prefix_append ..
  · exact List.prefix_rfl

end Reader

open Reader

/-- The text can be read with no more than `limit` constructs open. -/
def FitsWithin (limit : Nat) (text : String) : Prop :=
  Fits limit .idle (lexemes text.toList)

instance (limit : Nat) (text : String) : Decidable (FitsWithin limit text) :=
  inferInstanceAs (Decidable (Fits _ _ _))

section Text

variable {limit limit' : Nat} {text : String}

/-- What is read within a limit is what the machine finds in the lexemes that can be taken. -/
theorem readAllWithin_eq_feed (limit : Nat) (text : String) :
    let ls := lexemes text.toList
    let n := reach limit .datum [] ls
    readAllWithin limit text =
      ((feed .idle (ls.take n)).data,
        if n < ls.length then some .tooDeep else (feed .idle (ls.take n)).failure.map .failed) := by
  intro ls n
  let c := ((Cursor.ofText text).within limit).1
  have remaining : c.remaining = ls.take n := List.map_take
  have count : ls.length = (Cursor.ofText text).tokens.length := List.length_map _
  obtain ⟨data, failure⟩ := Cursor.readAllAfter_eq_feed [] c
  rw [remaining] at data failure
  refine Prod.ext data ?_
  change (if decide (n < (Cursor.ofText text).tokens.length) = true then some Halt.tooDeep
    else (c.readAllAfter []).2.1.map .failed) = _
  rw [failure, count]
  simp

/-- The data that are read within a limit are the first data of the text. -/
theorem readAllWithin_initial (limit : Nat) (text : String) :
    (readAllWithin limit text).1 <+: (readAll text).1 := by
  let n := reach limit .datum [] (lexemes text.toList)
  have found := data_prefix .idle ((lexemes text.toList).take n) ((lexemes text.toList).drop n)
  rw [List.take_append_drop] at found
  rwa [readAllWithin_eq_feed, readAll_eq_feed]

/-- The data that are read within a limit are the first ones that are read within a larger one. -/
theorem readAllWithin_initial_mono (le : limit ≤ limit') (text : String) :
    (readAllWithin limit text).1 <+: (readAllWithin limit' text).1 := by
  let ls := lexemes text.toList
  let n := reach limit .datum [] ls
  let n' := reach limit' .datum [] ls
  have found := data_prefix .idle ((ls.take n').take n) ((ls.take n').drop n)
  rw [List.take_append_drop, List.take_take, Nat.min_eq_left (reach_mono le .datum [] ls)] at found
  rwa [readAllWithin_eq_feed, readAllWithin_eq_feed]

/-- A limit that a text fits changes nothing, and another one cuts the reading. -/
theorem readAllWithin_cases (limit : Nat) (text : String) :
    (FitsWithin limit text ∧
        readAllWithin limit text = ((readAll text).1, (readAll text).2.map .failed)) ∨
      ¬ FitsWithin limit text ∧ (readAllWithin limit text).2 = some .tooDeep := by
  rw [readAllWithin_eq_feed, readAll_eq_feed]
  by_cases fits : FitsWithin limit text
  · have all : reach limit .datum [] (lexemes text.toList) = (lexemes text.toList).length := fits
    exact .inl ⟨fits, by simp [all]⟩
  · have le := reach_le limit .datum [] (lexemes text.toList)
    have other : reach limit .datum [] (lexemes text.toList) ≠ (lexemes text.toList).length := fits
    exact .inr ⟨fits, if_pos (Nat.lt_of_le_of_ne le other)⟩

theorem readAllWithin_of_fits (fits : FitsWithin limit text) :
    readAllWithin limit text = ((readAll text).1, (readAll text).2.map .failed) := by
  obtain ⟨-, read⟩ | ⟨other, -⟩ := readAllWithin_cases limit text
  · exact read
  · exact absurd fits other

/-- A text that is not cut is read as without a limit. -/
theorem fits_of_ne_tooDeep (whole : (readAllWithin limit text).2 ≠ some .tooDeep) :
    FitsWithin limit text := by
  obtain ⟨fits, -⟩ | ⟨-, deep⟩ := readAllWithin_cases limit text
  · exact fits
  · exact absurd deep whole

/-- A text that is not cut is read in the same way within a larger limit. -/
theorem readAllWithin_mono (whole : (readAllWithin limit text).2 ≠ some .tooDeep)
    (le : limit ≤ limit') : readAllWithin limit' text = readAllWithin limit text := by
  have fits := fits_of_ne_tooDeep whole
  rw [readAllWithin_of_fits fits, readAllWithin_of_fits (fits.mono le)]

/-- A text is complete within a limit if it fits and is complete. -/
theorem readAllWithin_complete_iff {forms : List Value} :
    readAllWithin limit text = (forms, none) ↔
      FitsWithin limit text ∧ readAll text = (forms, none) := by
  obtain ⟨fits, read⟩ | ⟨other, deep⟩ := readAllWithin_cases limit text
  · rw [read, and_iff_right fits]
    simp [Prod.ext_iff]
  · refine iff_of_false (fun read => ?_) fun h => other h.1
    cases deep.symm.trans (congrArg Prod.snd read)

/-- A failure within a limit is a failure of the text. -/
theorem readAllWithin_failed_iff {failure : ReadFailure} :
    (readAllWithin limit text).2 = some (.failed failure) ↔
      FitsWithin limit text ∧ (readAll text).2 = some failure := by
  obtain ⟨fits, read⟩ | ⟨other, deep⟩ := readAllWithin_cases limit text
  · rw [read, and_iff_right fits]
    simp
  · refine iff_of_false (fun read => ?_) fun h => other h.1
    cases deep.symm.trans read

end Text

section Lines

variable {limit : Nat} {forms : List Value}

/-- Behind a complete text, what follows fits if it does on its own. -/
theorem fits_append_of_complete {text : String} {more : List Lexeme}
    (complete : (readAll text).2 = none) :
    Fits limit .idle (lexemes text.toList ++ more) ↔
      FitsWithin limit text ∧ Fits limit .idle more := by
  rw [fits_append, stand_of_complete complete]
  simp [FitsWithin]

/-- Complete texts with line breaks between them fit if each of them does. -/
theorem fitsWithin_intercalate {texts : List String}
    (complete : ∀ text ∈ texts, (readAll text).2 = none)
    (fits : ∀ text ∈ texts, FitsWithin limit text) :
    FitsWithin limit ("\n".intercalate texts) := by
  induction texts with
  | nil => exact fits_nil
  | cons text texts ih =>
      obtain ⟨completeFirst, completeOthers⟩ := List.forall_mem_cons.mp complete
      obtain ⟨fitsFirst, fitsOthers⟩ := List.forall_mem_cons.mp fits
      by_cases last : texts = []
      · subst last
        rwa [String.intercalate_singleton]
      · have cut : (text ++ "\n" ++ "\n".intercalate texts).toList =
            text.toList ++ '\n' :: ("\n".intercalate texts).toList := by simp
        rw [String.intercalate_cons_of_ne_nil last, FitsWithin, cut,
          lexemes_append_blank _ Text.isBlank_newline, fits_append_of_complete completeFirst]
        exact ⟨fitsFirst, ih completeOthers fitsOthers⟩

/-- Texts that are complete within a limit, with line breaks between them, are so too, and their
data are those of the texts in turn. -/
theorem readAllWithin_intercalate {texts : List String}
    (complete : ∀ text ∈ texts, (readAllWithin limit text).2 = none) :
    readAllWithin limit ("\n".intercalate texts) =
      (texts.flatMap fun text => (readAllWithin limit text).1, none) := by
  have each (text : String) (mem : text ∈ texts) :
      FitsWithin limit text ∧ readAll text = ((readAllWithin limit text).1, none) :=
    readAllWithin_complete_iff.mp (Prod.ext rfl (complete text mem))
  have completeEach (text : String) (mem : text ∈ texts) : (readAll text).2 = none := by
    rw [(each text mem).2]
  refine readAllWithin_complete_iff.mpr
    ⟨fitsWithin_intercalate completeEach fun text mem => (each text mem).1, ?_⟩
  rw [readAll_intercalate completeEach]
  exact Prod.ext (List.flatMap_congr fun text mem => by rw [(each text mem).2]) rfl

/-- If the first lines of a complete text do not end inside a datum, they are complete, and the
others are read as if they stood alone. -/
theorem readAllWithin_join_append {first rest : List String}
    (fine : Text.Lines (first ++ rest))
    (ends : (readAllWithin limit (String.join first)).2 ≠ some (.failed (.malformed .endOfText)))
    (read : readAllWithin limit (String.join (first ++ rest)) = (forms, none)) :
    ∃ data data', readAllWithin limit (String.join first) = (data, none) ∧
      readAllWithin limit (String.join rest) = (data', none) ∧ forms = data ++ data' := by
  obtain ⟨fits, whole⟩ := readAllWithin_complete_iff.mp read
  rw [FitsWithin, lexemes_join_append fine] at fits
  have fitsFirst : FitsWithin limit (String.join first) := (fits_append.mp fits).1
  have complete : (readAll (String.join first)).2 = none := by
    by_contra faulty
    obtain ⟨failure, faulty⟩ := Option.ne_none_iff_exists'.mp faulty
    have final : failure ≠ .malformed .endOfText := by
      rintro rfl
      exact ends (readAllWithin_failed_iff.mpr ⟨fitsFirst, faulty⟩)
    rw [readAll_join_append_of_fault fine faulty final] at whole
    cases faulty.symm.trans (congrArg Prod.snd whole)
  obtain ⟨-, fitsRest⟩ := (fits_append_of_complete complete).mp fits
  rw [readAll_join_append fine complete] at whole
  obtain ⟨rfl, completeRest⟩ := Prod.mk.inj whole
  exact ⟨_, _, readAllWithin_complete_iff.mpr ⟨fitsFirst, Prod.ext rfl complete⟩,
    readAllWithin_complete_iff.mpr ⟨fitsRest, Prod.ext rfl completeRest⟩, rfl⟩

end Lines

end PocketLisp
