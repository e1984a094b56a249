import PocketLisp.Proofs.Repl.Conversation

/-!
# What ends a conversation early

The prompt loop answers every block of a text, whatever its faults and failures are, unless the
block breaks the conversation off. The lines behind such a block are not taken. So a conversation
comes to the end of its input exactly if no block is reached that breaks it off (`converse_ends`).

One kind of block does so on every host: one in which the reader comes upon a numeral of too many
digits (`converse_long_line`). Nothing is written for it but its prompts.
-/

namespace PocketLisp

/-- A text that begins with a numeral of too many digits is refused for it, whatever the limit
is. -/
theorem readAllWithin_of_long {chars rest : List Char} {numeral : Text.Numeral}
    (spells : Text.Numeral.Spells chars numeral) (long : Text.digitLimit < numeral.digits.length)
    (delimited : Delimited rest) (limit : Nat) :
    readAllWithin limit (String.ofList (chars ++ rest)) =
      ([], some (.failed (.numeralTooLong numeral.digits.length))) := by
  have refused : readAtom (String.ofList chars) = .error (.numeralTooLong numeral.digits.length) :=
    readAtom_of_long (by rwa [String.toList_ofList]) long
  have first : Reader.acceptDatum (.atom (String.ofList chars)) [] =
      .failed (.numeralTooLong numeral.digits.length) := by
    rw [Reader.accept_atom fun _ => by simp [Reader.NoPointHere], refused]
    rfl
  have text : lexemes (String.ofList (chars ++ rest)).toList =
      .atom (String.ofList chars) :: lexemes rest := by
    rw [String.toList_ofList, lexemes_atom spells.atomText delimited]
  have fits : FitsWithin limit (String.ofList (chars ++ rest)) := by
    rw [FitsWithin, text]
    exact Reader.fits_cons_of_error (.inl first)
  rw [readAllWithin_of_fits fits, readAll_eq_feed, text, Reader.feed_cons]
  change (((Reader.acceptDatum _ []).andThen _).data,
    ((Reader.acceptDatum _ []).andThen _).failure.map _) = _
  rw [first]
  rfl

namespace Repl

/-- A conversation comes to the end of its input, whatever the text and the session are, exactly if
no block is reached that breaks it off. Then every block is answered, with the line of an error in
the place of what fails, and a line break follows the last prompt. Otherwise the blocks before the
first one that breaks the conversation off are answered, and it ends with what is written for that
block. -/
theorem converse_ends (ev : Evaluator) (limits : Limits) (prompt text : String) (last : InputEnd)
    (m : Machine) :
    let talk := converse ev limits prompt text last m
    ∃ split : Split limits.reading (Text.lines text), (∀ other, other = split) ∧
      (talk.closing = .ended last ↔
        ∀ done block todo output m₁, split.blocks = done ++ block :: todo →
          Answered ev limits prompt done m output m₁ →
          ∀ answer cause m₂, ¬ Breaks ev limits (String.join block) m₁ answer cause m₂) ∧
      ((∃ output m', Answered ev limits prompt split.blocks m output m' ∧
          talk.text =
            output ++ (prompt ++ String.join (List.replicate split.last.length "... ")) ++ "\n" ∧
          talk.closing = .ended last ∧ talk.machine = m') ∨
        ∃ done block todo output m₁ answer cause m₂, split.blocks = done ++ block :: todo ∧
          Answered ev limits prompt done m output m₁ ∧
          Breaks ev limits (String.join block) m₁ answer cause m₂ ∧
          talk.text = output ++
            (prompt ++ String.join (List.replicate (block.length - 1) "... ") ++ answer) ∧
          talk.closing = .escaped cause ∧ talk.machine = m₂) := by
  intro talk
  obtain ⟨split⟩ := Split.exists limits.reading (Text.lines text)
  refine ⟨split, fun other => other.unique split, ?_⟩
  obtain ⟨output, m', answered⟩ | ⟨done, block, todo, output, m₁, answer, cause, m₂, parts,
    answered, breaks⟩ := answered_or_breaks ev limits prompt split.blocks m
  · have run := answered.converse_eq last
    refine ⟨iff_of_true run.2.1 ?_, .inl ⟨output, m', answered, run⟩⟩
    intro done block todo before m₁ parts answeredBefore answer cause m₂ breaks
    have broken := (answeredBefore.converse_of_breaks last parts breaks).2.1
    cases run.2.1.symm.trans broken
  · have run := answered.converse_of_breaks last parts breaks
    refine ⟨iff_of_false ?_ ?_, .inr ⟨done, block, todo, output, m₁, answer, cause, m₂, parts,
      answered, breaks, run⟩⟩
    · intro ended
      cases ended.symm.trans run.2.1
    · intro fine
      exact fine done block todo output m₁ parts answered answer cause m₂ breaks

/-- A line that is a numeral of too many digits ends the conversation, and nothing behind it is
taken. -/
theorem converse_long_line (ev : Evaluator) (limits : Limits) (prompt : String)
    {digits : List Nat} (small : ∀ d ∈ digits, d < 10) (long : Text.digitLimit < digits.length)
    (more : String) (last : InputEnd) (m : Machine) :
    converse ev limits prompt (String.ofList (digits.map Nat.digitChar) ++ "\n" ++ more) last m =
      ⟨[.prompt prompt], .escaped (.numeralTooLong digits.length), m⟩ := by
  have present : digits ≠ [] := List.ne_nil_of_length_pos (Nat.zero_lt_of_lt long)
  have spells := Text.Numeral.Spells.unsigned present small
  have read := readAllWithin_of_long spells long (.blank Text.isBlank_newline []) limits.reading
  rw [String.ofList_append] at read
  have unended : '\n' ∉ (String.ofList (digits.map Nat.digitChar)).toList := by
    rw [String.toList_ofList]
    exact fun mem => absurd (Text.isDigit_of_mem_digits small mem) (by decide)
  have taken : takeLine ev limits (String.ofList (digits.map Nat.digitChar) ++ "\n")
      { machine := m } =
        { entries := [], escaped := some (.numeralTooLong digits.length),
          next := { machine := m } } := by
    simp [takeLine, read]
  rw [converse, Text.lines_append_newline unended, converseAfter, taken]
  rfl

/-- The line behind the numeral could be answered, and is not. -/
theorem converse_stops_at_long_numeral :
    let talk := converse (evaluate 9) ⟨5, 5, 5⟩ "> "
      (String.ofList (List.replicate 4301 '1') ++ "\n" ++ "2\n") .exhausted Session.start
    talk.text = "> " ∧ talk.closing = .escaped (.numeralTooLong 4301) := by
  intro talk
  have small : ∀ d ∈ List.replicate 4301 1, d < 10 := fun d mem => by
    rw [List.eq_of_mem_replicate mem]
    decide
  have long : Text.digitLimit < (List.replicate 4301 1).length := by
    rw [List.length_replicate]
    decide
  have run := converse_long_line (evaluate 9) ⟨5, 5, 5⟩ "> " small long "2\n" .exhausted
    Session.start
  rw [List.map_replicate, List.length_replicate] at run
  rw [show talk = _ from run]
  exact ⟨by decide, rfl⟩

end Repl

end PocketLisp
