import PocketLisp.Proofs.Repl.Answer

/-!
# Conversations, block by block

The prompt loop takes the lines of a text block by block. Behind each line but the last one of a
block it goes on collecting, so that a block comes to its prompts and to the turn of its last line
(`converseAfter_block`). Between two blocks nothing but the session is carried over. So what a
conversation writes are the prompts and the answers of its blocks, up to the first block that breaks
it off (`Answered`), and after every block it is the conversation of a new loop over the lines that
are left (`converse_by_blocks`).
-/

namespace PocketLisp

/-- The transcript with entries shown before it. -/
def Transcript.after (shown : List Entry) (t : Transcript) : Transcript :=
  { t with entries := shown ++ t.entries }

@[simp] theorem Transcript.after_after (shown shown' : List Entry) (t : Transcript) :
    (t.after shown').after shown = t.after (shown ++ shown') := by
  simp [after]

@[simp] theorem Transcript.text_after (shown : List Entry) (t : Transcript) :
    (t.after shown).text = String.join (shown.map Entry.text) ++ t.text := by
  simp [after, text]

/-- The transcript of a turn and of what follows, unless something ends the loop in this turn. -/
def Turn.andThen (turn : Turn) (following : Repl → Transcript) : Transcript :=
  match turn.escaped with
  | none => (following turn.next).after turn.entries
  | some cause => ⟨turn.entries, .escaped cause, turn.next.machine⟩

namespace Repl

/-- The prompts for so many lines of one block. -/
def prompts (prompt : String) : Nat → List Entry
  | 0 => []
  | n + 1 => .prompt prompt :: List.replicate n (.prompt continuationPrompt)

/-- What is written for blocks that are answered one after the other, and the session after them.
For each block there is a prompt for its first line, the continuation prompt for each further line,
and then its answer. -/
inductive Answered (ev : Evaluator) (limits : Limits) (prompt : String) :
    List (List String) → Machine → String → Machine → Prop where
  | nil {m} : Answered ev limits prompt [] m "" m
  | cons {block blocks m answer m₁ later m₂}
      (answers : Answers ev limits (String.join block) m answer m₁)
      (others : Answered ev limits prompt blocks m₁ later m₂) :
      Answered ev limits prompt (block :: blocks) m
        (prompt ++ String.join (List.replicate (block.length - 1) "... ") ++ answer ++ later) m₂

variable {ev : Evaluator} {limits : Limits} {prompt : String} {last : InputEnd}

section Line

variable {line : String} {r : Repl}

theorem converseAfter_eq (shown : List Entry) (r : Repl) (lines : List String) :
    converseAfter ev limits prompt last shown r lines =
      (converseAfter ev limits prompt last [] r lines).after shown.reverse := by
  induction lines generalizing shown r with
  | nil => simp [converseAfter, Transcript.after]
  | cons line lines ih =>
      rw [converseAfter, converseAfter]
      split
      · rw [ih, ih (_ ++ [_])]
        simp
      · simp [Transcript.after]

/-- A line is taken behind a prompt, and the loop goes on from there. -/
theorem converseAfter_cons (r : Repl) (line : String) (lines : List String) :
    converseAfter ev limits prompt last [] r (line :: lines) =
      ((r.takeLine ev limits line).andThen fun next =>
        converseAfter ev limits prompt last [] next lines).after [r.nextPrompt prompt] := by
  cases escapes : (r.takeLine ev limits line).escaped with
  | none =>
      simp only [converseAfter, Turn.andThen, escapes]
      rw [converseAfter_eq]
      simp
  | some cause => simp [converseAfter, Turn.andThen, escapes, Transcript.after]

end Line

section Block

variable {lines : List String} {m m' : Machine} {output : String}

/-- The prompt is the continuation prompt behind the first line of a block. -/
theorem prompts_succ (present : ∀ line ∈ lines, line ≠ "") (m : Machine) :
    prompts prompt (lines.length + 1) =
      prompts prompt lines.length ++ [nextPrompt prompt ⟨m, String.join lines⟩] := by
  cases lines with
  | nil => rfl
  | cons line lines =>
      have pending : line ≠ "" := present line List.mem_cons_self
      simp [prompts, nextPrompt, pending, List.replicate_succ']

/-- The text of the prompts for a block. -/
theorem text_prompts (n : Nat) :
    String.join ((prompts prompt (n + 1)).map Entry.text) =
      prompt ++ String.join (List.replicate n "... ") := by
  simp [prompts, Entry.text, continuationPrompt]

/-- Behind lines that are kept, a line is taken after the next prompt. -/
theorem converseAfter_concat (present : ∀ line ∈ lines, line ≠ "")
    (kept : ∀ rest, converseAfter ev limits prompt last [] { machine := m } (lines ++ rest) =
      (converseAfter ev limits prompt last [] ⟨m, String.join lines⟩ rest).after
        (prompts prompt lines.length))
    (line : String) (rest : List String) :
    converseAfter ev limits prompt last [] { machine := m } (lines ++ line :: rest) =
      ((takeLine ev limits line ⟨m, String.join lines⟩).andThen fun next =>
        converseAfter ev limits prompt last [] next rest).after
          (prompts prompt (lines.length + 1)) := by
  rw [kept, converseAfter_cons, Transcript.after_after, prompts_succ present m]

/-- Incomplete lines are kept. -/
theorem converseAfter_incomplete (ev : Evaluator) (prompt : String) (last : InputEnd)
    (incomplete : Incomplete limits.reading lines) (present : ∀ line ∈ lines, line ≠ "")
    (m : Machine) (rest : List String) :
    converseAfter ev limits prompt last [] { machine := m } (lines ++ rest) =
      (converseAfter ev limits prompt last [] ⟨m, String.join lines⟩ rest).after
        (prompts prompt lines.length) := by
  -- What is pending are the lines before, so the last of the lines is split off.
  induction lines using List.reverseRecOn generalizing rest with
  | nil => rfl
  | append_singleton lines line ih =>
      have presentBefore := (List.forall_mem_append.mp present).1
      have incompleteBefore := incomplete.of_prefix (List.prefix_append lines [line])
      have text : String.join (lines ++ [line]) = String.join lines ++ line := by simp
      have inside : EndsInside limits.reading (String.join lines ++ line) :=
        text ▸ incomplete (lines ++ [line]) (List.prefix_refl _) (by simp)
      rw [List.append_assoc, List.singleton_append,
        converseAfter_concat presentBefore (ih incompleteBefore presentBefore),
        takeLine_of_endsInside (r := ⟨m, String.join lines⟩) inside, text, List.length_append,
        List.length_singleton]
      rfl

/-- A block has its prompts shown, and its last line is taken behind the others. -/
theorem converseAfter_block (ev : Evaluator) (prompt : String) (last : InputEnd)
    (block : IsBlock limits.reading lines) (present : ∀ line ∈ lines, line ≠ "") (m : Machine) :
    ∃ before line, String.join lines = String.join before ++ line ∧ ∀ rest,
      converseAfter ev limits prompt last [] { machine := m } (lines ++ rest) =
        ((takeLine ev limits line ⟨m, String.join before⟩).andThen fun next =>
          converseAfter ev limits prompt last [] next rest).after
            (prompts prompt lines.length) := by
  obtain ⟨before, line, rfl, incomplete⟩ := block.exists_concat
  have presentBefore := (List.forall_mem_append.mp present).1
  refine ⟨before, line, by simp, fun rest => ?_⟩
  rw [List.append_assoc, List.singleton_append, List.length_append, List.length_singleton]
  exact converseAfter_concat presentBefore
    (converseAfter_incomplete ev prompt last incomplete presentBefore m) line rest

theorem IsBlock.length_pos (block : IsBlock limits.reading lines) :
    lines.length = lines.length - 1 + 1 :=
  (Nat.sub_add_cancel (List.length_pos_iff.mpr block.present)).symm

/-- A block is answered, and the loop goes on as if it had just been started. -/
theorem Answers.converseAfter_eq (prompt : String) (last : InputEnd)
    (answers : Answers ev limits (String.join lines) m output m')
    (block : IsBlock limits.reading lines) (present : ∀ line ∈ lines, line ≠ "") :
    ∃ shown, String.join (shown.map Entry.text) =
        prompt ++ String.join (List.replicate (lines.length - 1) "... ") ++ output ∧
      ∀ rest, converseAfter ev limits prompt last [] { machine := m } (lines ++ rest) =
        (converseAfter ev limits prompt last [] { machine := m' } rest).after shown := by
  obtain ⟨before, line, text, taken⟩ := converseAfter_block ev prompt last block present m
  have ends := block.ends
  rw [text] at answers ends
  obtain ⟨written, going, next⟩ := takeLine_of_answers (r := ⟨m, String.join before⟩) ends answers
  refine ⟨prompts prompt lines.length ++
    (takeLine ev limits line ⟨m, String.join before⟩).entries, ?_, fun rest => ?_⟩
  · rw [List.map_append, String.join_append, block.length_pos, text_prompts]
    exact congrArg _ written
  · rw [taken, Turn.andThen, going, next]
    simp

/-- A block breaks the conversation off behind the prompts for its lines. -/
theorem Breaks.converseAfter_eq (prompt : String) (last : InputEnd) {cause : Escape}
    (breaks : Breaks ev limits (String.join lines) m output cause m')
    (block : IsBlock limits.reading lines) (present : ∀ line ∈ lines, line ≠ "") :
    ∃ shown, String.join (shown.map Entry.text) =
        prompt ++ String.join (List.replicate (lines.length - 1) "... ") ++ output ∧
      ∀ rest, converseAfter ev limits prompt last [] { machine := m } (lines ++ rest) =
        ⟨shown, .escaped cause, m'⟩ := by
  obtain ⟨before, line, text, taken⟩ := converseAfter_block ev prompt last block present m
  rw [text] at breaks
  obtain ⟨written, escapes, reached⟩ := takeLine_of_breaks (r := ⟨m, String.join before⟩) breaks
  refine ⟨prompts prompt lines.length ++
    (takeLine ev limits line ⟨m, String.join before⟩).entries, ?_, fun rest => ?_⟩
  · rw [List.map_append, String.join_append, block.length_pos, text_prompts]
    exact congrArg _ written
  · rw [taken, Turn.andThen, escapes, reached]
    rfl

/-- Blocks are answered in turn, and the loop goes on as if it had just been started. -/
theorem Answered.converseAfter_eq {blocks : List (List String)} (last : InputEnd)
    (answered : Answered ev limits prompt blocks m output m')
    (isBlock : ∀ block ∈ blocks, IsBlock limits.reading block) {rest : List String}
    (fine : Text.Lines (blocks.flatten ++ rest)) :
    ∃ shown, String.join (shown.map Entry.text) = output ∧
      converseAfter ev limits prompt last [] { machine := m } (blocks.flatten ++ rest) =
        (converseAfter ev limits prompt last [] { machine := m' } rest).after shown := by
  induction answered with
  | nil => exact ⟨[], rfl, rfl⟩
  | cons answers _ ih =>
      obtain ⟨first, others⟩ := List.forall_mem_cons.mp isBlock
      rw [List.flatten_cons, List.append_assoc] at fine ⊢
      have present := (List.forall_mem_append.mp fine.ne_empty).1
      obtain ⟨later, laterText, run⟩ := ih others fine.of_append
      obtain ⟨shown, shownText, taken⟩ := answers.converseAfter_eq prompt last first present
      refine ⟨shown ++ later, ?_, ?_⟩
      · rw [List.map_append, String.join_append, shownText, laterText]
      · rw [taken, run, Transcript.after_after]

end Block

section Text

variable {text output : String} {m m' : Machine}

theorem Split.areLines (split : Split limits.reading (Text.lines text)) :
    Text.Lines (split.blocks.flatten ++ split.last) := by
  rw [split.whole]
  exact Text.lines_lines text

theorem Split.converse_eq (split : Split limits.reading (Text.lines text)) (m : Machine) :
    converse ev limits prompt text last m =
      converseAfter ev limits prompt last [] { machine := m }
        (split.blocks.flatten ++ split.last) := by
  rw [split.whole]
  rfl

/-- After some of the blocks of a text, the conversation is the one over the rest of the text. -/
theorem Answered.resume (last : InputEnd) {split : Split limits.reading (Text.lines text)}
    {done todo : List (List String)} (parts : split.blocks = done ++ todo)
    (answered : Answered ev limits prompt done m output m') :
    ∃ shown, String.join (shown.map Entry.text) = output ∧
      converse ev limits prompt text last m =
        (converse ev limits prompt (String.join (todo.flatten ++ split.last)) last m').after
          shown := by
  have lines := split.areLines
  rw [parts, List.flatten_append, List.append_assoc] at lines
  have isBlock := (List.forall_mem_append.mp (parts ▸ split.isBlock)).1
  obtain ⟨shown, written, run⟩ := answered.converseAfter_eq last isBlock lines
  refine ⟨shown, written, ?_⟩
  rw [split.converse_eq, parts, List.flatten_append, List.append_assoc, run, converse,
    lines.of_append.lines_join]

/-- If all blocks of a text are answered, the prompts for the lines that are left and for the end of
the input follow, and a line break. -/
theorem Answered.converse_eq (last : InputEnd) {split : Split limits.reading (Text.lines text)}
    (answered : Answered ev limits prompt split.blocks m output m') :
    let talk := converse ev limits prompt text last m
    talk.text =
        output ++ (prompt ++ String.join (List.replicate split.last.length "... ")) ++ "\n" ∧
      talk.closing = .ended last ∧ talk.machine = m' := by
  intro talk
  have present := split.areLines.of_append.ne_empty
  have kept := converseAfter_incomplete ev prompt last split.incomplete present m' []
  obtain ⟨shown, written, run⟩ := answered.converseAfter_eq last split.isBlock split.areLines
  have ended : talk = ⟨shown ++ prompts prompt (split.last.length + 1) ++ [.farewell],
      .ended last, m'⟩ := by
    rw [List.append_nil] at kept
    rw [show talk = _ from split.converse_eq m, run, kept, prompts_succ present m']
    simp [converseAfter, Transcript.after]
  rw [ended]
  refine ⟨?_, rfl, rfl⟩
  rw [Transcript.text, List.map_append, List.map_append, String.join_append, String.join_append,
    written, text_prompts]
  rfl

/-- A block of a text that is reached and breaks the conversation off is the end of it. -/
theorem Answered.converse_of_breaks (last : InputEnd)
    {split : Split limits.reading (Text.lines text)}
    {done todo : List (List String)} {block : List String} {answer : String} {cause : Escape}
    {m₁ : Machine} (parts : split.blocks = done ++ block :: todo)
    (answered : Answered ev limits prompt done m output m₁)
    (breaks : Breaks ev limits (String.join block) m₁ answer cause m') :
    let talk := converse ev limits prompt text last m
    talk.text = output ++
        (prompt ++ String.join (List.replicate (block.length - 1) "... ") ++ answer) ∧
      talk.closing = .escaped cause ∧ talk.machine = m' := by
  intro talk
  have lines := split.areLines
  simp only [parts, List.flatten_append, List.flatten_cons, List.append_assoc] at lines
  obtain ⟨isBlock, first, -⟩ : (∀ lines ∈ done, IsBlock limits.reading lines) ∧
      IsBlock limits.reading block ∧ _ := by
    simpa only [parts, List.forall_mem_append, List.forall_mem_cons] using split.isBlock
  have present := (List.forall_mem_append.mp lines.of_append.ne_empty).1
  obtain ⟨before, writtenBefore, run⟩ := answered.converseAfter_eq last isBlock lines
  obtain ⟨shown, written, broken⟩ := breaks.converseAfter_eq prompt last first present
  have ended : talk = ⟨before ++ shown, .escaped cause, m'⟩ := by
    rw [show talk = _ from split.converse_eq m, parts]
    simp only [List.flatten_append, List.flatten_cons, List.append_assoc]
    rw [run, broken]
    rfl
  rw [ended]
  refine ⟨?_, rfl, rfl⟩
  rw [Transcript.text, List.map_append, String.join_append, writtenBefore, written]

/-- Blocks are answered up to the first one that breaks the conversation off. -/
theorem answered_or_breaks (ev : Evaluator) (limits : Limits) (prompt : String)
    (blocks : List (List String)) (m : Machine) :
    (∃ output m', Answered ev limits prompt blocks m output m') ∨
      ∃ done block todo output m₁ answer cause m₂, blocks = done ++ block :: todo ∧
        Answered ev limits prompt done m output m₁ ∧
        Breaks ev limits (String.join block) m₁ answer cause m₂ := by
  induction blocks generalizing m with
  | nil => exact .inl ⟨_, _, .nil⟩
  | cons block blocks ih =>
      obtain ⟨answer, m₁, answers⟩ | ⟨answer, cause, m₁, breaks⟩ :=
        answers_or_breaks ev limits (String.join block) m
      · obtain ⟨later, m', answered⟩ | ⟨done, other, todo, later, m₂, shown, cause, m', rfl,
          answered, breaks⟩ := ih m₁
        · exact .inl ⟨_, _, .cons answers answered⟩
        · exact .inr ⟨block :: done, other, todo, _, _, _, _, _, rfl, .cons answers answered,
            breaks⟩
      · exact .inr ⟨[], block, blocks, _, _, _, _, _, rfl, .nil, breaks⟩

/-- Each block of a text without too long numerals has none. -/
theorem shortNumerals_block {blocks : List (List String)} {rest : List String}
    (fine : Text.Lines (blocks.flatten ++ rest))
    (short : ShortNumerals (String.join (blocks.flatten ++ rest))) :
    ∀ block ∈ blocks, ShortNumerals (String.join block) := by
  induction blocks with
  | nil => exact List.forall_mem_nil _
  | cons block blocks ih =>
      rw [List.flatten_cons, List.append_assoc] at fine short
      rw [shortNumerals_iff, lexemes_join_append fine, List.forall_mem_append] at short
      exact List.forall_mem_cons.mpr ⟨shortNumerals_iff.mpr short.1,
        ih fine.of_append (shortNumerals_iff.mpr short.2)⟩

/-- A block without too long numerals breaks the conversation off only for want of room. -/
theorem Breaks.cause_eq_tooDeep {cause : Escape} (short : ShortNumerals text)
    (breaks : Breaks ev limits text m output cause m') : cause = .tooDeep := by
  cases breaks with
  | longNumeral refused =>
      obtain ⟨-, faulty⟩ := readAllWithin_failed_iff.mp refused
      obtain ⟨_, malformed⟩ := malformed_of_readAll short faulty
      cases malformed
  | deepText | deepValue | deepFailure => rfl

end Text

/-- A conversation over a text without too long numerals goes block by block. Its lines split into
blocks and incomplete lines in one way only. For each block its prompts are written and then its
answer: if it does not read, this is the line of the error, and none of it is evaluated; otherwise
it is the values of its forms up to the first one that fails, and then the line of that error.
Incomplete lines at the end are dropped. This goes on to the end of the input, unless a block is
nested too deeply for the host, or a value that is to be written for it.

After any of the blocks that were answered, the conversation is the one that a new loop has over the
rest of the text, from the session that was reached. -/
theorem converse_by_blocks (ev : Evaluator) (limits : Limits) (prompt : String) {text : String}
    (short : ShortNumerals text) (last : InputEnd) (m : Machine) :
    let talk := converse ev limits prompt text last m
    ∃ split : Split limits.reading (Text.lines text), (∀ other, other = split) ∧
      ((∃ output m', Answered ev limits prompt split.blocks m output m' ∧
          talk.text =
            output ++ (prompt ++ String.join (List.replicate split.last.length "... ")) ++ "\n" ∧
          talk.closing = .ended last ∧ talk.machine = m') ∨
        ∃ done block todo output m₁ answer m₂, split.blocks = done ++ block :: todo ∧
          Answered ev limits prompt done m output m₁ ∧
          Breaks ev limits (String.join block) m₁ answer .tooDeep m₂ ∧
          talk.text = output ++
            (prompt ++ String.join (List.replicate (block.length - 1) "... ") ++ answer) ∧
          talk.closing = .escaped .tooDeep ∧ talk.machine = m₂) ∧
      ∀ done todo output m₁, split.blocks = done ++ todo →
        Answered ev limits prompt done m output m₁ →
        let rest := converse ev limits prompt (String.join (todo.flatten ++ split.last)) last m₁
        talk.text = output ++ rest.text ∧ talk.closing = rest.closing ∧
          talk.machine = rest.machine := by
  intro talk
  obtain ⟨split⟩ := Split.exists limits.reading (Text.lines text)
  have shortBlocks : ∀ block ∈ split.blocks, ShortNumerals (String.join block) :=
    shortNumerals_block split.areLines (by rwa [split.whole, Text.join_lines])
  refine ⟨split, fun other => other.unique split, ?_, fun done todo output m₁ parts answered => ?_⟩
  · obtain ⟨output, m', answered⟩ | ⟨done, block, todo, output, m₁, answer, cause, m₂, parts,
      answered, breaks⟩ := answered_or_breaks ev limits prompt split.blocks m
    · exact .inl ⟨output, m', answered, answered.converse_eq last⟩
    · obtain rfl : cause = .tooDeep := breaks.cause_eq_tooDeep (shortBlocks block (by simp [parts]))
      exact .inr ⟨done, block, todo, output, m₁, answer, m₂, parts, answered, breaks,
        answered.converse_of_breaks last parts breaks⟩
  · obtain ⟨shown, rfl, run⟩ := answered.resume last parts
    rw [show talk = _ from run]
    exact ⟨Transcript.text_after _ _, rfl, rfl⟩

/-- A block of two lines, one that does not read, one whose second form is skipped, and a line that
is incomplete. -/
theorem converse_by_three_blocks :
    let text := "(+ 1\n 2)\n)\n(car 'x) 'y\n("
    let limits : Limits := ⟨5, 5, 5⟩
    ShortNumerals text ∧ ∃ split : Split limits.reading (Text.lines text),
      split.blocks = [["(+ 1\n", " 2)\n"], [")\n"], ["(car 'x) 'y\n"]] ∧ split.last = ["("] ∧
      ∃ output m', Answered (evaluate 9) limits "> " split.blocks Session.start output m' ∧
        output ++ ("> " ++ String.join (List.replicate split.last.length "... ")) ++ "\n" =
          "> ... 3\n> error: Unmatched closed parenthesis\n" ++
          "> error: The value x is not of type Cons\n> ... \n" := by
  intro text limits
  have short : ShortNumerals text := by decide
  have ended : (converse (evaluate 9) limits "> " text .exhausted Session.start).closing =
      .ended .exhausted := by decide +kernel
  obtain ⟨split, unique, run, -⟩ :=
    converse_by_blocks (evaluate 9) limits "> " short .exhausted Session.start
  obtain ⟨output, m', answered, written, -⟩ | ⟨_, _, _, _, _, _, _, _, _, _, _, broken, -⟩ := run
  · have first : IsBlock limits.reading ["(+ 1\n", " 2)\n"] :=
      (incomplete_nil.concat (by decide +kernel)).isBlock (by decide +kernel)
    have second : IsBlock limits.reading [")\n"] := incomplete_nil.isBlock (by decide +kernel)
    have third : IsBlock limits.reading ["(car 'x) 'y\n"] :=
      incomplete_nil.isBlock (by decide +kernel)
    obtain rfl := unique
      { blocks := [["(+ 1\n", " 2)\n"], [")\n"], ["(car 'x) 'y\n"]]
        last := ["("]
        whole := by decide
        isBlock := by simp [first, second, third]
        incomplete := incomplete_nil.concat (by decide +kernel) }
    exact ⟨short, _, rfl, rfl, output, m', answered, written.symm.trans (by decide +kernel)⟩
  · cases ended.symm.trans broken

end Repl

end PocketLisp
