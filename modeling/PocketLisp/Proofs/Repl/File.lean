import PocketLisp.Proofs.CommandLine.FileRun
import PocketLisp.Proofs.Repl.Conversation

/-!
# Conversations and files

A text that a file run evaluates to its end shows the same values in a conversation, and leads to
the same session. The file run reads the text as a whole and the prompt loop reads it block by
block, but every block of a text without faults is complete, so the data of the text are those of
its blocks, and nothing of it is left behind the last block (`converseAfter_of_complete`).
-/

namespace PocketLisp

/-- Whether an entry is a prompt. -/
def Entry.isPrompt : Entry → Bool
  | prompt _ => true
  | value _ | error _ | farewell => false

/-- What is shown apart from the prompts. -/
def Repl.replies (shown : List Entry) : List Entry :=
  shown.filter (!·.isPrompt)

/-- A file that is evaluated to its end shows the values of the text that it contains. -/
theorem CommandLine.runFile_complete {ev : Evaluator} {limits : Limits} {path : Path}
    {text : String} {m : Machine}
    (complete : (runFile ev limits path (.ok text.toUTF8) m).verdict = .complete) :
    ∃ forms values m', runFile ev limits path (.ok text.toUTF8) m = ⟨values, .complete, m'⟩ ∧
      readAllWithin limits.reading text = (forms, none) ∧
      Session.Shows ev limits m forms values m' := by
  have ends := fileEnds_runFile ev limits (fun _ => .ok text.toUTF8) path m
  generalize runFile ev limits path (.ok text.toUTF8) m = result at complete ends
  cases ends with
  | @complete text' forms values m' opens read shows =>
      obtain rfl : text = text' := Option.some.inj
        ((fromUTF8?_eq_some_iff.mpr rfl).symm.trans
          (fromUTF8?_eq_some_iff.mpr (Except.ok.inj opens).symm))
      exact ⟨forms, values, m', rfl, read, shows⟩
  | unopened | malformed | failing | deepText | deepValue | nulInPath | notUnicode | longNumeral
  | deepFailure => cases complete

/-- Forms whose values are all printed are evaluated in two parts. -/
theorem Session.Shows.of_append {ev : Evaluator} {limits : Limits} {m m' : Machine}
    {forms more values : List Value} (shows : Shows ev limits m (forms ++ more) values m') :
    ∃ first rest m₁, Shows ev limits m forms first m₁ ∧ Shows ev limits m₁ more rest m' ∧
      values = first ++ rest := by
  obtain ⟨first, rest, m₁, runFirst, runRest, split⟩ :=
    evalForms_append_complete shows.evalForms_eq
  exact ⟨first, rest, m₁, shows_of_evalForms runFirst, shows_of_evalForms runRest, split⟩

namespace Repl

section Prompts

variable {prompt : String} {shown later : List Entry}

theorem countP_prompts (n : Nat) : (prompts prompt n).countP Entry.isPrompt = n := by
  cases n <;> simp [prompts, List.countP_cons, List.countP_replicate, Entry.isPrompt]

theorem countP_values (values : List Value) :
    (values.map Entry.value).countP Entry.isPrompt = 0 := by
  simp [Entry.isPrompt]

theorem replies_append : replies (shown ++ later) = replies shown ++ replies later :=
  List.filter_append shown later

theorem replies_prompts (n : Nat) : replies (prompts prompt n) = [] := by
  cases n <;> simp [prompts, replies, Entry.isPrompt]

theorem replies_values (values : List Value) :
    replies (values.map .value) = values.map .value := by
  simp [replies, Entry.isPrompt]

end Prompts

section Complete

variable {ev : Evaluator} {limits : Limits} (prompt : String) (last : InputEnd)

/-- A block without faults whose forms have values that are printed shows them behind its
prompts. -/
theorem converseAfter_of_shows {block : List String} {forms values : List Value} {m m' : Machine}
    (isBlock : IsBlock limits.reading block) (present : ∀ line ∈ block, line ≠ "")
    (read : readAllWithin limits.reading (String.join block) = (forms, none))
    (shows : Session.Shows ev limits m forms values m') (rest : List String) :
    converseAfter ev limits prompt last [] { machine := m } (block ++ rest) =
      (converseAfter ev limits prompt last [] { machine := m' } rest).after
        (prompts prompt block.length ++ values.map .value) := by
  obtain ⟨before, line, text, taken⟩ := converseAfter_block ev prompt last isBlock present m
  rw [text] at read
  rw [taken, takeLine_of_read (r := ⟨m, String.join before⟩) read, evalBlock_of_shows shows]
  simp [Turn.andThen]

/-- If the blocks and the lines behind them are a text without faults whose forms have values that
are printed, there are no such lines, and the blocks show these values behind their prompts. -/
theorem converseAfter_of_complete {blocks : List (List String)} {rest : List String}
    {forms values : List Value} {m m' : Machine} (fine : Text.Lines (blocks.flatten ++ rest))
    (isBlock : ∀ block ∈ blocks, IsBlock limits.reading block)
    (incomplete : Incomplete limits.reading rest)
    (read : readAllWithin limits.reading (String.join (blocks.flatten ++ rest)) = (forms, none))
    (shows : Session.Shows ev limits m forms values m') :
    rest = [] ∧ ∃ shown, replies shown = values.map .value ∧
      shown.countP Entry.isPrompt = blocks.flatten.length ∧
      converseAfter ev limits prompt last [] { machine := m } blocks.flatten =
        (converseAfter ev limits prompt last [] { machine := m' } []).after shown := by
  induction blocks generalizing forms values m with
  | nil =>
      obtain rfl : rest = [] := incomplete.eq_nil (congrArg Prod.snd read)
      have nothing : readAllWithin limits.reading (String.join []) = ([], none) :=
        readAllWithin_complete_iff.mpr ⟨Reader.fits_nil, by decide +kernel⟩
      cases nothing.symm.trans read
      cases shows.evalForms_eq
      exact ⟨rfl, [], rfl, rfl, rfl⟩
  | cons block blocks ih =>
      -- The first block is complete, so the reading and the evaluation are both cut behind it.
      obtain ⟨first, others⟩ := List.forall_mem_cons.mp isBlock
      rw [List.flatten_cons, List.append_assoc] at fine read
      have present := (List.forall_mem_append.mp fine.ne_empty).1
      obtain ⟨data, data', readFirst, readRest, rfl⟩ :=
        readAllWithin_join_append fine first.ends read
      obtain ⟨firstValues, laterValues, m₁, showsFirst, showsRest, rfl⟩ := shows.of_append
      obtain ⟨ended, later, laterReplies, count, run⟩ :=
        ih fine.of_append others readRest showsRest
      refine ⟨ended, prompts prompt block.length ++ firstValues.map .value ++ later, ?_, ?_, ?_⟩
      · rw [replies_append, replies_append, replies_prompts, replies_values, laterReplies,
          List.map_append, List.nil_append]
      · rw [List.countP_append, List.countP_append, countP_prompts, countP_values, count,
          List.flatten_cons, List.length_append, Nat.add_zero]
      · rw [List.flatten_cons,
          converseAfter_of_shows prompt last first present readFirst showsFirst, run,
          Transcript.after_after]

end Complete

/-- If a file is evaluated to its end, a conversation over its contents comes to its end too,
however the input ends. What it shows apart from the prompts is what the file run prints, and a
newline. It leads to the same session. There is one prompt for each line, and one for the end of the
input. -/
theorem converse_agrees_with_file (ev : Evaluator) (limits : Limits) (prompt : String)
    (path : CommandLine.Path) (text : String) (last : InputEnd) (m : Machine)
    (complete : (CommandLine.runFile ev limits path (.ok text.toUTF8) m).verdict = .complete) :
    let talk := converse ev limits prompt text last m
    let file := CommandLine.runFile ev limits path (.ok text.toUTF8) m
    talk.closing = .ended last ∧
      String.join ((replies talk.entries).map Entry.text) =
        String.join (file.values.map fun v => v.print ++ "\n") ++ "\n" ∧
      talk.machine = file.machine ∧
      ∃ shown, talk.entries = shown ++ [.prompt prompt, .farewell] ∧
        shown.countP Entry.isPrompt = (Text.lines text).length := by
  obtain ⟨forms, values, m', file, read, shows⟩ := CommandLine.runFile_complete complete
  obtain ⟨split⟩ := Split.exists limits.reading (Text.lines text)
  have whole : readAllWithin limits.reading (String.join (split.blocks.flatten ++ split.last)) =
      (forms, none) := by rwa [split.whole, Text.join_lines]
  obtain ⟨ended, shown, shownReplies, count, run⟩ :=
    converseAfter_of_complete prompt last split.areLines split.isBlock split.incomplete whole shows
  have lines : split.blocks.flatten = Text.lines text := by simpa [ended] using split.whole
  have talk : converse ev limits prompt text last m =
      ⟨shown ++ [.prompt prompt, .farewell], .ended last, m'⟩ := by
    rw [converse, ← lines, run]
    rfl
  rw [file, talk]
  refine ⟨rfl, ?_, rfl, shown, rfl, by rw [count, lines]⟩
  rw [replies_append, shownReplies, List.map_append, String.join_append, text_values]
  rfl

/-- Lines that end inside a list, after a quote mark and after a point, an empty one, and several
data on one line. -/
theorem converse_agrees_with_file_of_lines :
    let contents := "(define x\n1) (+ x 2)\n'\n\n(a .\nb)"
    let limits : Limits := ⟨5, 5, 5⟩
    (CommandLine.runFile (evaluate 9) limits (.ofText "f") (.ok contents.toUTF8)
      Session.start).verdict = .complete ∧
    String.join ((replies (converse (evaluate 9) limits "> " contents .exhausted
      Session.start).entries).map Entry.text) = "1\n3\n(a . b)\n\n" := by
  intro contents limits
  have complete : (CommandLine.runFile (evaluate 9) limits (.ofText "f") (.ok contents.toUTF8)
      Session.start).verdict = .complete := by decide +kernel
  obtain ⟨-, output, -⟩ :=
    converse_agrees_with_file (evaluate 9) limits "> " _ contents .exhausted _ complete
  exact ⟨complete, output.trans (by decide +kernel)⟩

end Repl

end PocketLisp
