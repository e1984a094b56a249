import PocketLisp.Proofs.Repl.Block
import PocketLisp.Proofs.Session.Forms

/-!
# What a block is answered with

The prompt loop reads a block as a whole, and evaluates its data in turn if it has no fault. What is
written for it is said here as text, value by value and with the line of the error (`Answers`). A
block breaks the conversation off if a numeral in it is too long, or if there is no room to read it,
to print a value of its forms or to explain their failure (`Breaks`). Every block does one of the
two (`answers_or_breaks`), and the loop does the same (`takeLine_of_answers`, `takeLine_of_breaks`).
-/

namespace PocketLisp

/-- What is written in a turn. -/
def Turn.text (turn : Turn) : String :=
  String.join (turn.entries.map Entry.text)

namespace Repl

open Session

/-- What is written for a block that is answered, and the session after it. The log of the session
notes every error. -/
inductive Answers (ev : Evaluator) (limits : Limits) (text : String) (m : Machine) :
    String → Machine → Prop where
  /-- The block has a fault, and none of its data are evaluated. -/
  | unreadable {fault}
      (faulty : (readAllWithin limits.reading text).2 = some (.failed (.malformed fault))) :
      Answers ev limits text m ("error: " ++ fault.message ++ "\n") (m.reported .failure)
  /-- The forms of the block all have values. -/
  | evaluated {forms values m'} (read : readAllWithin limits.reading text = (forms, none))
      (shows : Shows ev limits m forms values m') :
      Answers ev limits text m (String.join (values.map fun v => v.print ++ "\n")) m'
  /-- A form fails, and those behind it are skipped. -/
  | failed {before form skipped values failure m₁ m₂}
      (read : readAllWithin limits.reading text = (before ++ form :: skipped, none))
      (shows : Shows ev limits m before values m₁)
      (fails : ev form globalScope m₁ = .error failure m₂) (room : limits.explains failure) :
      Answers ev limits text m
        (String.join (values.map fun v => v.print ++ "\n") ++
          ("error: " ++ failure.message ++ "\n"))
        (m₂.reported .failure)

/-- What is written for a block that breaks the conversation off, why it does, and the session
then. -/
inductive Breaks (ev : Evaluator) (limits : Limits) (text : String) (m : Machine) :
    String → Escape → Machine → Prop where
  /-- The reader comes upon a numeral of so many digits, and they are too many. -/
  | longNumeral {digits}
      (refused : (readAllWithin limits.reading text).2 =
        some (.failed (.numeralTooLong digits))) :
      Breaks ev limits text m "" (.numeralTooLong digits) m
  /-- There is no room to read the block. -/
  | deepText (deep : (readAllWithin limits.reading text).2 = some .tooDeep) :
      Breaks ev limits text m "" .tooDeep m
  /-- There is no room to print the value of a form. -/
  | deepValue {before form skipped values value m₁ m₂}
      (read : readAllWithin limits.reading text = (before ++ form :: skipped, none))
      (shows : Shows ev limits m before values m₁)
      (run : ev form globalScope m₁ = .ok value m₂) (deep : ¬ limits.prints value) :
      Breaks ev limits text m (String.join (values.map fun v => v.print ++ "\n")) .tooDeep m₂
  /-- A form fails, and there is no room to explain why. -/
  | deepFailure {before form skipped values failure m₁ m₂}
      (read : readAllWithin limits.reading text = (before ++ form :: skipped, none))
      (shows : Shows ev limits m before values m₁)
      (fails : ev form globalScope m₁ = .error failure m₂) (deep : ¬ limits.explains failure) :
      Breaks ev limits text m (String.join (values.map fun v => v.print ++ "\n")) .tooDeep
        (m₂.reported .failure)

variable {ev : Evaluator} {limits : Limits} {text : String} {m m' : Machine}

/-- Every text is answered, or it breaks the conversation off. -/
theorem answers_or_breaks (ev : Evaluator) (limits : Limits) (text : String) (m : Machine) :
    (∃ output m', Answers ev limits text m output m') ∨
      ∃ output cause m', Breaks ev limits text m output cause m' := by
  obtain ⟨forms, halt, read⟩ : ∃ forms halt, readAllWithin limits.reading text = (forms, halt) :=
    ⟨_, _, rfl⟩
  have halts := congrArg Prod.snd read
  match halt with
  | some .tooDeep => exact .inr ⟨_, _, _, .deepText halts⟩
  | some (.failed (.numeralTooLong digits)) => exact .inr ⟨_, _, _, .longNumeral halts⟩
  | some (.failed (.malformed fault)) => exact .inl ⟨_, _, .unreadable halts⟩
  | none =>
      obtain ⟨values, m', shows⟩ | ⟨before, form, skipped, values, m₁, rfl, shows, stops⟩ :=
        shows_cases ev limits forms m
      · exact .inl ⟨_, _, .evaluated read shows⟩
      · obtain ⟨failure, m₂, fails⟩ | ⟨value, m₂, run, deep⟩ := stops
        · by_cases room : limits.explains failure
          · exact .inl ⟨_, _, .failed read shows fails room⟩
          · exact .inr ⟨_, _, _, .deepFailure read shows fails room⟩
        · exact .inr ⟨_, _, _, .deepValue read shows run deep⟩

section Line

variable {line output : String} {r : Repl} {cause : Escape}

/-- The text of values that are shown. -/
theorem text_values (values : List Value) :
    String.join ((values.map Entry.value).map Entry.text) =
      String.join (values.map fun v => v.print ++ "\n") := by
  rw [List.map_map]
  rfl

/-- Forms whose values are shown may be passed over. -/
theorem evalBlockAfter_of_shows {forms values : List Value}
    (shows : Shows ev limits m forms values m') (shown : List Entry) (rest : List Value) :
    evalBlockAfter ev limits shown m (forms ++ rest) =
      evalBlockAfter ev limits ((values.map Entry.value).reverse ++ shown) m' rest := by
  obtain ⟨inTurn, room⟩ := shows
  induction inTurn generalizing shown with
  | nil => rfl
  | cons run _ ih =>
      obtain ⟨first, others⟩ := List.forall_mem_cons.mp room
      rw [List.cons_append, evalBlockAfter, run]
      simp only [first, if_true]
      rw [ih _ others]
      simp

theorem evalBlock_of_shows {forms values : List Value}
    (shows : Shows ev limits m forms values m') :
    evalBlock ev limits forms m = { entries := values.map .value, next := { machine := m' } } := by
  have passed := evalBlockAfter_of_shows shows [] []
  rw [List.append_nil] at passed
  rw [evalBlock, passed, evalBlockAfter]
  simp

/-- A line that leaves the text inside a datum is kept. -/
theorem takeLine_of_endsInside (inside : EndsInside limits.reading (r.pending ++ line)) :
    r.takeLine ev limits line =
      { entries := [], next := ⟨r.machine, r.pending ++ line⟩ } := by
  obtain ⟨forms, read⟩ : ∃ forms, readAllWithin limits.reading (r.pending ++ line) =
      (forms, some (.failed (.malformed .endOfText))) := ⟨_, Prod.ext rfl inside⟩
  simp [takeLine, read]

/-- A line that completes a block without faults has its forms evaluated. -/
theorem takeLine_of_read {forms : List Value}
    (read : readAllWithin limits.reading (r.pending ++ line) = (forms, none)) :
    r.takeLine ev limits line = evalBlock ev limits forms r.machine := by
  simp [takeLine, read]

/-- A line that completes a block has it answered. -/
theorem takeLine_of_answers (ends : ¬ EndsInside limits.reading (r.pending ++ line))
    (answers : Answers ev limits (r.pending ++ line) r.machine output m') :
    let turn := r.takeLine ev limits line
    turn.text = output ∧ turn.escaped = none ∧ turn.next = { machine := m' } := by
  intro turn
  cases answers with
  | @unreadable fault faulty =>
      obtain ⟨forms, read⟩ : ∃ forms, readAllWithin limits.reading (r.pending ++ line) =
          (forms, some (.failed (.malformed fault))) := ⟨_, Prod.ext rfl faulty⟩
      have other : fault ≠ .endOfText := by
        rintro rfl
        exact ends faulty
      simp [turn, takeLine, read, Turn.text, Entry.text]
  | evaluated read shows =>
      rw [show turn = _ from takeLine_of_read read, evalBlock_of_shows shows]
      exact ⟨text_values _, rfl, rfl⟩
  | failed read shows fails room =>
      rw [show turn = _ from takeLine_of_read read, evalBlock, evalBlockAfter_of_shows shows,
        evalBlockAfter, fails]
      simp [room, Turn.text, Entry.text, Function.comp_def]

/-- A line that completes a block that breaks the conversation off does so. -/
theorem takeLine_of_breaks
    (breaks : Breaks ev limits (r.pending ++ line) r.machine output cause m') :
    let turn := r.takeLine ev limits line
    turn.text = output ∧ turn.escaped = some cause ∧ turn.next.machine = m' := by
  intro turn
  cases breaks with
  | @longNumeral digits refused =>
      obtain ⟨forms, read⟩ : ∃ forms, readAllWithin limits.reading (r.pending ++ line) =
          (forms, some (.failed (.numeralTooLong digits))) := ⟨_, Prod.ext rfl refused⟩
      simp [turn, takeLine, read, Turn.text]
  | deepText deep =>
      obtain ⟨forms, read⟩ : ∃ forms, readAllWithin limits.reading (r.pending ++ line) =
          (forms, some .tooDeep) := ⟨_, Prod.ext rfl deep⟩
      simp [turn, takeLine, read, Turn.text]
  | deepValue read shows run deep =>
      rw [show turn = _ from takeLine_of_read read, evalBlock, evalBlockAfter_of_shows shows,
        evalBlockAfter, run]
      simp [deep, Turn.text, Entry.text, Function.comp_def]
  | deepFailure read shows fails deep =>
      rw [show turn = _ from takeLine_of_read read, evalBlock, evalBlockAfter_of_shows shows,
        evalBlockAfter, fails]
      simp [deep, Turn.text, Entry.text, Function.comp_def]

end Line

end Repl

end PocketLisp
