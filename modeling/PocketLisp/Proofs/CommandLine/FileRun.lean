import PocketLisp.CommandLine.Run
import PocketLisp.Proofs.Reader.Reach
import PocketLisp.Proofs.Session.Forms

/-!
# How a run over files ends

A file is evaluated to its end if its text has no fault, all its forms have values and there is room
for all of this. Otherwise it ends the run: it does not open, its text has a fault, a form fails, or
there is no room to read on or to print a value. These endings are explained. What is not explained
escapes: a path that is none, bytes that spell no text, numerals of too many digits, and failures
that there is no room to explain. `FileEnds` says when each happens. A run is complete if all files
are evaluated to their ends (`Completed`), or there is a first file that stops it (`Stopped`); the
values printed are those of all forms before, and nothing behind is evaluated
(`completed_or_stopped`).

So the program explains every bad file in a line of its own, and returns, except where something
escapes (`run_escapes_iff`).
-/

namespace PocketLisp.CommandLine

open Session

/-- How the evaluation of a file goes that starts in the state `m`. -/
inductive FileEnds (ev : Evaluator) (limits : Limits) (files : Files) (path : Path) (m : Machine) :
    FileRun → Prop where
  /-- The text of the file has no fault, and all its forms have values. -/
  | complete {text forms values m'} (opens : files path = .ok text.toUTF8)
      (read : readAllWithin limits.reading text = (forms, none))
      (shows : Shows ev limits m forms values m') :
      FileEnds ev limits files path m ⟨values, .complete, m'⟩
  /-- The file does not open. -/
  | unopened {reason} (refused : files path = .error (.system reason)) :
      FileEnds ev limits files path m
        ⟨[], .unopened ("cannot read " ++ path.text ++ ": " ++ reason), m⟩
  /-- The text has a fault, and all forms in front of it have values. -/
  | malformed {text forms fault values m'} (opens : files path = .ok text.toUTF8)
      (read : readAllWithin limits.reading text = (forms, some (.failed (.malformed fault))))
      (shows : Shows ev limits m forms values m') :
      FileEnds ev limits files path m ⟨values, .failed fault.message, m'⟩
  /-- A form fails, and all forms before it have values. What is behind it does not matter. -/
  | failing {text before form skipped halt values failure m₁ m₂}
      (opens : files path = .ok text.toUTF8)
      (read : readAllWithin limits.reading text = (before ++ form :: skipped, halt))
      (shows : Shows ev limits m before values m₁)
      (fails : ev form globalScope m₁ = .error failure m₂) (room : limits.explains failure) :
      FileEnds ev limits files path m ⟨values, .failed failure.message, m₂⟩
  /-- There is no room to read on, and all forms before have values. -/
  | deepText {text forms values m'} (opens : files path = .ok text.toUTF8)
      (read : readAllWithin limits.reading text = (forms, some .tooDeep))
      (shows : Shows ev limits m forms values m') :
      FileEnds ev limits files path m ⟨values, .failed "maximum recursion depth exceeded", m'⟩
  /-- There is no room to print the value of a form, and all forms before it have values that are
  printed. What is behind it does not matter. -/
  | deepValue {text before form skipped halt values value m₁ m₂}
      (opens : files path = .ok text.toUTF8)
      (read : readAllWithin limits.reading text = (before ++ form :: skipped, halt))
      (shows : Shows ev limits m before values m₁)
      (run : ev form globalScope m₁ = .ok value m₂) (deep : ¬ limits.prints value) :
      FileEnds ev limits files path m ⟨values, .failed "maximum recursion depth exceeded", m₂⟩
  /-- The path has the character NUL in it. -/
  | nulInPath (refused : files path = .error .nulInPath) :
      FileEnds ev limits files path m ⟨[], .escaped .nulInPath, m⟩
  /-- The bytes of the file spell no text. -/
  | notUnicode {bytes} (opens : files path = .ok bytes)
      (other : ∀ text : String, text.toUTF8 ≠ bytes) :
      FileEnds ev limits files path m ⟨[], .escaped .notUnicode, m⟩
  /-- The reader comes upon a numeral of too many digits, and all forms in front of it have
  values. -/
  | longNumeral {text forms digits values m'} (opens : files path = .ok text.toUTF8)
      (read : readAllWithin limits.reading text =
        (forms, some (.failed (.numeralTooLong digits))))
      (shows : Shows ev limits m forms values m') :
      FileEnds ev limits files path m ⟨values, .escaped (.numeralTooLong digits), m'⟩
  /-- A form fails, and there is no room to explain why. -/
  | deepFailure {text before form skipped halt values failure m₁ m₂}
      (opens : files path = .ok text.toUTF8)
      (read : readAllWithin limits.reading text = (before ++ form :: skipped, halt))
      (shows : Shows ev limits m before values m₁)
      (fails : ev form globalScope m₁ = .error failure m₂) (deep : ¬ limits.explains failure) :
      FileEnds ev limits files path m ⟨values, .escaped .tooDeep, m₂⟩

/-- All files are evaluated to their ends, one after the other: the values of their forms, and the
state after them. -/
inductive Completed (ev : Evaluator) (limits : Limits) (files : Files) :
    List Path → Machine → List Value → Machine → Prop where
  | nil {m} : Completed ev limits files [] m [] m
  | cons {path paths values later m m₁ m₂}
      (first : FileEnds ev limits files path m ⟨values, .complete, m₁⟩)
      (others : Completed ev limits files paths m₁ later m₂) :
      Completed ev limits files (path :: paths) m (values ++ later) m₂

/-- Some file is the first that is not evaluated to its end: what the run comes to there. What is
behind that file does not matter. -/
inductive Stopped (ev : Evaluator) (limits : Limits) (files : Files) :
    List Path → Machine → FileRun → Prop where
  | first {done path rest values more verdict m m₁ m₂}
      (completed : Completed ev limits files done m values m₁)
      (ends : FileEnds ev limits files path m₁ ⟨more, verdict, m₂⟩)
      (early : verdict ≠ .complete) :
      Stopped ev limits files (done ++ path :: rest) m ⟨values ++ more, verdict, m₂⟩

variable {ev : Evaluator} {limits : Limits} {files : Files} {path : Path} {m m' : Machine}

section File

theorem fromUTF8?_eq_some_iff {bytes : ByteArray} {text : String} :
    String.fromUTF8? bytes = some text ↔ text.toUTF8 = bytes := by
  unfold String.fromUTF8?
  constructor
  · intro decoded
    split at decoded
    · cases decoded
      rfl
    · cases decoded
  · rintro rfl
    exact dif_pos text.isValidUTF8

/-- The verdict on a file whose forms all have values that are printed. -/
def Verdict.ofHalt : Option Halt → Verdict
  | none => .complete
  | some (.failed (.malformed fault)) => .failed fault.message
  | some (.failed (.numeralTooLong digits)) => .escaped (.numeralTooLong digits)
  | some .tooDeep => .failed EvalFailure.tooDeep.message

/-- A file whose bytes spell a text is evaluated as the list of the data that are read from the text
within the limit, and then comes what ends the reading. -/
theorem runFile_text (limits : Limits) (text : String) :
    ∃ (fault : Option ReadFailure) (cut : Bool),
      (readAllWithin limits.reading text).2 = (if cut then some .tooDeep else fault.map .failed) ∧
      ∀ ev path m,
        let run := evalForms (limits.evalPrinted ev) (readAllWithin limits.reading text).1 m
        runFile ev limits path (.ok text.toUTF8) m =
          ⟨run.1.values, .of limits (run.1.failure.or (fault.map .reading)) cut, run.2⟩ := by
  let c := (Cursor.ofText text).within limits.reading
  refine ⟨c.1.readAll.2.1, c.2, rfl, fun ev path m => ?_⟩
  simp only [runFile, fromUTF8?_eq_some_iff.mpr rfl, runText, evalAfter_readAll]
  rfl

/-- If all data that are read have values that are printed, the way in which reading ends
decides. -/
theorem runFile_of_shows {text : String} {forms values : List Value} {halt : Option Halt}
    (read : readAllWithin limits.reading text = (forms, halt))
    (shows : Shows ev limits m forms values m') :
    runFile ev limits path (.ok text.toUTF8) m = ⟨values, .ofHalt halt, m'⟩ := by
  obtain ⟨fault, cut, halts, run⟩ := runFile_text limits text
  rw [read] at halts run
  rw [run, shows.evalForms_eq, show halt = _ from halts]
  cases cut with
  | true => cases fault <;> rfl
  | false =>
      match fault with
      | none | some (.malformed _) | some (.numeralTooLong _) => rfl

/-- The first form that fails or has a value that cannot be printed decides. -/
theorem runFile_of_error {text : String} {before skipped values : List Value} {form : Value}
    {halt : Option Halt} {failure : EvalFailure} {m₁ : Machine}
    (read : readAllWithin limits.reading text = (before ++ form :: skipped, halt))
    (shows : Shows ev limits m before values m₁)
    (fails : limits.evalPrinted ev form globalScope m₁ = .error failure m') :
    runFile ev limits path (.ok text.toUTF8) m =
      ⟨values, if limits.explains failure then .failed failure.message else .escaped .tooDeep,
        m'⟩ := by
  obtain ⟨fault, cut, -, run⟩ := runFile_text limits text
  rw [read] at run
  rw [run, evalForms_append shows.evalForms_eq, evalForms_of_error fails]
  simp [Results.after, Verdict.of]

/-- A file goes as `FileEnds` says. -/
theorem FileEnds.runFile_eq {run : FileRun} (ends : FileEnds ev limits files path m run) :
    runFile ev limits path (files path) m = run := by
  cases ends with
  | complete opens read shows | malformed opens read shows | longNumeral opens read shows
    | deepText opens read shows => rw [opens, runFile_of_shows read shows]; rfl
  | unopened refused | nulInPath refused => rw [refused, runFile]
  | failing opens read shows fails room =>
      rw [opens, runFile_of_error read shows (evalPrinted_of_error fails), if_pos room]
  | deepFailure opens read shows fails deep =>
      rw [opens, runFile_of_error read shows (evalPrinted_of_error fails), if_neg deep]
  | deepValue opens read shows run deep =>
      rw [opens, runFile_of_error read shows (evalPrinted_of_not_prints run deep)]
      rfl
  | notUnicode opens other =>
      have undecoded : String.fromUTF8? _ = none :=
        Option.eq_none_iff_forall_ne_some.mpr fun text decoded =>
          other text (fromUTF8?_eq_some_iff.mp decoded)
      simp only [opens, runFile, undecoded]

/-- A file whose bytes spell a text goes in one of these ways. -/
theorem exists_fileEnds_text (ev : Evaluator) (limits : Limits) {text : String}
    (opens : files path = .ok text.toUTF8) (m : Machine) :
    ∃ run, FileEnds ev limits files path m run := by
  obtain ⟨forms, halt, read⟩ : ∃ forms halt, readAllWithin limits.reading text = (forms, halt) :=
    ⟨_, _, rfl⟩
  obtain ⟨values, m', shows⟩ | ⟨before, form, skipped, values, m₁, rfl, shows, stops⟩ :=
    shows_cases ev limits forms m
  · -- All data that are read have values, so the way in which reading ends decides.
    match halt with
    | none => exact ⟨_, .complete opens read shows⟩
    | some (.failed (.malformed fault)) => exact ⟨_, .malformed opens read shows⟩
    | some (.failed (.numeralTooLong digits)) => exact ⟨_, .longNumeral opens read shows⟩
    | some .tooDeep => exact ⟨_, .deepText opens read shows⟩
  · obtain ⟨failure, m₂, fails⟩ | ⟨value, m₂, run, deep⟩ := stops
    · by_cases room : limits.explains failure
      · exact ⟨_, .failing opens read shows fails room⟩
      · exact ⟨_, .deepFailure opens read shows fails room⟩
    · exact ⟨_, .deepValue opens read shows run deep⟩

/-- Every file goes in one of these ways. -/
theorem fileEnds_runFile (ev : Evaluator) (limits : Limits) (files : Files) (path : Path)
    (m : Machine) : FileEnds ev limits files path m (runFile ev limits path (files path) m) := by
  obtain ⟨run, ends⟩ : ∃ run, FileEnds ev limits files path m run := by
    cases opens : files path with
    | error refusal =>
        cases refusal with
        | system reason => exact ⟨_, .unopened opens⟩
        | nulInPath => exact ⟨_, .nulInPath opens⟩
    | ok bytes =>
        by_cases spelled : ∃ text : String, text.toUTF8 = bytes
        · obtain ⟨text, rfl⟩ := spelled
          exact exists_fileEnds_text ev limits opens m
        · exact ⟨_, .notUnicode opens (not_exists.mp spelled)⟩
  rwa [ends.runFile_eq]

end File

section Files

variable {paths rest : List Path} {values found : List Value}

/-- Files that are evaluated to their ends are passed. -/
theorem Completed.runFilesAfter_append (completed : Completed ev limits files paths m values m') :
    runFilesAfter ev limits files found m (paths ++ rest) =
      runFilesAfter ev limits files (values.reverse ++ found) m' rest := by
  induction completed generalizing found with
  | nil => rfl
  | cons first _ ih =>
      rw [List.cons_append, runFilesAfter, first.runFile_eq]
      simp only
      rw [ih]
      simp

theorem Completed.runFilesAfter_eq (completed : Completed ev limits files paths m values m') :
    runFilesAfter ev limits files [] m paths = ⟨values, .complete, m'⟩ := by
  rw [← List.append_nil paths, completed.runFilesAfter_append]
  simp [runFilesAfter]

/-- A file that is not evaluated to its end stops the run, whatever files are behind it. -/
theorem FileEnds.runFilesAfter_cons {more : List Value} {verdict : Verdict}
    (ends : FileEnds ev limits files path m ⟨more, verdict, m'⟩) (early : verdict ≠ .complete) :
    runFilesAfter ev limits files found m (path :: rest) =
      ⟨found.reverse ++ more, verdict, m'⟩ := by
  rw [runFilesAfter, ends.runFile_eq]
  cases verdict with
  | complete => exact absurd rfl early
  | unopened | failed | escaped => simp

theorem Stopped.runFilesAfter_eq {result : FileRun}
    (stopped : Stopped ev limits files paths m result) :
    runFilesAfter ev limits files [] m paths = result := by
  obtain ⟨completed, ends, early⟩ := stopped
  rw [completed.runFilesAfter_append, ends.runFilesAfter_cons early]
  simp

/-- All files are evaluated to their ends, or there is a first that is not. -/
theorem completed_or_stopped (ev : Evaluator) (limits : Limits) (files : Files)
    (paths : List Path) (m : Machine) :
    (∃ values m', Completed ev limits files paths m values m') ∨
      ∃ result, Stopped ev limits files paths m result ∧ result.verdict ≠ .complete := by
  induction paths generalizing m with
  | nil => exact .inl ⟨[], m, .nil⟩
  | cons path paths ih =>
      have ends := fileEnds_runFile ev limits files path m
      generalize runFile ev limits path (files path) m = run at ends
      obtain ⟨values, verdict, m₁⟩ := run
      by_cases early : verdict = .complete
      · subst early
        obtain ⟨later, m', completed⟩ | ⟨_, ⟨completed, ends', early⟩, _⟩ := ih m₁
        · exact .inl ⟨_, m', .cons ends completed⟩
        · exact .inr ⟨_, .first (.cons ends completed) ends' early, early⟩
      · exact .inr ⟨_, .first .nil ends early, early⟩

/-- A run that is not complete is stopped by a file. -/
theorem stopped_iff {verdict : Verdict} (early : verdict ≠ .complete) :
    Stopped ev limits files paths m ⟨values, verdict, m'⟩ ↔
      runFilesAfter ev limits files [] m paths = ⟨values, verdict, m'⟩ := by
  refine ⟨Stopped.runFilesAfter_eq, fun run => ?_⟩
  obtain ⟨values, m₁, completed⟩ | ⟨result, stopped, -⟩ :=
    completed_or_stopped ev limits files paths m
  · cases completed.runFilesAfter_eq.symm.trans run
    exact absurd rfl early
  · rwa [← run, stopped.runFilesAfter_eq]

end Files

section Program

variable (host : Host) (settings : Settings) (files : Files) (input : String) (last : InputEnd)

/-- A command line that names files has them evaluated, if the host grants the limit. -/
theorem run_files {arguments names : List String} {debug : Bool} {depth : Nat} {limits : Limits}
    (request : Request.ofArguments arguments = .run debug names) (present : names ≠ [])
    (granted : host settings.depthLimit = some (depth, limits)) :
    run host settings files input last arguments =
      outcomeOfFiles debug
        (runFiles (evaluate depth) limits files (names.map Path.ofText)) := by
  obtain ⟨name, names, rfl⟩ := List.exists_cons_of_ne_nil present
  simp only [run, request, granted]

theorem run_refused {arguments names : List String} {debug : Bool}
    (request : Request.ofArguments arguments = .run debug names)
    (refused : host settings.depthLimit = none) :
    run host settings files input last arguments = { ending := .escaped .limitRefused } := by
  simp only [run, request, refused]

/-- Something escapes from a run over files if it stops in this way. -/
theorem outcomeOfFiles_escaped_iff (debug : Bool) (result : FileRun) :
    (∃ cause, (outcomeOfFiles debug result).ending = .escaped cause) ↔
      ∃ cause, result.verdict = .escaped cause := by
  obtain ⟨values, verdict, m⟩ := result
  match verdict with
  | .complete | .unopened _ | .failed _ =>
      refine iff_of_false ?_ ?_ <;> rintro ⟨_, other⟩ <;> cases other
  | .escaped .tooDeep | .escaped (.numeralTooLong _) | .escaped .notUnicode | .escaped .nulInPath
  | .escaped .limitRefused => exact iff_of_true ⟨_, rfl⟩ ⟨_, rfl⟩

/-- A run from which nothing escapes returns, and complains if it returns 1. -/
theorem outcomeOfFiles_returned (debug : Bool) (result : FileRun) :
    (∃ cause, result.verdict = .escaped cause) ∨
      (outcomeOfFiles debug result).ending = .returned 0 ∨
      (outcomeOfFiles debug result).ending = .returned 1 ∧
        ∃ m message, (outcomeOfFiles debug result).err =
          errorLog debug m ++ ("error: " ++ message ++ "\n") := by
  obtain ⟨values, verdict, m⟩ := result
  cases verdict with
  | complete => exact .inr (.inl rfl)
  | unopened complaint => exact .inr (.inr ⟨rfl, _, complaint, rfl⟩)
  | failed message => exact .inr (.inr ⟨rfl, _, message, rfl⟩)
  | escaped cause => exact .inl ⟨cause, rfl⟩

/-- Whatever files are named, and whatever their bytes are, something escapes exactly if the host
refuses the recursion limit, or the first file that is not evaluated to its end ends in an escape:
its path is none, its bytes spell no text, it holds a numeral of too many digits, or there is no
room to explain its failure. In all other cases the program returns 0, or it returns 1 and its last
words are the line of an error, behind the lines of the log if there is one. -/
theorem run_escapes_iff {arguments names : List String} {debug : Bool}
    (request : Request.ofArguments arguments = .run debug names) (present : names ≠ []) :
    let outcome := run host settings files input last arguments
    ((∃ cause, outcome.ending = .escaped cause) ↔
      host settings.depthLimit = none ∨
      ∃ depth limits, host settings.depthLimit = some (depth, limits) ∧ ∃ values cause m,
        Stopped (evaluate depth) limits files (names.map Path.ofText) Session.start
          ⟨values, .escaped cause, m⟩) ∧
    ((∃ cause, outcome.ending = .escaped cause) ∨ outcome.ending = .returned 0 ∨
      outcome.ending = .returned 1 ∧
        ∃ m message, outcome.err = errorLog debug m ++ ("error: " ++ message ++ "\n")) := by
  intro outcome
  cases granted : host settings.depthLimit with
  | none =>
      have escaped : outcome.ending = .escaped .limitRefused :=
        congrArg Outcome.ending (run_refused host settings files input last request granted)
      exact ⟨iff_of_true ⟨_, escaped⟩ (.inl rfl), .inl ⟨_, escaped⟩⟩
  | some room =>
      obtain ⟨depth, limits⟩ := room
      let result := runFiles (evaluate depth) limits files (names.map Path.ofText)
      have outcome_eq : outcome = outcomeOfFiles debug result :=
        run_files host settings files input last request present granted
      rw [outcome_eq, outcomeOfFiles_escaped_iff]
      refine ⟨?_, outcomeOfFiles_returned debug result⟩
      constructor
      · rintro ⟨cause, escaped⟩
        have stops : result = ⟨result.values, .escaped cause, result.machine⟩ := by rw [← escaped]
        have early : Verdict.escaped cause ≠ .complete := nofun
        exact .inr ⟨depth, limits, rfl, _, cause, _, (stopped_iff early).mpr stops⟩
      · rintro (refused | ⟨_, _, grant, _, cause, _, stopped⟩)
        · cases refused
        · cases grant
          exact ⟨cause, congrArg FileRun.verdict stopped.runFilesAfter_eq⟩

end Program

/-- A file that spells no text stops the run behind a file that has a value. -/
theorem run_escapes_behind_value :
    let host : Host := fun limit => some (limit, ⟨9, 9, 9⟩)
    let files : Files := fun path =>
      if path.text = "a" then .ok "1".toUTF8 else .ok ⟨#[0xff]⟩
    let settings : Settings := {}
    Request.ofArguments ["a", "b"] = .run false ["a", "b"] ∧
      run host settings files "" .exhausted ["a", "b"] = ⟨"1\n", "", .escaped .notUnicode⟩ ∧
      ∃ depth limits, host settings.depthLimit = some (depth, limits) ∧ ∃ values cause m,
        Stopped (evaluate depth) limits files (["a", "b"].map Path.ofText) Session.start
          ⟨values, .escaped cause, m⟩ := by
  intro host files settings
  have request : Request.ofArguments ["a", "b"] = .run false ["a", "b"] := by decide
  have outcome : run host settings files "" .exhausted ["a", "b"] =
      ⟨"1\n", "", .escaped .notUnicode⟩ := by decide +kernel
  have escapes := run_escapes_iff host settings files "" .exhausted request (by simp)
  obtain refused | stopped := escapes.1.mp ⟨.notUnicode, congrArg Outcome.ending outcome⟩
  · cases refused
  · exact ⟨request, outcome, stopped⟩

/-- Nothing is said about a file of one byte that spells no text. -/
theorem run_byte_unexplained :
    run (fun limit => some (limit, ⟨9, 9, 9⟩)) {} (fun _ => .ok ⟨#[0xff]⟩) "" .exhausted ["f"] =
      ⟨"", "", .escaped .notUnicode⟩ := by
  decide +kernel

end PocketLisp.CommandLine
