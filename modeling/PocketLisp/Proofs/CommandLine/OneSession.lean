import PocketLisp.Proofs.CommandLine.FileRun
import PocketLisp.Proofs.Session.Message

/-!
# Files make up one session

The boundaries between files do not matter: files whose texts are complete are evaluated as the
list of all their data (`runFilesAfter_texts`), and so is one file that holds all the texts. If
files may fail, all forms before the first failure have their values printed, and one line explains
it (`files_make_one_session`). A value that there is no room to print counts as a failure, so a file
may be complained about although all its forms have values (`complaint_about_deep_value`).
-/

namespace PocketLisp.CommandLine

open Text

/-- The path leads to a file that holds the text. -/
def Files.Holds (files : Files) (path : Path) (text : String) : Prop :=
  files path = .ok text.toUTF8

/-- The paths may lead to files, and every file that opens holds a text in which no numeral is too
long. -/
def Files.Textual (files : Files) (paths : List Path) : Prop :=
  ∀ path ∈ paths, files path ≠ .error .nulInPath ∧ ∀ bytes, files path = .ok bytes →
    ∃ text : String, text.toUTF8 = bytes ∧ ShortNumerals text

/-- What the results of forms whose values are printed, with the state after them, come to. -/
def FileRun.ofForms (limits : Limits) (run : Results × Machine) : FileRun :=
  ⟨run.1.values, .of limits run.1.failure false, run.2⟩

@[simp] theorem Verdict.of_none (limits : Limits) : of limits none false = .complete := rfl

@[simp] theorem Verdict.of_evaluation (limits : Limits) (failure : EvalFailure) :
    of limits (some (.evaluation failure)) false =
      if limits.explains failure then .failed failure.message else .escaped .tooDeep := rfl

section Complete

variable {ev : Evaluator} {limits : Limits} {files : Files}

/-- A file whose text is complete is evaluated as the list of its data. -/
theorem Files.Holds.runFile_complete {path : Path} {text : String} (holds : files.Holds path text)
    (complete : (readAllWithin limits.reading text).2 = none) (m : Machine) :
    runFile ev limits path (files path) m =
      .ofForms limits
        (Session.evalForms (limits.evalPrinted ev) (readAllWithin limits.reading text).1 m) := by
  obtain ⟨fault, cut, halts, run⟩ := runFile_text limits text
  rw [complete] at halts
  cases cut with
  | true => cases halts
  | false =>
      obtain rfl := Option.map_eq_none_iff.mp halts.symm
      rw [show files path = _ from holds, run]
      simp [FileRun.ofForms]

/-- Files whose texts are complete are evaluated as the list of all their data. -/
theorem runFilesAfter_texts {paths : List Path} {texts : List String}
    (holds : List.Forall₂ files.Holds paths texts)
    (complete : ∀ text ∈ texts, (readAllWithin limits.reading text).2 = none)
    (found : List Value) (m : Machine) :
    let forms := texts.flatMap fun text => (readAllWithin limits.reading text).1
    let run := Session.evalForms (limits.evalPrinted ev) forms m
    runFilesAfter ev limits files found m paths =
      .ofForms limits (run.1.after found.reverse, run.2) := by
  intro forms run
  induction holds generalizing found m with
  | nil => simp [run, forms, runFilesAfter, Session.evalForms, FileRun.ofForms, Results.after]
  | @cons path text paths texts first _ ih =>
      obtain ⟨completeFirst, others⟩ := List.forall_mem_cons.mp complete
      rw [runFilesAfter, first.runFile_complete completeFirst]
      simp only [run, forms, List.flatMap_cons]
      obtain ⟨values, m', shown⟩ | ⟨before, form, skipped, values, failure, m₁, m₂, read, before',
        fails⟩ := Session.evalForms_cases (limits.evalPrinted ev)
          (readAllWithin limits.reading text).1 m
      · -- The first text has values throughout, and the others are evaluated behind it.
        rw [shown, Session.evalForms_append shown]
        simp only [FileRun.ofForms, Verdict.of_none]
        rw [ih others]
        simp [FileRun.ofForms, Results.after]
      · -- A form of the first text stops it, and all behind it is skipped.
        rw [read, List.append_assoc, List.cons_append, Session.evalForms_append before',
          Session.evalForms_append before', Session.evalForms_of_error fails,
          Session.evalForms_of_error fails]
        by_cases room : limits.explains failure <;>
          simp [FileRun.ofForms, Results.after, room]

/-- Files whose texts are complete are evaluated as one file that holds the texts with line breaks
between them. -/
theorem runFiles_intercalate {whole : Files} {paths : List Path} {path : Path}
    {texts : List String} (holds : List.Forall₂ files.Holds paths texts)
    (complete : ∀ text ∈ texts, (readAllWithin limits.reading text).2 = none)
    (all : whole.Holds path ("\n".intercalate texts)) :
    runFiles ev limits files paths = runFiles ev limits whole [path] := by
  have read := readAllWithin_intercalate complete
  have one : List.Forall₂ whole.Holds [path] ["\n".intercalate texts] := .cons all .nil
  have completeAll : ∀ text ∈ ["\n".intercalate texts],
      (readAllWithin limits.reading text).2 = none :=
    List.forall_mem_singleton.mpr (congrArg Prod.snd read)
  rw [runFiles, runFiles, runFilesAfter_texts holds complete, runFilesAfter_texts one completeAll,
    List.flatMap_singleton, read]

end Complete

section Failing

variable {limits : Limits} {files : Files} {paths : List Path} {m m' : Machine} {depth : Nat}

/-- Plain forms whose values are printed keep the store legal. -/
theorem legal_of_shows {forms values : List Value} (plain : ∀ form ∈ forms, form.Plain)
    (shows : Session.Shows (evaluate depth) limits m forms values m') (legal : m.store.Legal) :
    m'.store.Legal := by
  have reached := (Session.legal_evalForms depth plain legal).2
  rwa [Session.evalForms_of_inTurn shows.inTurn] at reached

/-- A file keeps the store legal, and if it fails, this is explained in one line. -/
theorem FileEnds.legal {path : Path} {run : FileRun}
    (ends : FileEnds (evaluate depth) limits files path m run) (legal : m.store.Legal) :
    run.machine.store.Legal ∧ ∀ message, run.verdict = .failed message → OneLine message := by
  have plain {text : String} {forms : List Value} {halt : Option Halt}
      (read : readAllWithin limits.reading text = (forms, halt)) :
      ∀ form ∈ forms, form.Plain := by
    intro form mem
    have found : form ∈ (readAllWithin limits.reading text).1 := by rwa [read]
    exact plain_of_mem_readAllWithin found
  -- A form that stops the file is plain too, and those before it leave a legal store.
  have stops {text : String} {before skipped values : List Value} {form : Value} {m₁ : Machine}
      {halt : Option Halt}
      (read : readAllWithin limits.reading text = (before ++ form :: skipped, halt))
      (shows : Session.Shows (evaluate depth) limits m before values m₁) :=
    Session.keeps_legal depth (plain read form (by simp))
      (legal_of_shows (List.forall_mem_append.mp (plain read)).1 shows legal)
  have deep : OneLine "maximum recursion depth exceeded" := by decide +kernel
  cases ends with
  | complete _ read shows | longNumeral _ read shows =>
      exact ⟨legal_of_shows (plain read) shows legal, nofun⟩
  | unopened | notUnicode | nulInPath => exact ⟨legal, nofun⟩
  | malformed _ read shows =>
      refine ⟨legal_of_shows (plain read) shows legal, ?_⟩
      rintro _ ⟨⟩
      exact ReadError.oneLine_message _
  | deepText _ read shows =>
      refine ⟨legal_of_shows (plain read) shows legal, ?_⟩
      rintro _ ⟨⟩
      exact deep
  | deepValue _ read shows run =>
      refine ⟨((stops read shows).of_ok run).1.holds, ?_⟩
      rintro _ ⟨⟩
      exact deep
  | deepFailure _ read shows fails => exact ⟨((stops read shows).of_error fails).1.holds, nofun⟩
  | @failing text before form skipped halt values failure m₁ m₂ _ read shows fails =>
      obtain ⟨reached, fine⟩ := (stops read shows).of_error fails
      refine ⟨reached.holds, ?_⟩
      rintro _ ⟨⟩
      refine (Failure.evaluation failure).oneLine_message fun v shown => ?_
      cases failure with
      | tooDeep => cases shown
      | error e => exact Invariant.Error.shown fine shown

theorem Completed.legal {values : List Value}
    (completed : Completed (evaluate depth) limits files paths m values m')
    (legal : m.store.Legal) : m'.store.Legal := by
  induction completed with
  | nil => exact legal
  | cons first _ ih => exact ih (first.legal legal).1

/-- A run over files that a file stops explains it in one line. -/
theorem Stopped.oneLine {values : List Value} {message : String}
    (stopped : Stopped (evaluate depth) limits files paths m ⟨values, .failed message, m'⟩)
    (legal : m.store.Legal) : OneLine message := by
  cases stopped with
  | first completed ends early => exact (ends.legal (completed.legal legal)).2 message rfl

/-- A run over files that stops at a file that does not open complains about that file. -/
theorem Stopped.unopened {ev : Evaluator} {values : List Value} {complaint : String}
    (stopped : Stopped ev limits files paths m ⟨values, .unopened complaint, m'⟩) :
    ∃ path ∈ paths, ∃ reason, files path = .error (.system reason) ∧
      complaint = "cannot read " ++ path.text ++ ": " ++ reason := by
  cases stopped with
  | @first done path rest values more _ _ m₁ _ completed ends early =>
      cases ends with
      | unopened refused => exact ⟨path, by simp, _, refused, rfl⟩

/-- Where all files that open hold texts with short numerals, something escapes only if there is no
room to explain a failure. -/
theorem Stopped.escaped_eq_tooDeep {ev : Evaluator} {values : List Value} {cause : Escape}
    (stopped : Stopped ev limits files paths m ⟨values, .escaped cause, m'⟩)
    (textual : files.Textual paths) : cause = .tooDeep := by
  cases stopped with
  | @first done path rest values more _ _ m₁ _ completed ends early =>
      obtain ⟨possible, texts⟩ := textual path (by simp)
      cases ends with
      | deepFailure => rfl
      | nulInPath refused => exact absurd refused possible
      | notUnicode opens other =>
          obtain ⟨text, spells, -⟩ := texts _ opens
          exact absurd spells (other text)
      | longNumeral opens read shows =>
          obtain ⟨text, spells, short⟩ := texts _ opens
          obtain rfl := Option.some.inj
            ((fromUTF8?_eq_some_iff.mpr spells).symm.trans (fromUTF8?_eq_some_iff.mpr rfl))
          obtain ⟨-, faulty⟩ := readAllWithin_failed_iff.mp (congrArg Prod.snd read)
          obtain ⟨_, malformed⟩ := malformed_of_readAll short faulty
          cases malformed

end Failing

section Program

variable (host : Host) (settings : Settings) (input : String) (last : InputEnd)

/-- The program does the same on files whose texts are complete and on one file that holds the
texts with line breaks between them. If files may be missing, malformed or fail, and hold texts with
short numerals, then the program returns 0 with nothing to complain about exactly if all files are
evaluated to their ends and all values are printed. Otherwise some file stops the run, and unless
there is no room to explain why, the program returns 1: the values of all forms before are printed,
one line explains the failure, and the session is left as it was there. -/
theorem files_make_one_session :
    (∀ {files whole : Files} {arguments arguments' names : List String} {name : String}
        {texts : List String} {debug : Bool},
      Request.ofArguments arguments = .run debug names → names ≠ [] →
      List.Forall₂ files.Holds (names.map Path.ofText) texts →
      (∀ depth limits, host settings.depthLimit = some (depth, limits) →
        ∀ text ∈ texts, (readAllWithin limits.reading text).2 = none) →
      Request.ofArguments arguments' = .run debug [name] →
      whole.Holds (Path.ofText name) ("\n".intercalate texts) →
      run host settings files input last arguments =
        run host settings whole input last arguments') ∧
    ∀ {files : Files} {arguments names : List String} {depth : Nat} {limits : Limits},
      Request.ofArguments arguments = .run false names → names ≠ [] →
      host settings.depthLimit = some (depth, limits) →
      files.Textual (names.map Path.ofText) →
      let ev := evaluate depth
      let paths := names.map Path.ofText
      let outcome := run host settings files input last arguments
      (outcome.ending = .returned 0 ∧ outcome.err = "" ↔
        ∃ values m, Completed ev limits files paths Session.start values m) ∧
      ((∃ values m, Completed ev limits files paths Session.start values m ∧
          outcome = ⟨String.join (values.map fun v => v.print ++ "\n"), "", .returned 0⟩) ∨
        (∃ values verdict message m,
          Stopped ev limits files paths Session.start ⟨values, verdict, m⟩ ∧
          runFiles ev limits files paths = ⟨values, verdict, m⟩ ∧
          outcome = ⟨String.join (values.map fun v => v.print ++ "\n"),
            "error: " ++ message ++ "\n", .returned 1⟩ ∧
          (verdict = .failed message ∧ OneLine message ∨
            verdict = .unopened message ∧ ∃ path ∈ paths, ∃ reason,
              files path = .error (.system reason) ∧
                message = "cannot read " ++ path.text ++ ": " ++ reason)) ∨
        ∃ values m, Stopped ev limits files paths Session.start
          ⟨values, .escaped .tooDeep, m⟩) := by
  constructor
  · intro files whole arguments arguments' names name texts debug request present holds complete
      request' all
    cases granted : host settings.depthLimit with
    | none =>
        rw [run_refused host settings files input last request granted,
          run_refused host settings whole input last request' granted]
    | some room =>
        obtain ⟨depth, limits⟩ := room
        rw [run_files host settings files input last request present granted,
          run_files host settings whole input last request' (List.cons_ne_nil _ _) granted,
          runFiles_intercalate holds (complete depth limits granted) all, List.map_singleton]
  · intro files arguments names depth limits request present granted textual ev paths outcome
    have outcome_eq : outcome = outcomeOfFiles false (runFiles ev limits files paths) :=
      run_files host settings files input last request present granted
    obtain ⟨values, m, completed⟩ | ⟨⟨values, verdict, m⟩, stopped, early⟩ :=
      completed_or_stopped ev limits files paths Session.start
    · rw [runFiles, completed.runFilesAfter_eq] at outcome_eq
      rw [outcome_eq]
      exact ⟨iff_of_true ⟨rfl, rfl⟩ ⟨values, m, completed⟩, .inl ⟨values, m, completed, rfl⟩⟩
    · have reached : runFiles ev limits files paths = ⟨values, verdict, m⟩ :=
        stopped.runFilesAfter_eq
      rw [reached] at outcome_eq
      have other : ¬ ∃ values m, Completed ev limits files paths Session.start values m := by
        rintro ⟨_, _, completed⟩
        cases completed.runFilesAfter_eq.symm.trans reached
        exact early rfl
      rw [outcome_eq, iff_false_right other]
      cases verdict with
      | complete => exact absurd rfl early
      | unopened complaint =>
          refine ⟨fun returned => absurd returned.1 nofun, .inr (.inl ?_)⟩
          exact ⟨values, _, complaint, m, stopped, reached, by simp [outcomeOfFiles, valueLines,
            complaintLine, errorLog], .inr ⟨rfl, stopped.unopened⟩⟩
      | failed message =>
          refine ⟨fun returned => absurd returned.1 nofun, .inr (.inl ?_)⟩
          exact ⟨values, _, message, m, stopped, reached, by simp [outcomeOfFiles, valueLines,
            complaintLine, errorLog], .inl ⟨rfl, stopped.oneLine Session.legal_start⟩⟩
      | escaped cause =>
          obtain rfl : cause = .tooDeep := stopped.escaped_eq_tooDeep textual
          exact ⟨fun returned => absurd returned.1 nofun, .inr (.inr ⟨values, m, stopped⟩)⟩

end Program

/-- Two files that are as good as one; a file of which the second form fails, between two others;
and a file that is missing. -/
theorem files_make_one_session_points :
    let host : Host := fun limit => some (limit, ⟨9, 9, 9⟩)
    let settings : Settings := {}
    let depth := settings.depthLimit
    let files : Files := fun path =>
      if path.text = "a" then .ok "(define x 1)".toUTF8
      else if path.text = "b" then .ok "(+ x 2) 'y".toUTF8
      else if path.text = "ab" then .ok "(define x 1)\n(+ x 2) 'y".toUTF8
      else if path.text = "c" then .ok "x (car x) (define x 5)".toUTF8
      else .error (.system "No such file or directory")
    let run := run host settings files "" .exhausted
    let stops := Stopped (evaluate depth) ⟨9, 9, 9⟩ files
    run ["--debug", "a", "b"] = run ["ab", "--debug"] ∧
    (run ["a", "b"] = ⟨"1\n3\ny\n", "", .returned 0⟩ ∧ ∃ values m,
      Completed (evaluate depth) ⟨9, 9, 9⟩ files (["a", "b"].map Path.ofText) Session.start
        values m) ∧
    (run ["a", "c", "b"] =
        ⟨"1\n1\n", "error: The value 1 is not of type Cons\n", .returned 1⟩ ∧
      ∃ values verdict m,
        stops (["a", "c", "b"].map Path.ofText) Session.start ⟨values, verdict, m⟩) ∧
    run ["a", "d", "b"] =
        ⟨"1\n", "error: cannot read d: No such file or directory\n", .returned 1⟩ ∧
      ∃ values verdict m,
        stops (["a", "d", "b"].map Path.ofText) Session.start ⟨values, verdict, m⟩ := by
  intro host settings depth files run stops
  have one := files_make_one_session host settings "" .exhausted
  have texts : List.Forall₂ files.Holds (["a", "b"].map Path.ofText)
      ["(define x 1)", "(+ x 2) 'y"] := .cons rfl (.cons rfl .nil)
  have complete : ∀ text ∈ ["(define x 1)", "(+ x 2) 'y"], (readAllWithin 9 text).2 = none := by
    decide +kernel
  have textual : files.Textual (["a", "b", "c", "d"].map Path.ofText) := by
    intro path mem
    obtain rfl | rfl | rfl | rfl : path = Path.ofText "a" ∨ path = Path.ofText "b" ∨
      path = Path.ofText "c" ∨ path = Path.ofText "d" := by simpa using mem
    · exact ⟨nofun, fun _ opens => ⟨"(define x 1)", Except.ok.inj opens, by decide⟩⟩
    · exact ⟨nofun, fun _ opens => ⟨"(+ x 2) 'y", Except.ok.inj opens, by decide⟩⟩
    · exact ⟨nofun, fun _ opens => ⟨"x (car x) (define x 5)", Except.ok.inj opens, by decide⟩⟩
    · exact ⟨nofun, nofun⟩
  -- What is said of files that may fail, for some of these files.
  have may_fail {names : List String} (request : Request.ofArguments names = .run false names)
      (present : names ≠ []) (mem : names ⊆ ["a", "b", "c", "d"]) :=
    one.2 request present rfl fun path found =>
      textual path (List.map_subset Path.ofText mem found)
  have stopped {names : List String} {out err : String}
      (request : Request.ofArguments names = .run false names) (present : names ≠ [])
      (mem : names ⊆ ["a", "b", "c", "d"]) (outcome : run names = ⟨out, err, .returned 1⟩) :
      ∃ values verdict m,
        stops (names.map Path.ofText) Session.start ⟨values, verdict, m⟩ := by
    obtain ⟨_, _, _, result⟩ | ⟨values, verdict, _, m, stopped, -⟩ | ⟨values, m, stopped⟩ :=
      (may_fail request present mem).2
    · cases outcome.symm.trans result
    · exact ⟨values, verdict, m, stopped⟩
    · exact ⟨values, _, m, stopped⟩
  refine ⟨?_, ?_, ?_, ?_⟩
  · exact one.1 (by decide : _ = Request.run true ["a", "b"]) (by simp) texts
      (fun _ _ granted => by cases granted; exact complete)
      (by decide : _ = Request.run true ["ab"]) rfl
  · have outcome : run ["a", "b"] = ⟨"1\n3\ny\n", "", .returned 0⟩ := by decide +kernel
    have returned := (may_fail (by decide) (by simp) (by decide)).1.mp
      ⟨congrArg Outcome.ending outcome, congrArg Outcome.err outcome⟩
    exact ⟨outcome, returned⟩
  · have outcome : run ["a", "c", "b"] =
        ⟨"1\n1\n", "error: The value 1 is not of type Cons\n", .returned 1⟩ := by decide +kernel
    exact ⟨outcome, stopped (by decide) (by simp) (by decide) outcome⟩
  · have outcome : run ["a", "d", "b"] =
        ⟨"1\n", "error: cannot read d: No such file or directory\n", .returned 1⟩ := by
      decide +kernel
    exact ⟨outcome, stopped (by decide) (by simp) (by decide) outcome⟩

/-- A value that there is no room to print is complained about, although the file opens, reads and
evaluates without error. -/
theorem complaint_about_deep_value :
    let text := "(cons (cons (cons 1 nil) nil) nil) 2"
    (Session.evalText (evaluate 99) text Session.start).1.failure = none ∧
      run (fun _ => some (99, ⟨9, 2, 2⟩)) {} (fun _ => .ok text.toUTF8) "" .exhausted ["f"] =
        ⟨"", "error: maximum recursion depth exceeded\n", .returned 1⟩ := by
  decide +kernel

end PocketLisp.CommandLine
