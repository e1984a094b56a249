import PocketLisp.Proofs.CommandLine.FileRun
import PocketLisp.Proofs.Eval.DepthLimit
import PocketLisp.Proofs.Repl.Conversation

/-!
# Larger limits go unnoticed

Two evaluators that agree wherever the first does not break off make two sessions that do the same,
up to the first form that is nested too deeply for the first one. This is said of texts evaluated in
turn, of conversations, and of runs over files; the two latter show a break-off by its message. They
also need room to read, to print and to explain, and larger limits for this change nothing either,
unless the smaller ones were met.
-/

namespace PocketLisp

/-- The limits leave no more room than others. -/
instance : LE Limits where
  le limits limits' := limits.reading ≤ limits'.reading ∧ limits.printing ≤ limits'.printing ∧
    limits.reporting ≤ limits'.reporting

section Limits

variable {limits limits' : Limits} (le : limits ≤ limits')
include le

theorem Limits.prints_mono {v : Value} (room : limits.prints v) : limits'.prints v := by
  simp only [prints, decide_eq_true_eq] at room ⊢
  exact Nat.le_trans room le.2.1

theorem Limits.explains_mono {failure : EvalFailure} (room : limits.explains failure) :
    limits'.explains failure := by
  unfold explains at room ⊢
  split
  · simp only [decide_eq_true_eq] at room ⊢
    exact Nat.le_trans room le.2.2
  · rfl

end Limits

/-- A failure that there is no room to explain is no break-off. -/
theorem Limits.ne_tooDeep_of_not_explains {limits : Limits} {failure : EvalFailure}
    (deep : ¬ limits.explains failure) : failure ≠ .tooDeep := by
  rintro rfl
  exact deep rfl

/-- The entry that says that a form was nested too deeply. -/
def Entry.tooDeep : Entry :=
  .error EvalFailure.tooDeep.message

section Agreement

variable {ev ev' : Evaluator} (agrees : ∀ form r, (ev form r).Agrees (ev' form r))
include agrees

namespace Session

theorem of_agrees_ok {form value : Value} {m m' : Machine}
    (run : ev form globalScope m = .ok value m') : ev' form globalScope m = .ok value m' :=
  run ▸ agrees form globalScope m (by simp [run])

theorem of_agrees_error {form : Value} {failure : EvalFailure} {m m' : Machine}
    (run : ev form globalScope m = .error failure m') (fine : failure ≠ .tooDeep) :
    ev' form globalScope m = .error failure m' := by
  rw [agrees form globalScope m, run]
  intro m'' deep
  cases run.symm.trans deep
  exact fine rfl

theorem evalForms_of_agrees (forms : List Value) (m : Machine)
    (fine : (evalForms ev forms m).1.failure ≠ some (.evaluation .tooDeep)) :
    evalForms ev' forms m = evalForms ev forms m := by
  induction forms generalizing m with
  | nil => rfl
  | cons form forms ih =>
      cases run : ev form globalScope m with
      | ok value m₁ =>
          rw [evalForms_of_ok run] at fine ⊢
          rw [evalForms_of_ok (of_agrees_ok agrees run), ih m₁ fine]
      | error failure m₁ =>
          rw [evalForms_of_error run] at fine ⊢
          have other : failure ≠ .tooDeep := by
            rintro rfl
            exact fine rfl
          rw [evalForms_of_error (of_agrees_error agrees run other)]

/-- A failure of the forms of a text is the failure of the text. -/
theorem evalText_of_agrees (text : String) (m : Machine)
    (fine : (evalText ev text m).1.failure ≠ some (.evaluation .tooDeep)) :
    evalText ev' text m = evalText ev text m := by
  rw [evalText_eq] at fine
  rw [evalText_eq, evalText_eq, evalForms_of_agrees agrees]
  intro deep
  exact fine (by simp [Results.orFault, deep])

theorem steps_of_agrees (texts : List String) (m : Machine)
    (fine : ∀ step ∈ steps ev texts m, step.1.failure ≠ some (.evaluation .tooDeep)) :
    steps ev' texts m = steps ev texts m := by
  induction texts generalizing m with
  | nil => rfl
  | cons text texts ih =>
      obtain ⟨first, others⟩ := List.forall_mem_cons.mp fine
      rw [steps, steps, evalText_of_agrees agrees text m first, ih _ others]

end Session

variable {limits limits' : Limits} (le : limits ≤ limits')
include le

namespace Repl

/-- What a block shows, unless it shows a break-off or the smaller limits are met. -/
theorem evalBlockAfter_of_agrees (shown : List Entry) (m : Machine) (forms : List Value) :
    let turn := evalBlockAfter ev limits shown m forms
    .tooDeep ∉ turn.entries → (limits' = limits ∨ turn.escaped ≠ some .tooDeep) →
      evalBlockAfter ev' limits' shown m forms = turn := by
  intro turn fine room
  induction forms generalizing shown m with
  | nil => rfl
  | cons form forms ih =>
      cases run : ev form Session.globalScope m with
      | ok value m₁ =>
          have same := Session.of_agrees_ok agrees run
          simp only [turn, evalBlockAfter, run, same] at fine room ⊢
          by_cases prints : limits.prints value
          · simp only [prints, Limits.prints_mono le prints, if_true] at fine room ⊢
            exact ih _ _ fine room
          · simp only [prints, Bool.false_eq_true, if_false] at fine room ⊢
            obtain rfl | other := room
            · simp [prints]
            · exact absurd rfl other
      | error failure m₁ =>
          by_cases explains : limits.explains failure
          · have other : failure ≠ .tooDeep := by
              rintro rfl
              refine fine ?_
              simp [turn, evalBlockAfter, run, explains, Entry.tooDeep]
            have same := Session.of_agrees_error agrees run other
            simp [turn, evalBlockAfter, run, same, explains, Limits.explains_mono le explains]
          · have same := Session.of_agrees_error agrees run
              (Limits.ne_tooDeep_of_not_explains explains)
            simp only [turn, evalBlockAfter, run, same, explains, Bool.false_eq_true,
              if_false] at fine room ⊢
            obtain rfl | other := room
            · simp [explains]
            · exact absurd rfl other

theorem takeLine_of_agrees (line : String) (r : Repl) :
    let turn := r.takeLine ev limits line
    .tooDeep ∉ turn.entries → (limits' = limits ∨ turn.escaped ≠ some .tooDeep) →
      r.takeLine ev' limits' line = turn := by
  intro turn fine room
  obtain ⟨forms, halt, read⟩ : ∃ forms halt,
      readAllWithin limits.reading (r.pending ++ line) = (forms, halt) := ⟨_, _, rfl⟩
  have same : readAllWithin limits'.reading (r.pending ++ line) = (forms, halt) := by
    obtain rfl | other := room
    · exact read
    · rw [readAllWithin_mono _ le.1, read]
      rw [read]
      rintro rfl
      exact other (by simp [turn, takeLine, read])
  cases halt with
  | none =>
      have block : turn = evalBlock ev limits forms r.machine := takeLine_of_read read
      rw [block] at fine room ⊢
      rw [takeLine_of_read same]
      exact evalBlockAfter_of_agrees agrees le [] r.machine forms fine room
  | some halt =>
      -- Nothing is evaluated, and what is answered depends on what was read alone.
      simp only [turn, takeLine, read, same]
      obtain (fault | digits) | _ := halt
      · cases fault <;> rfl
      · rfl
      · rfl

/-- A conversation that shows no break-off, and does not end for want of room if the limits differ,
goes the same way. -/
theorem converseAfter_of_agrees (prompt : String) (last : InputEnd) (r : Repl)
    (lines : List String) :
    let talk := converseAfter ev limits prompt last [] r lines
    .tooDeep ∉ talk.entries → (limits' = limits ∨ talk.closing ≠ .escaped .tooDeep) →
      converseAfter ev' limits' prompt last [] r lines = talk := by
  intro talk fine room
  induction lines generalizing r with
  | nil => rfl
  | cons line lines ih =>
      have cons : talk = _ := converseAfter_cons r line lines
      rw [cons] at fine room ⊢
      rw [converseAfter_cons]
      cases escapes : (r.takeLine ev limits line).escaped with
      | none =>
          simp only [Turn.andThen, escapes, Transcript.after, List.mem_append, not_or] at fine room
          have same := takeLine_of_agrees agrees le line r fine.2.1 (.inr (by simp [escapes]))
          simp only [same, Turn.andThen, escapes]
          rw [ih _ fine.2.2 room]
      | some cause =>
          simp only [Turn.andThen, escapes, Transcript.after, List.mem_append, not_or] at fine room
          have same := takeLine_of_agrees agrees le line r fine.2
            (room.imp_right fun other deep => other (by rw [deep] at escapes; cases escapes; rfl))
          simp only [same, Turn.andThen, escapes]

end Repl

namespace CommandLine

theorem shows_of_agrees {m m' : Machine} {forms values : List Value}
    (shows : Session.Shows ev limits m forms values m') :
    Session.Shows ev' limits' m forms values m' := by
  obtain ⟨inTurn, room⟩ := shows
  refine ⟨?_, fun v mem => Limits.prints_mono le (room v mem)⟩
  clear room
  induction inTurn with
  | nil => exact .nil
  | cons run _ ih => exact .cons (Session.of_agrees_ok agrees run) ih

/-- A file that does not end in a break-off, nor for want of room to explain its failure if the
limits differ, goes the same way. -/
theorem FileEnds.of_agrees {files : Files} {path : Path} {m : Machine} {result : FileRun}
    (ends : FileEnds ev limits files path m result)
    (fine : result.verdict ≠ .failed EvalFailure.tooDeep.message)
    (room : limits' = limits ∨ result.verdict ≠ .escaped .tooDeep) :
    FileEnds ev' limits' files path m result := by
  -- What is read stays the same, apart from what stands behind a form that stops the file.
  have again {text : String} {forms : List Value} {halt : Option Halt}
      (read : readAllWithin limits.reading text = (forms, halt)) (whole : halt ≠ some .tooDeep) :
      readAllWithin limits'.reading text = (forms, halt) := by
    rw [readAllWithin_mono (by rwa [read]) le.1, read]
  have before {text : String} {first skipped : List Value} {form : Value} {halt : Option Halt}
      (read : readAllWithin limits.reading text = (first ++ form :: skipped, halt)) :
      ∃ more halt', readAllWithin limits'.reading text = (first ++ form :: more, halt') := by
    obtain ⟨more, found⟩ := readAllWithin_initial_mono le.1 text
    rw [read] at found
    exact ⟨skipped ++ more, _, Prod.ext (by simpa using found.symm) rfl⟩
  cases ends with
  | complete opens read shows =>
      exact .complete opens (again read nofun) (shows_of_agrees agrees le shows)
  | malformed opens read shows =>
      exact .malformed opens (again read nofun) (shows_of_agrees agrees le shows)
  | longNumeral opens read shows =>
      exact .longNumeral opens (again read nofun) (shows_of_agrees agrees le shows)
  | unopened refused => exact .unopened refused
  | nulInPath refused => exact .nulInPath refused
  | notUnicode opens other => exact .notUnicode opens other
  | deepText | deepValue => exact absurd rfl fine
  | @failing _ _ _ _ _ _ failure _ _ opens read shows fails explains =>
      have other : failure ≠ .tooDeep := by
        rintro rfl
        exact fine rfl
      obtain ⟨more, halt', read'⟩ := before read
      exact .failing opens read' (shows_of_agrees agrees le shows)
        (Session.of_agrees_error agrees fails other) (Limits.explains_mono le explains)
  | deepFailure opens read shows fails deep =>
      obtain rfl | other := room
      · exact .deepFailure opens read (shows_of_agrees agrees le shows)
          (Session.of_agrees_error agrees fails (Limits.ne_tooDeep_of_not_explains deep)) deep
      · exact absurd rfl other

/-- A run over files that does not end in a break-off, nor for want of room to explain a failure if
the limits differ, goes the same way. -/
theorem runFilesAfter_of_agrees (files : Files) (found : List Value) (m : Machine)
    (paths : List Path) :
    let result := runFilesAfter ev limits files found m paths
    result.verdict ≠ .failed EvalFailure.tooDeep.message →
      (limits' = limits ∨ result.verdict ≠ .escaped .tooDeep) →
      runFilesAfter ev' limits' files found m paths = result := by
  intro result fine room
  induction paths generalizing found m with
  | nil => rfl
  | cons path paths ih =>
      have ends := fileEnds_runFile ev limits files path m
      cases verdict : (runFile ev limits path (files path) m).verdict with
      | complete =>
          have same := (ends.of_agrees agrees le (by simp [verdict]) (by simp [verdict])).runFile_eq
          simp only [result, runFilesAfter, verdict] at fine room ⊢
          simp only [same, verdict]
          exact ih _ _ fine room
      | unopened | failed | escaped =>
          simp only [result, runFilesAfter, verdict] at fine room ⊢
          have same := (ends.of_agrees agrees le (by rwa [verdict]) (by rwa [verdict])).runFile_eq
          simp only [same, verdict]

end CommandLine

end Agreement

open Session in
/-- Let a form be evaluated, or a value be applied, to some depth. Unless it breaks off there, it
does the same under a larger limit: it ends with the same value or error and in the same state. So a
session that does not break off does the same under every larger limit, in all its results and
states: when it evaluates texts in turn, in a conversation, and over files. Conversations and runs
over files may have more room to read, print and explain as well, and do the same then unless they
end for want of it. -/
theorem larger_limit_unnoticed {n n' : Nat} (le : n ≤ n') {limits limits' : Limits}
    (more : limits ≤ limits') :
    (∀ form r m, (∀ m', evaluate n form r m ≠ .error .tooDeep m') →
      evaluate n' form r m = evaluate n form r m) ∧
    (∀ callee args m, (∀ m', apply (evaluate n) callee args m ≠ .error .tooDeep m') →
      apply (evaluate n') callee args m = apply (evaluate n) callee args m) ∧
    (∀ texts m,
      (∀ step ∈ steps (evaluate n) texts m, step.1.failure ≠ some (.evaluation .tooDeep)) →
      steps (evaluate n') texts m = steps (evaluate n) texts m) ∧
    (∀ prompt text last m,
      let talk := Repl.converse (evaluate n) limits prompt text last m
      .tooDeep ∉ talk.entries → (limits' = limits ∨ talk.closing ≠ .escaped .tooDeep) →
      Repl.converse (evaluate n') limits' prompt text last m = talk) ∧
    ∀ files paths,
      let result := CommandLine.runFiles (evaluate n) limits files paths
      result.verdict ≠ .failed EvalFailure.tooDeep.message →
      (limits' = limits ∨ result.verdict ≠ .escaped .tooDeep) →
      CommandLine.runFiles (evaluate n') limits' files paths = result := by
  have agrees := agrees_evaluate le
  refine ⟨agrees, agrees_apply agrees, steps_of_agrees agrees, ?_, ?_⟩
  · exact fun prompt text last m => Repl.converseAfter_of_agrees agrees more prompt last _ _
  · exact fun files paths => CommandLine.runFilesAfter_of_agrees agrees more files [] start paths

open Session in
/-- A function that calls itself for each item of a list of three takes nine levels, and more than
nine change nothing: not for the calls, nor for the unbound name and the open list behind them. -/
theorem larger_limit_unnoticed_by_recursion :
    let define := "(define f (lambda (x) (if x (f (cdr x)) 'done)))\n"
    let texts := [define, "(f '(1 2 3)) (g)", "(define g f) (g '(1"]
    let file : CommandLine.Files := fun _ => .ok (define ++ "(f '(1 2 3))").toUTF8
    let limits : Limits := ⟨5, 4, 1⟩
    let limits' : Limits := ⟨40, 30, 20⟩
    (∃ step ∈ steps (evaluate 8) texts start, step.1.failure = some (.evaluation .tooDeep)) ∧
    steps (evaluate 200) texts start = steps (evaluate 9) texts start ∧
    Repl.converse (evaluate 200) limits' "" (String.join texts) .exhausted start =
      Repl.converse (evaluate 9) limits "" (String.join texts) .exhausted start ∧
    CommandLine.runFiles (evaluate 200) limits' file [.ofText "a"] =
      CommandLine.runFiles (evaluate 9) limits file [.ofText "a"] := by
  intro define texts file limits limits'
  have more : limits ≤ limits' := ⟨by decide, by decide, by decide⟩
  obtain ⟨-, -, inTexts, inConversation, inFiles⟩ :=
    larger_limit_unnoticed (by decide : 9 ≤ 200) more
  refine ⟨by decide +kernel, inTexts texts start ?_,
    inConversation "" (String.join texts) .exhausted start ?_ (.inr ?_),
    inFiles file [.ofText "a"] ?_ (.inr ?_)⟩
  all_goals decide +kernel

end PocketLisp
