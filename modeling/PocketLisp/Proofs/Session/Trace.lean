import PocketLisp.Proofs.Eval.Course
import PocketLisp.Proofs.Eval.Trace
import PocketLisp.Proofs.Session.Forms

/-!
# The debugging trace is faithful

What the trace of an evaluation tells is said twice. As a whole it is the account of a course of
happenings that leads from the store in front to the store behind, whatever the outcome is: one call
for each scope that was made, one closure for each identity that was taken, and all of them in
order. Part by part it is put together from the traces of the forms that are evaluated on the way: a
special form or a call is reported in front of what follows from it, and forms in turn report in
turn. Calls that are rejected and lambdas of the wrong shape add nothing.
-/

namespace PocketLisp

open EvalM

/-- The forms of a session report one after another. -/
theorem Session.toList_trace_evalForms {ev : Evaluator}
    (oblivious : ∀ form r, (ev form r).Oblivious (ev form r)) (forms : List Value) (m : Machine) :
    (evalForms ev forms m).2.trace.toList =
      m.trace.toList ++ (tracesInTurn ev globalScope forms m).flatten := by
  induction forms generalizing m with
  | nil => simp [evalForms, tracesInTurn]
  | cons form forms ih =>
      cases run : ev form globalScope m with
      | ok value m' =>
          rw [evalForms_of_ok run, ih, toList_trace_of_ok oblivious run, tracesInTurn_of_ok run,
            List.flatten_cons, List.append_assoc]
      | error failure m' =>
          rw [evalForms_of_error run, toList_trace_of_error oblivious run,
            tracesInTurn_of_error run, List.flatten_singleton]

/-- What is reported of evaluation in the scope `r`, from the state `m` on. -/
structure FaithfulTrace (depth : Nat) (r : ScopeId) (m : Machine) : Prop where
  /-- The trace of a form tells what leads to the store that its evaluation leaves. -/
  account (form : Value) :
    Account m.store ((evaluate depth form r).trace m.store)
      ((evaluate depth form r).stateAfter m).store
  /-- It comes behind all earlier events. -/
  behind (form : Value) :
    ((evaluate depth form r).stateAfter m).trace.toList =
      m.trace.toList ++ (evaluate depth form r).trace m.store
  /-- The trace of a body is that of its forms in turn. -/
  body (forms : List Value) :
    ((evalBody (evaluate depth) forms r).stateAfter m).trace.toList =
      m.trace.toList ++ (tracesInTurn (evaluate depth) r forms m).flatten
  /-- The trace of a session is that of the forms that it reads. -/
  session (forms : List Value) :
    (Session.evalForms (evaluate depth) forms m).2.trace.toList =
      m.trace.toList ++ (tracesInTurn (evaluate depth) Session.globalScope forms m).flatten
  /-- A special form is reported in front of what it does. -/
  special (special : SpecialForm) (rest : Value) :
    (evaluate (depth + 1) (.pair (.symbol special.name) rest) r).trace m.store =
      .specialForm special.name :: (special.run (evaluate depth) rest.elements r).trace m.store
  /-- A call reports behind its head and its arguments. -/
  call {head rest callee : Value} {args : List Value} {m' : Machine}
    (ordinary : head.OrdinaryHead)
    (all : EachInTurn (evaluate depth) r m (head :: rest.elements) (callee :: args) m') :
    (evaluate (depth + 1) (.pair head rest) r).trace m.store =
      (tracesInTurn (evaluate depth) r (head :: rest.elements) m).flatten ++
        (apply (evaluate depth) callee args).trace m'.store
  /-- The call of a closure is reported in front of its body. -/
  entered (id : Identity) {params : Value} (body : Value) (captured : ScopeId)
    {names : List String} {args : List Value} (symbols : params.elements = names.map .symbol)
    (count : args.length = names.length) :
    (apply (evaluate depth) (.closure id params body captured) args).trace m.store =
      .applying (.closure id params body captured) args ::
        (evalBody (evaluate depth) body.elements m.store.scopes.size).trace
          (m.store.addScope ⟨bindNames names args, some captured⟩).2
  /-- A rejected call adds nothing to what its head and its arguments report. -/
  rejected {head rest callee : Value} {args : List Value} {e : EvalError} {m' : Machine}
    (ordinary : head.OrdinaryHead)
    (all : EachInTurn (evaluate depth) r m (head :: rest.elements) (callee :: args) m')
    (rejects : callee.Rejects args e) :
    evaluate (depth + 1) (.pair head rest) r m = .error (.error e) m' ∧
      (evaluate (depth + 1) (.pair head rest) r).trace m.store =
        (tracesInTurn (evaluate depth) r (head :: rest.elements) m).flatten
  /-- Of a special form of the wrong shape, a lambda among others, nothing but the form is
  reported. -/
  malformed {special : SpecialForm} {rest : Value} {e : EvalError}
    (refuses : special.Refuses rest.elements e) :
    evaluate (depth + 1) (.pair (.symbol special.name) rest) r m =
        .error (.error e) (m.reported (.specialForm special.name)) ∧
      (evaluate (depth + 1) (.pair (.symbol special.name) rest) r).trace m.store =
        [.specialForm special.name]

/-- The trace of evaluation is faithful. -/
theorem trace_faithful (depth : Nat) (r : ScopeId) (m : Machine) : FaithfulTrace depth r m where
  account form := by
    obtain ⟨history, told⟩ := exists_told_evaluate depth form r m.store
    rw [trace, told.trace, ← (oblivious_evaluate depth form r).store_stateAfter m]
    exact told.course.account
  behind form := (oblivious_evaluate depth form r).toList_trace m
  body forms := toList_trace_body (oblivious_evaluate depth) .nil forms r m
  session forms := Session.toList_trace_evalForms (oblivious_evaluate depth) forms m
  special special rest := trace_special (oblivious_evaluate depth) special rest m.store
  call ordinary all := trace_call (oblivious_evaluate depth) ordinary all
  entered id _ body captured _ _ symbols count :=
    trace_closure (oblivious_evaluate depth) id body captured symbols count m.store
  rejected ordinary all rejects := by
    refine ⟨(run_call ordinary all).trans (apply_of_rejects rejects _ _), ?_⟩
    refine (trace_call (oblivious_evaluate depth) ordinary all).trans ?_
    rw [trace_of_rejects rejects, List.append_nil]
  malformed refuses := ⟨run_refused (evaluate depth) r refuses m, trace_refused refuses m.store⟩

/-- The form `(lambda (y) (lambda (2) y))`. -/
def failsInside : Value :=
  .ofList [.symbol "lambda", .ofList [.symbol "y"],
    .ofList [.symbol "lambda", .ofList [.int 2], .symbol "y"]]

/-- The closure that it makes outside. -/
def failingClosure : Value :=
  .closure 0 (.ofList [.symbol "y"])
    (.ofList [.ofList [.symbol "lambda", .ofList [.int 2], .symbol "y"]]) 0

/-- Applied to one argument the closure is entered and fails inside, and without an argument it is
not entered. -/
theorem trace_faithful_failing_closure :
    (evaluate 4 (.ofList [failsInside, .int 1]) 0).trace outside.store =
        [.specialForm "lambda", .closureMade failingClosure,
          .applying failingClosure [.int 1], .specialForm "lambda"] ∧
      ((evaluate 4 (.ofList [failsInside, .int 1]) 0).stateAfter outside).store.scopes.size = 2 ∧
      ((evaluate 4 (.ofList [failsInside, .int 1]) 0).stateAfter outside).store.nextIdentity = 1 ∧
      ∃ m', evaluate 4 (.ofList [failsInside]) 0 outside =
          .error (.error (.wrongCount 0 1)) m' ∧
        (evaluate 4 (.ofList [failsInside]) 0).trace outside.store =
          [.specialForm "lambda", .closureMade failingClosure] := by
  have entered : (evaluate 4 (.ofList [failsInside, .int 1]) 0).trace outside.store =
      [.specialForm "lambda", .closureMade failingClosure,
        .applying failingClosure [.int 1], .specialForm "lambda"] := by decide +kernel
  have account := (trace_faithful 4 0 outside).account (.ofList [failsInside, .int 1])
  rw [entered] at account
  have ordinary : failsInside.OrdinaryHead := fun _ => nofun
  have head : evaluate 3 failsInside 0 outside =
      .ok failingClosure ((evaluate 3 failsInside 0).stateAfter outside) := rfl
  have all : EachInTurn (evaluate 3) 0 outside (failsInside :: Value.nil.elements)
      [failingClosure] ((evaluate 3 failsInside 0).stateAfter outside) := .cons head .nil
  obtain ⟨fails, reports⟩ :=
    (trace_faithful 3 0 outside).rejected ordinary all (.closureCount (by decide))
  refine ⟨entered, account.calls, account.closures, _, fails, reports.trans ?_⟩
  decide +kernel

end PocketLisp
