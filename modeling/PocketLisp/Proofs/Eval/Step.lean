import PocketLisp.Eval.Evaluate
import PocketLisp.Proofs.Eval.Ending
import PocketLisp.Proofs.Eval.Shape

/-!
# One step of evaluation

What an evaluator does first with a form, a call, a body, or a closure and its arguments, as one
equation or one ending each. Proofs about evaluation go by these and do not unfold the evaluator.
-/

namespace PocketLisp

open EvalM

/-- The computation that carries out a task, given an evaluator for the forms in it. -/
def Task.run (ev : Evaluator) : Task → EvalM Value
  | .eval form r => ev form r
  | .arguments callee values forms r => do
    let rest ← forms.mapM (ev · r)
    apply ev callee (values ++ rest)
  | .application callee args => apply ev callee args
  | .body last forms r => forms.foldlM (fun _ form => ev form r) last

section Equations

variable (ev : Evaluator) (r : ScopeId)

theorem run_arguments_nil (callee : Value) (values : List Value) :
    (Task.arguments callee values [] r).run ev = (Task.application callee values).run ev := by
  simp [Task.run]

theorem run_arguments_cons (callee : Value) (values : List Value) (form : Value)
    (forms : List Value) :
    (Task.arguments callee values (form :: forms) r).run ev =
      ev form r >>= fun value => (Task.arguments callee (values ++ [value]) forms r).run ev := by
  simp [Task.run]

theorem run_body_cons (last form : Value) (forms : List Value) :
    (Task.body last (form :: forms) r).run ev =
      ev form r >>= fun value => (Task.body value forms r).run ev := by
  simp [Task.run]

theorem step_special (special : SpecialForm) (rest : Value) :
    step ev (.pair (.symbol special.name) rest) r =
      report (.specialForm special.name) >>= fun _ => special.run ev rest.elements r := by
  simp [step, SpecialForm.ofHead?]

theorem step_call {head : Value} (ordinary : head.OrdinaryHead) (rest : Value) :
    step ev (.pair head rest) r =
      ev head r >>= fun callee => (Task.arguments callee [] rest.elements r).run ev := by
  simp [step, ordinary.ofHead?_eq_none, Task.run]

theorem step_self {form : Value} (self : form.SelfEvaluating) : step ev form r = pure form := by
  cases form with
  | symbol name => exact absurd ⟨name, rfl⟩ self.1
  | pair first rest => exact absurd ⟨first, rest, rfl⟩ self.2
  | _ => rfl

theorem apply_inapplicable {callee : Value} (inapplicable : ¬ callee.Applicable)
    (args : List Value) : apply ev callee args = fail (.mismatch callee .function) := by
  cases callee with
  | procedure id name operation => exact absurd (.inl ⟨id, name, operation, rfl⟩) inapplicable
  | closure id params body captured =>
      exact absurd (.inr ⟨id, params, body, captured, rfl⟩) inapplicable
  | _ => rfl

/-- A lambda makes one closure and leaves the scopes as they were. -/
theorem ends_lambda (names : List String) (body : List Value) (m : Machine) :
    ((Form.lambda names body).run ev r).Ends m
      (.ok (.closure m.store.nextIdentity (.ofList (names.map .symbol)) (.ofList body) r))
      { m.store with nextIdentity := m.store.nextIdentity + 1 } :=
  ⟨_, rfl, rfl⟩

end Equations

section Calls

variable {params args : List Value} {captured : ScopeId}

theorem callScope_count (count : args.length ≠ params.length) :
    callScope params captured args = .error (.wrongCount args.length params.length) := by
  simp [callScope, checkCount, count, bind, Except.bind]

theorem callScope_name {param : Value} (count : args.length = params.length)
    (first : FirstNonSymbol params param) :
    callScope params captured args = .error (.mismatch param .symbol) := by
  simp [callScope, checkCount, count, symbolNames_of_first first, bind, Except.bind]

theorem callScope_symbols {names : List String} (symbols : params = names.map .symbol)
    (count : args.length = names.length) :
    callScope params captured args = .ok ⟨bindNames names args, some captured⟩ := by
  simp [callScope, checkCount, count, symbols, bind, Except.bind, pure, Except.pure]

end Calls

section Runs

variable (ev : Evaluator) (r : ScopeId) {special : SpecialForm} {rest : Value}

/-- A special form of the right shape is reported and carried out. -/
theorem run_accepted {form : Form} (accepts : special.Accepts rest.elements form) (m : Machine) :
    step ev (.pair (.symbol special.name) rest) r m =
      form.run ev r (m.reported (.specialForm special.name)) := by
  rw [step_special]
  exact run_checked (SpecialForm.shape_of_accepts accepts) _ (m.reported _)

theorem step_define (name : String) (form : Value) (m : Machine) :
    step ev (.ofList [.symbol "define", .symbol name, form]) r m =
      (Form.define name form).run ev r (m.reported (.specialForm "define")) := by
  have accepts : SpecialForm.define.Accepts (Value.ofList [.symbol name, form]).elements
    (.define name form) := .define
  exact run_accepted ev r accepts m

theorem step_assign (name : String) (form : Value) (m : Machine) :
    step ev (.ofList [.symbol "set!", .symbol name, form]) r m =
      (Form.assign name form).run ev r (m.reported (.specialForm "set!")) := by
  have accepts : SpecialForm.assign.Accepts (Value.ofList [.symbol name, form]).elements
    (.assign name form) := .assign
  exact run_accepted ev r accepts m

theorem step_quote (datum : Value) (m : Machine) :
    step ev datum.quote r m =
      (Form.quote datum).run ev r (m.reported (.specialForm "quote")) := by
  have accepts : SpecialForm.quote.Accepts (Value.ofList [datum]).elements (.quote datum) := .quote
  exact run_accepted ev r accepts m

theorem run_refused {e : EvalError} (refuses : special.Refuses rest.elements e) (m : Machine) :
    step ev (.pair (.symbol special.name) rest) r m =
      .error (.error e) (m.reported (.specialForm special.name)) := by
  rw [step_special]
  exact run_unchecked (SpecialForm.shape_of_refuses refuses) _ (m.reported _)

/-- A closure runs its body in a new scope, once the application is reported. -/
theorem run_closure {id : Identity} {params body : Value} {captured : ScopeId}
    {args : List Value} {scope : Scope}
    (checked : callScope params.elements captured args = .ok scope) (m : Machine) :
    apply ev (.closure id params body captured) args m =
      (Task.body .nil body.elements m.store.scopes.size).run ev
        ((m.added scope).reported (.applying (.closure id params body captured) args)) :=
  run_checked checked _ m

theorem run_closure_refused {id : Identity} {params body : Value} {captured : ScopeId}
    {args : List Value} {e : EvalError}
    (checked : callScope params.elements captured args = .error e) (m : Machine) :
    apply ev (.closure id params body captured) args m = .error (.error e) m :=
  run_unchecked checked _ m

end Runs

end PocketLisp
