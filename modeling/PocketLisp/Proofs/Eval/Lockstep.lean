import PocketLisp.Proofs.Eval.Step

/-!
# Two evaluations in lockstep

An evaluator does nothing but put actions in turn: checks, operations on the state, and the
evaluation of the forms inside the form. So a relation of actions that holds of every operation and
goes over to actions in turn holds of whole steps as soon as it holds of the evaluators for the
forms inside (`Lockstep.step`). It is enough to look at the operations one by one, and the way
through the forms is gone only once for all such relations.
-/

namespace PocketLisp

open EvalM

/-- The relation holds of every operation and itself, and of actions in turn if it holds of each of
them. -/
structure Lockstep (related : ∀ {α : Type}, EvalM α → EvalM α → Prop) : Prop where
  bind {α β : Type} {action action' : EvalM α} {next next' : α → EvalM β} :
    related action action' → (∀ a, related (next a) (next' a)) →
      related (action >>= next) (action' >>= next')
  check {α : Type} (result : Except EvalError α) : related (ofExcept result) (ofExcept result)
  report (event : Event) : related (report event) (report event)
  addScope (scope : Scope) : related (addScope scope) (addScope scope)
  freshIdentity : related freshIdentity freshIdentity
  lookup (r : ScopeId) (name : String) : related (lookup r name) (lookup r name)
  define (r : ScopeId) (name : String) (value : Value) :
    related (define r name value) (define r name value)
  assign (r : ScopeId) (name : String) (value : Value) :
    related (assign r name value) (assign r name value)

namespace Lockstep

variable {related : ∀ {α : Type}, EvalM α → EvalM α → Prop} (lockstep : Lockstep related)
variable {ev ev' : Evaluator}
include lockstep

theorem pure {α : Type} (a : α) : related (Pure.pure a) (Pure.pure a) :=
  lockstep.check (.ok a)

variable (evaluators : ∀ form r, related (ev form r) (ev' form r))
include evaluators

theorem body (last : Value) (forms : List Value) (r : ScopeId) :
    related ((Task.body last forms r).run ev) ((Task.body last forms r).run ev') := by
  induction forms generalizing last with
  | nil => exact lockstep.pure last
  | cons form forms ih =>
      rw [run_body_cons, run_body_cons]
      exact lockstep.bind (evaluators form r) ih

theorem apply (callee : Value) (args : List Value) :
    related (PocketLisp.apply ev callee args) (PocketLisp.apply ev' callee args) := by
  cases callee with
  | procedure id name operation => exact lockstep.check (operation.run args)
  | closure id params body captured =>
      refine lockstep.bind (lockstep.check _) fun scope => ?_
      refine lockstep.bind (lockstep.addScope scope) fun r => ?_
      exact lockstep.bind (lockstep.report _) fun _ =>
        lockstep.body evaluators .nil body.elements r
  | nil | int | symbol | pair => exact lockstep.check (.error _)

theorem arguments (callee : Value) (values forms : List Value) (r : ScopeId) :
    related ((Task.arguments callee values forms r).run ev)
      ((Task.arguments callee values forms r).run ev') := by
  induction forms generalizing values with
  | nil =>
      rw [run_arguments_nil, run_arguments_nil]
      exact lockstep.apply evaluators callee values
  | cons form forms ih =>
      rw [run_arguments_cons, run_arguments_cons]
      exact lockstep.bind (evaluators form r) fun value => ih (values ++ [value])

theorem form (form : Form) (r : ScopeId) : related (form.run ev r) (form.run ev' r) := by
  cases form with
  | quote datum => exact lockstep.pure datum
  | branch test yes no =>
      refine lockstep.bind (evaluators test r) fun value => ?_
      split
      · exact evaluators yes r
      · cases no with
        | some no => exact evaluators no r
        | none => exact lockstep.pure Value.nil
  | define name form =>
      exact lockstep.bind (evaluators form r) fun value => lockstep.define r name value
  | assign name form =>
      exact lockstep.bind (evaluators form r) fun value => lockstep.assign r name value
  | lambda names body =>
      refine lockstep.bind (lockstep.bind lockstep.freshIdentity fun id => lockstep.pure _)
        fun closure => ?_
      exact lockstep.bind (lockstep.report _) fun _ => lockstep.pure closure

theorem special (special : SpecialForm) (args : List Value) (r : ScopeId) :
    related (special.run ev args r) (special.run ev' args r) :=
  lockstep.bind (lockstep.check _) fun form => lockstep.form evaluators form r

/-- A step over evaluators that are related is related. -/
theorem step (form : Value) (r : ScopeId) :
    related (PocketLisp.step ev form r) (PocketLisp.step ev' form r) := by
  cases form with
  | symbol name => exact lockstep.lookup r name
  | pair head rest =>
      obtain ordinary | ⟨special, rfl⟩ := head.ordinary_or_special
      · rw [step_call ev r ordinary, step_call ev' r ordinary]
        exact lockstep.bind (evaluators head r) fun callee =>
          lockstep.arguments evaluators callee [] rest.elements r
      · rw [step_special, step_special]
        exact lockstep.bind (lockstep.report _) fun _ =>
          lockstep.special evaluators special rest.elements r
  | nil | int | procedure | closure => exact lockstep.pure _

end Lockstep

end PocketLisp
