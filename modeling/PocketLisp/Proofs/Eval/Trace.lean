import PocketLisp.Proofs.Eval.Call
import PocketLisp.Proofs.Eval.Lockstep

/-!
# Traces

Evaluation never looks at what was reported before. With other events in front it does the same and
reports the same behind them (`EvalM.Oblivious`), as all its operations do. So what an evaluation
reports depends on nothing but the store in which it starts (`EvalM.trace`), and the traces of forms
that are evaluated in turn follow on one another (`tracesInTurn`).

A call is rejected before anything is changed or reported (`Value.Rejects`), so of a rejected call
there are only the traces of its head and of its arguments.
-/

namespace PocketLisp

namespace Machine

/-- The state with other events in front of its own. -/
def behind (m : Machine) (earlier : Array Event) : Machine :=
  { m with trace := earlier ++ m.trace }

variable (m : Machine) (earlier : Array Event)

@[simp] theorem store_behind : (m.behind earlier).store = m.store := rfl

@[simp] theorem trace_behind : (m.behind earlier).trace = earlier ++ m.trace := rfl

theorem reported_behind (event : Event) :
    (m.behind earlier).reported event = (m.reported event).behind earlier := by
  simp [behind, reported]

/-- Every state has its events in front of none. -/
theorem eq_behind : m = Machine.behind ⟨m.store, #[]⟩ m.trace := by
  simp [behind]

end Machine

namespace EvalM

variable {α β : Type} {action action' : EvalM α} {next next' : α → EvalM β}
variable {m n m' : Machine} {a : α} {failure : EvalFailure}

/-- With other events in front of it the second action does what the first one does without. -/
def Oblivious (action action' : EvalM α) : Prop :=
  ∀ m earlier, match action m with
    | .ok a n => action' (m.behind earlier) = .ok a (n.behind earlier)
    | .error failure n => action' (m.behind earlier) = .error failure (n.behind earlier)

theorem Oblivious.of_ok (h : action.Oblivious action') (run : action m = .ok a n)
    (earlier : Array Event) : action' (m.behind earlier) = .ok a (n.behind earlier) := by
  simpa only [run] using h m earlier

theorem Oblivious.of_error (h : action.Oblivious action') (run : action m = .error failure n)
    (earlier : Array Event) : action' (m.behind earlier) = .error failure (n.behind earlier) := by
  simpa only [run] using h m earlier

theorem Oblivious.bind (first : action.Oblivious action')
    (rest : ∀ a, (next a).Oblivious (next' a)) :
    (action >>= next).Oblivious (action' >>= next') := by
  intro m earlier
  cases run : action m with
  | ok a n =>
      rw [bind_of_ok run, bind_of_ok (first.of_ok run earlier)]
      exact rest a n earlier
  | error failure n =>
      rw [bind_of_error run]
      exact bind_of_error (first.of_error run earlier) next'

theorem oblivious_report (event : Event) : (report event).Oblivious (report event) :=
  fun m earlier => congrArg (EStateM.Result.ok ()) (m.reported_behind earlier event)

theorem oblivious_lookup (r : ScopeId) (name : String) :
    (lookup r name).Oblivious (lookup r name) := by
  intro m earlier
  by_cases somewhere : ∃ owner, m.store.Owner name r owner
  · obtain ⟨owner, nearest⟩ := somewhere
    obtain ⟨value, found⟩ := nearest.bound
    rw [run_lookup nearest found]
    exact run_lookup (m := m.behind earlier) nearest found
  · have nowhere := not_exists.mp somewhere
    rw [run_lookup_unbound nowhere]
    exact run_lookup_unbound (m := m.behind earlier) nowhere

theorem oblivious_assign (r : ScopeId) (name : String) (value : Value) :
    (assign r name value).Oblivious (assign r name value) := by
  intro m earlier
  by_cases somewhere : ∃ owner, m.store.Owner name r owner
  · obtain ⟨owner, nearest⟩ := somewhere
    rw [run_assign value nearest]
    exact run_assign (m := m.behind earlier) value nearest
  · have nowhere := not_exists.mp somewhere
    rw [run_assign_unbound value nowhere]
    exact run_assign_unbound (m := m.behind earlier) value nowhere

theorem lockstep_oblivious : Lockstep @Oblivious where
  bind first rest := first.bind rest
  check
    | .ok _ => fun _ _ => rfl
    | .error _ => fun _ _ => rfl
  report := oblivious_report
  addScope _ _ _ := rfl
  freshIdentity _ _ := rfl
  lookup := oblivious_lookup
  define _ _ _ _ _ := rfl
  assign := oblivious_assign

theorem oblivious_evaluate (depth : Nat) (form : Value) (r : ScopeId) :
    (evaluate depth form r).Oblivious (evaluate depth form r) := by
  induction depth generalizing form r with
  | zero => exact fun _ _ => rfl
  | succ depth ih => exact lockstep_oblivious.step ih form r

/-- The events that an action reports if it starts in the store `s`. -/
def trace (action : EvalM α) (s : Store) : List Event :=
  (action.stateAfter ⟨s, #[]⟩).trace.toList

/-- Of the state in which it starts an action sees the store alone. -/
theorem Oblivious.stateAfter_eq (h : action.Oblivious action) (m : Machine) :
    action.stateAfter m = (action.stateAfter ⟨m.store, #[]⟩).behind m.trace := by
  cases run : action ⟨m.store, #[]⟩ with
  | ok a n =>
      have run' := h.of_ok run m.trace
      rw [← m.eq_behind] at run'
      rw [stateAfter_of_ok run, stateAfter_of_ok run']
  | error failure n =>
      have run' := h.of_error run m.trace
      rw [← m.eq_behind] at run'
      rw [stateAfter_of_error run, stateAfter_of_error run']

theorem Oblivious.store_stateAfter (h : action.Oblivious action) (m : Machine) :
    (action.stateAfter ⟨m.store, #[]⟩).store = (action.stateAfter m).store := by
  rw [h.stateAfter_eq m, Machine.store_behind]

/-- The trace of an action comes behind what was reported before. -/
theorem Oblivious.toList_trace (h : action.Oblivious action) (m : Machine) :
    (action.stateAfter m).trace.toList = m.trace.toList ++ action.trace m.store := by
  rw [h.stateAfter_eq m, Machine.trace_behind, Array.toList_append, trace]

theorem Oblivious.trace_eq_iff (h : action.Oblivious action) (m : Machine) {events : List Event} :
    action.trace m.store = events ↔
      (action.stateAfter m).trace.toList = m.trace.toList ++ events := by
  rw [h.toList_trace m, List.append_cancel_left_eq]

end EvalM

open EvalM

/-- The callee does not take the arguments: it is a procedure that fails on them, a closure that has
another number of parameters or parameters that are no symbols, or no function at all. -/
inductive Value.Rejects : Value → List Value → EvalError → Prop where
  | procedure {id name operation args e} (fails : Primitive.Performs operation args (.error e)) :
      Rejects (.procedure id name operation) args e
  | closureCount {id params body captured args} (count : args.length ≠ params.elements.length) :
      Rejects (.closure id params body captured) args
        (.wrongCount args.length params.elements.length)
  | closureName {id params body captured args param}
      (count : args.length = params.elements.length)
      (first : FirstNonSymbol params.elements param) :
      Rejects (.closure id params body captured) args (.mismatch param .symbol)
  | inapplicable {callee args} (inapplicable : ¬ callee.Applicable) :
      Rejects callee args (.mismatch callee .function)

/-- The traces of forms that are evaluated in turn, up to the first that fails. -/
def tracesInTurn (ev : Evaluator) (r : ScopeId) : List Value → Machine → List (List Event)
  | [], _ => []
  | form :: forms, m =>
    (ev form r).trace m.store ::
      match ev form r m with
      | .ok _ m' => tracesInTurn ev r forms m'
      | .error _ _ => []

section Turns

variable {ev : Evaluator} {r : ScopeId} {m m' : Machine} {form value : Value}
variable {forms values : List Value}

theorem tracesInTurn_of_ok (run : ev form r m = .ok value m') (forms : List Value) :
    tracesInTurn ev r (form :: forms) m =
      (ev form r).trace m.store :: tracesInTurn ev r forms m' := by
  rw [tracesInTurn, run]

theorem tracesInTurn_of_error {failure : EvalFailure} (run : ev form r m = .error failure m')
    (forms : List Value) :
    tracesInTurn ev r (form :: forms) m = [(ev form r).trace m.store] := by
  rw [tracesInTurn, run]

variable (oblivious : ∀ form r, (ev form r).Oblivious (ev form r))
include oblivious

theorem toList_trace_of_ok (run : ev form r m = .ok value m') :
    m'.trace.toList = m.trace.toList ++ (ev form r).trace m.store := by
  rw [← (oblivious form r).toList_trace m, stateAfter_of_ok run]

theorem toList_trace_of_error {failure : EvalFailure} (run : ev form r m = .error failure m') :
    m'.trace.toList = m.trace.toList ++ (ev form r).trace m.store := by
  rw [← (oblivious form r).toList_trace m, stateAfter_of_error run]

/-- Forms that all have values report one after another. -/
theorem EachInTurn.toList_trace (all : EachInTurn ev r m forms values m') :
    m'.trace.toList = m.trace.toList ++ (tracesInTurn ev r forms m).flatten := by
  induction all with
  | nil => simp [tracesInTurn]
  | cons run _ ih =>
      rw [ih, toList_trace_of_ok oblivious run, tracesInTurn_of_ok run, List.flatten_cons,
        List.append_assoc]

/-- The forms of a body report one after another. -/
theorem toList_trace_body (last : Value) (forms : List Value) (r : ScopeId) (m : Machine) :
    (((Task.body last forms r).run ev).stateAfter m).trace.toList =
      m.trace.toList ++ (tracesInTurn ev r forms m).flatten := by
  induction forms generalizing last m with
  | nil =>
      change m.trace.toList = _
      simp [tracesInTurn]
  | cons form forms ih =>
      rw [run_body_cons]
      cases run : ev form r m with
      | ok value m' =>
          rw [stateAfter_bind_of_ok run, ih, toList_trace_of_ok oblivious run,
            tracesInTurn_of_ok run, List.flatten_cons, List.append_assoc]
      | error failure m' =>
          rw [stateAfter_of_error (bind_of_error run _), toList_trace_of_error oblivious run,
            tracesInTurn_of_error run, List.flatten_singleton]

end Turns

section Calls

variable {ev : Evaluator} {r : ScopeId} {m m' : Machine} {args : List Value}
variable {head callee : Value}

/-- A rejected call changes nothing and reports nothing. -/
theorem apply_of_rejects {e : EvalError} (rejects : callee.Rejects args e) (ev : Evaluator)
    (m : Machine) : apply ev callee args m = .error (.error e) m := by
  cases rejects with
  | procedure fails => exact congrFun (congrArg ofExcept (Primitive.run_eq_iff.mpr fails)) m
  | closureCount count => exact run_closure_refused ev (callScope_count count) m
  | closureName count first => exact run_closure_refused ev (callScope_name count first) m
  | inapplicable inapplicable =>
      rw [apply_inapplicable ev inapplicable]
      rfl

theorem trace_of_rejects {e : EvalError} (rejects : callee.Rejects args e) (s : Store) :
    (apply ev callee args).trace s = [] := by
  rw [trace, stateAfter_of_error (apply_of_rejects rejects ev ⟨s, #[]⟩)]

/-- Of a special form of the wrong shape nothing but the form is reported. -/
theorem trace_refused {special : SpecialForm} {rest : Value} {e : EvalError}
    (refuses : special.Refuses rest.elements e) (s : Store) :
    (step ev (.pair (.symbol special.name) rest) r).trace s = [.specialForm special.name] := by
  rw [trace, stateAfter_of_error (run_refused ev r refuses ⟨s, #[]⟩)]
  rfl

variable (oblivious : ∀ form r, (ev form r).Oblivious (ev form r))
include oblivious

/-- A call reports behind its head and its arguments. -/
theorem trace_call (ordinary : head.OrdinaryHead) {rest : Value}
    (all : EachInTurn ev r m (head :: rest.elements) (callee :: args) m') :
    (step ev (.pair head rest) r).trace m.store =
      (tracesInTurn ev r (head :: rest.elements) m).flatten ++
        (apply ev callee args).trace m'.store := by
  have applied := (lockstep_oblivious.apply oblivious callee args).toList_trace m'
  rw [(lockstep_oblivious.step oblivious _ r).trace_eq_iff m, stateAfter, run_call ordinary all,
    ← stateAfter, applied, all.toList_trace oblivious, List.append_assoc]

/-- A special form is reported in front of all that it reports itself. -/
theorem trace_special (special : SpecialForm) (rest : Value) (s : Store) :
    (step ev (.pair (.symbol special.name) rest) r).trace s =
      .specialForm special.name :: (special.run ev rest.elements r).trace s := by
  have run : report (.specialForm special.name) ⟨s, #[]⟩ =
    .ok () (Machine.reported ⟨s, #[]⟩ (.specialForm special.name)) := rfl
  rw [step_special, trace, stateAfter_bind_of_ok run]
  exact (lockstep_oblivious.special oblivious special rest.elements r).toList_trace _

/-- A call of a closure is reported in front of all that its body reports. -/
theorem trace_closure (id : Identity) {params : Value} (body : Value) (captured : ScopeId)
    {names : List String} (symbols : params.elements = names.map .symbol)
    (count : args.length = names.length) (s : Store) :
    (apply ev (.closure id params body captured) args).trace s =
      .applying (.closure id params body captured) args ::
        (evalBody ev body.elements s.scopes.size).trace
          (s.addScope ⟨bindNames names args, some captured⟩).2 := by
  have checked : callScope params.elements captured args =
      .ok ⟨bindNames names args, some captured⟩ := callScope_symbols symbols count
  rw [trace, stateAfter, run_closure ev checked ⟨s, #[]⟩]
  exact (lockstep_oblivious.body oblivious .nil body.elements s.scopes.size).toList_trace _

end Calls

end PocketLisp
