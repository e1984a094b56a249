import PocketLisp.Proofs.Eval.Names
import PocketLisp.Proofs.Eval.Simulation

/-!
# To define a bound name is to assign to it

A definition binds its name in the scope of the form, and an assignment searches for the name from
there. If the scope of the form binds the name itself then the search ends where it begins, and the
two do the same. The value form in between cannot change this: whatever it does, no scope loses a
name by it.

The two forms report themselves by different events. That these make no difference to the
evaluation of the value form is a case of running it twice from one store (`Simulation.same`).
-/

namespace PocketLisp

open EvalM

/-- Two runs from one and the same store, after any events. -/
def Simulation.same : Simulation where
  related s s' := s' = s
  excused _ := False
  nextIdentity related := by rw [related]
  identity related := by rw [related]
  size related := by rw [related]
  addScope scope related := by rw [related]
  bound related nearest := by
    subst related
    exact ⟨nearest, rfl⟩
  unbound related nowhere := by
    subst related
    exact .inr nowhere
  define r name value related := by rw [related]

variable {m m' : Machine} {r : ScopeId} {name : String}

/-- Runs from one store end alike and leave one store. -/
theorem Simulation.Parallel.eq_of_same {α : Type} {action action' : EvalM α}
    (parallel : same.Parallel m m' action action') :
    action.outcome m = action'.outcome m' ∧
      (action.stateAfter m).store = (action'.stateAfter m').store := by
  cases run : action m with
  | ok a n =>
      obtain ⟨n', run', stores⟩ := parallel.of_ok run
      rw [outcome_of_ok run, outcome_of_ok run', stateAfter_of_ok run, stateAfter_of_ok run']
      exact ⟨rfl, stores.symm⟩
  | error failure n =>
      obtain ⟨n', run', stores⟩ := (parallel.of_error run).resolve_left id
      rw [outcome_of_error run, outcome_of_error run', stateAfter_of_error run,
        stateAfter_of_error run']
      exact ⟨rfl, stores.symm⟩

/-- A name that the scope of a form binds is still bound there when the form has its value. -/
theorem binds_after {depth : Nat} {form value : Value}
    (run : evaluate depth form r m = .ok value m') (bound : (m.store.bindings r).binds name) :
    (m'.store.bindings r).binds name := by
  have mem := Bindings.binds_iff.mp bound
  obtain ⟨binding, inScope, -⟩ := List.mem_map.mp mem
  have extended := extends_stateAfter depth form r m
  rw [stateAfter_of_ok run] at extended
  have kept := extended.names_prefix r (Store.lt_size_of_mem_bindings inScope)
  exact Bindings.binds_iff.mpr (kept.subset mem)

/-- The value form runs twice from one store, and then the value goes to the same place. -/
theorem parallel_define_assign (stores : m'.store = m.store)
    (bound : (m.store.bindings r).binds name) (depth : Nat) (form : Value) :
    Simulation.same.Parallel m m' ((Form.define name form).run (evaluate depth) r)
      ((Form.assign name form).run (evaluate depth) r) := by
  have parallel := Simulation.same.tracks_evaluate depth form r stores
  cases run : evaluate depth form r m with
  | ok value n =>
      obtain ⟨n', run', stores'⟩ := parallel.of_ok run
      have here : n'.store.Owner name r r := .here (stores' ▸ binds_after run bound)
      simp only [Simulation.Parallel, Form.run, bind_of_ok run, bind_of_ok run']
      refine ⟨n'.defined r name value, run_assign value here, ?_⟩
      show n'.store.define r name value = n.store.define r name value
      rw [stores']
  | error failure n =>
      obtain ⟨n', run', stores'⟩ := (parallel.of_error run).resolve_left id
      simp only [Simulation.Parallel, Form.run, bind_of_error run, bind_of_error run']
      exact .inr ⟨n', rfl, stores'⟩

/-- The two special forms start from one store, since all that differs is what they report. -/
theorem parallel_define_assign_special (bound : (m.store.bindings r).binds name) (depth : Nat)
    (form : Value) :
    Simulation.same.Parallel m m
      (step (evaluate depth) (.ofList [.symbol "define", .symbol name, form]) r)
      (step (evaluate depth) (.ofList [.symbol "set!", .symbol name, form]) r) := by
  have stores : (m.reported (.specialForm "set!")).store =
    (m.reported (.specialForm "define")).store := rfl
  rw [Simulation.Parallel, step_define, step_assign]
  exact parallel_define_assign stores bound depth form

/-- In a scope that binds a name itself, to define the name is to assign to it: for every value form
and to every depth, both end in the same value, for the same cause, or nested too deeply, and both
leave the same store. -/
theorem define_like_assign (bound : (m.store.bindings r).binds name) (depth : Nat) (form : Value) :
    (evaluate depth (.ofList [.symbol "define", .symbol name, form]) r).outcome m =
        (evaluate depth (.ofList [.symbol "set!", .symbol name, form]) r).outcome m ∧
      ((evaluate depth (.ofList [.symbol "define", .symbol name, form]) r).stateAfter m).store =
        ((evaluate depth (.ofList [.symbol "set!", .symbol name, form]) r).stateAfter m).store := by
  cases depth with
  | zero => exact ⟨rfl, rfl⟩
  | succ depth => exact (parallel_define_assign_special bound depth form).eq_of_same

/-- A scope with two names. -/
def twoNames : Machine where
  store := { scopes := #[⟨[("x", .int 1), ("y", .int 2)], none⟩] }

/-- The value form of `(set! x (define z 3))` adds a name to the scope. The assignment after it
leaves the bindings in the order in which the definition would leave them. -/
theorem define_like_assign_after_new_name :
    (twoNames.store.bindings 0).binds "x" ∧
      ((evaluate 3 (.ofList [.symbol "set!", .symbol "x",
        .ofList [.symbol "define", .symbol "z", .int 3]]) 0).stateAfter twoNames).store.bindings 0 =
        [("x", .int 3), ("y", .int 2), ("z", .int 3)] := by
  have bound : (twoNames.store.bindings 0).binds "x" := by decide
  have same := define_like_assign bound 3 (.ofList [.symbol "define", .symbol "z", .int 3])
  refine ⟨bound, ?_⟩
  rw [← same.2]
  decide +kernel

end PocketLisp
