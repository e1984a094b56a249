import PocketLisp.Proofs.Eval.Simulation
import PocketLisp.Proofs.Session.Forms

/-!
# Two sessions side by side

A session evaluates forms that it reads, and what it reads does not depend on its state. So two
sessions that take the same texts from related states have the same results at every step, up to a
step of the first one that ends in an excused failure.
-/

namespace PocketLisp

namespace Simulation

/-- The results end in a failure that is excused. -/
def Excuses (sim : Simulation) (results : Results) : Prop :=
  ∃ failure, results.failure = some (.evaluation failure) ∧ sim.excused failure

variable {sim : Simulation}

/-- A fault of a text is never excused. -/
theorem excuses_orFault {results : Results} {fault : Option ReadFailure} :
    sim.Excuses (results.orFault fault) ↔ sim.Excuses results := by
  obtain ⟨values, failure⟩ := results
  cases failure with
  | some failure => exact Iff.rfl
  | none => cases fault <;> simp [Excuses, Results.orFault]

theorem excuses_after {values : List Value} {results : Results} :
    sim.Excuses (results.after values) ↔ sim.Excuses results := Iff.rfl

end Simulation

namespace Session

variable {sim : Simulation} {ev ev' : Evaluator}
  (tracks : ∀ form r, sim.Tracks (ev form r) (ev' form r)) {m m' : Machine}
include tracks

theorem parallel_evalForms (forms : List Value) (related : sim.related m.store m'.store)
    (counts : ¬ sim.Excuses (evalForms ev forms m).1) :
    (evalForms ev' forms m').1 = (evalForms ev forms m).1 ∧
      sim.related (evalForms ev forms m).2.store (evalForms ev' forms m').2.store := by
  induction forms generalizing m m' with
  | nil => exact ⟨rfl, related⟩
  | cons form forms ih =>
      have parallel := tracks form globalScope related
      cases run : ev form globalScope m with
      | ok value n =>
          obtain ⟨n', run', related'⟩ := parallel.of_ok run
          rw [evalForms_of_ok run, Simulation.excuses_after] at counts
          obtain ⟨same, after⟩ := ih related' counts
          rw [evalForms_of_ok run, evalForms_of_ok run', same]
          exact ⟨rfl, after⟩
      | error failure n =>
          rw [evalForms_of_error run] at counts ⊢
          obtain excused | ⟨n', run', related'⟩ := parallel.of_error run
          · exact absurd ⟨failure, rfl, excused⟩ counts
          · rw [evalForms_of_error run']
            exact ⟨rfl, related'⟩

theorem parallel_evalText (text : String) (related : sim.related m.store m'.store)
    (counts : ¬ sim.Excuses (evalText ev text m).1) :
    (evalText ev' text m').1 = (evalText ev text m).1 ∧
      sim.related (evalText ev text m).2.store (evalText ev' text m').2.store := by
  simp only [evalText_eq, Simulation.excuses_orFault] at counts ⊢
  obtain ⟨same, after⟩ := parallel_evalForms tracks (readAll text).1 related counts
  exact ⟨by rw [same], after⟩

/-- Sessions from related states have the same results for all texts, if none of the first one's is
excused. -/
theorem parallel_steps (texts : List String) (related : sim.related m.store m'.store)
    (counts : ∀ step ∈ steps ev texts m, ¬ sim.Excuses step.1) :
    (steps ev' texts m').map Prod.fst = (steps ev texts m).map Prod.fst := by
  induction texts generalizing m m' with
  | nil => rfl
  | cons text texts ih =>
      obtain ⟨first, others⟩ := List.forall_mem_cons.mp counts
      obtain ⟨same, after⟩ := parallel_evalText tracks text related first
      rw [steps, steps, List.map_cons, List.map_cons, same, ih after others]

end Session

end PocketLisp
