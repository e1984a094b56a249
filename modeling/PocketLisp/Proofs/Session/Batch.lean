import PocketLisp.Proofs.Reader.Lines
import PocketLisp.Proofs.Session.Forms

/-!
# Reading in advance

A session evaluates each datum of a text before it reads the next one. It might as well read all
data in advance, up to the fault of the text if it has one, and evaluate them afterwards
(`Session.Batch`): the results and the state are the same. The data in front of a fault take effect,
and if one of them fails, the fault is never met. So a program may be cut into texts that are
evaluated one after another, at any place where a text is complete.
-/

namespace PocketLisp

namespace Session

/-- What comes of data that were read in advance, up to the fault behind them if there is one: the
results one by one, the answer for the whole, and the state after it. -/
inductive Batch (ev : Evaluator) (m : Machine) :
    List Value → Option ReadFailure → Results → Except Failure Value → Machine → Prop where
  /-- The evaluation of a datum fails. Neither the data behind it nor the fault are looked at. -/
  | failed {before form skipped fault values failure m₁ m'}
      (all : EachInTurn ev globalScope m before values m₁)
      (fails : ev form globalScope m₁ = .error failure m') :
      Batch ev m (before ++ form :: skipped) fault ⟨values, some (.evaluation failure)⟩
        (.error (.evaluation failure)) m'
  /-- All data have values, and then the fault is met. -/
  | faulty {data fault values m'} (all : EachInTurn ev globalScope m data values m') :
      Batch ev m data (some fault) ⟨values, some (.reading fault)⟩ (.error (.reading fault)) m'
  /-- All data have values, and the last one is the answer. -/
  | complete {data values m'} (all : EachInTurn ev globalScope m data values m') :
      Batch ev m data none ⟨values, none⟩ (.ok (values.getLast?.getD .nil)) m'

variable {ev : Evaluator} {m m' : Machine} {data values : List Value}

/-- What comes of the data is what the session finds. -/
theorem Batch.eq {fault : Option ReadFailure} {results : Results} {answer : Except Failure Value}
    (batch : Batch ev m data fault results answer m') :
    ((evalForms ev data m).1.orFault fault, (evalForms ev data m).2) = (results, m') ∧
      results.last = answer := by
  cases batch with
  | failed all fails =>
      rw [evalForms_append (evalForms_of_inTurn all), evalForms_of_error fails]
      simp [Results.orFault, Results.after, Results.last]
  | faulty all | complete all =>
      rw [evalForms_of_inTurn all]
      exact ⟨rfl, rfl⟩

theorem exists_batch (ev : Evaluator) (m : Machine) (data : List Value)
    (fault : Option ReadFailure) :
    ∃ results answer m', Batch ev m data fault results answer m' := by
  obtain ⟨values, m', run⟩ | ⟨before, form, skipped, values, failure, m₁, m', rfl, run, fails⟩ :=
    evalForms_cases ev data m
  · have all := inTurn_of_evalForms run
    cases fault with
    | none => exact ⟨_, _, _, .complete all⟩
    | some fault => exact ⟨_, _, _, .faulty all⟩
  · exact ⟨_, _, _, .failed (inTurn_of_evalForms run) fails⟩

/-- To evaluate a text datum by datum is to read its data in advance, up to its fault if it has one,
and to evaluate them then. So a text that was evaluated to its end may be evaluated together with
what follows: it gives the values, the failure and the state that the two give one after the
other. -/
theorem evalText_iff_batch (ev : Evaluator) (m : Machine) :
    (∀ text results answer m',
      (evalText ev text m = (results, m') ∧ results.last = answer) ↔
        Batch ev m (readAll text).1 (readAll text).2 results answer m') ∧
    ∀ text values m', evalText ev text m = (⟨values, none⟩, m') → ∀ more,
      evalText ev (text ++ "\n" ++ more) m =
        ((evalText ev more m').1.after values, (evalText ev more m').2) := by
  refine ⟨fun text results answer m' => ?_, fun text values m' run more => ?_⟩
  · rw [evalText_eq]
    constructor
    · rintro ⟨run, rfl⟩
      obtain ⟨results', answer', m'', batch⟩ :=
        exists_batch ev m (readAll text).1 (readAll text).2
      obtain ⟨run', rfl⟩ := batch.eq
      obtain ⟨rfl, rfl⟩ := Prod.mk.inj (run.symm.trans run')
      exact batch
    · exact Batch.eq
  · obtain ⟨read, run⟩ := evalForms_of_evalText ev run
    rw [evalText_eq, readAll_append_newline read, evalForms_append run, evalText_eq,
      Results.orFault_after]

end Session

end PocketLisp
