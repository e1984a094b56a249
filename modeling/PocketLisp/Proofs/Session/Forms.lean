import PocketLisp.Host
import PocketLisp.Proofs.Eval.Call
import PocketLisp.Proofs.Reader.Feed
import PocketLisp.Session

/-!
# A session as the evaluation of lists of forms

A session reads a text while it evaluates it, and the prompt loop reads a block before it evaluates
it. Both evaluate a list of forms one after another, up to the first failure (`Session.evalForms`).
For a text these are the data in front of its fault, if it has one, and the fault is met only if all
of them have values (`Session.evalText_eq`).

Where the values are printed as well, that there is no room for one stops the forms just as a
failure does (`Session.shows_cases`).
-/

namespace PocketLisp

namespace Results

/-- The results with values found before them. -/
def after (values : List Value) (results : Results) : Results :=
  ⟨values ++ results.values, results.failure⟩

/-- The results of forms behind which the text has a fault, or has none. A failure of the forms
comes before it. -/
def orFault (results : Results) (fault : Option ReadFailure) : Results :=
  ⟨results.values, results.failure.or (fault.map .reading)⟩

@[simp] theorem after_after (values values' : List Value) (results : Results) :
    (results.after values').after values = results.after (values ++ values') := by
  simp [after]

@[simp] theorem orFault_after (values : List Value) (results : Results)
    (fault : Option ReadFailure) :
    (results.after values).orFault fault = (results.orFault fault).after values := rfl

end Results

namespace Session

/-- Evaluates forms in turn in the global scope, up to the first failure. -/
def evalForms (ev : Evaluator) : List Value → Machine → Results × Machine
  | [], m => (⟨[], none⟩, m)
  | form :: forms, m =>
    match ev form globalScope m with
    | .ok value m =>
      let rest := evalForms ev forms m
      (rest.1.after [value], rest.2)
    | .error failure m => (⟨[], some (.evaluation failure)⟩, m)

/-- The steps of a session that evaluates texts in turn: the results of each text, and the state
after it. -/
def steps (ev : Evaluator) : List String → Machine → List (Results × Machine)
  | [], _ => []
  | text :: texts, m => evalText ev text m :: steps ev texts (evalText ev text m).2

section Equations

variable {ev : Evaluator} {form value : Value} {failure : EvalFailure} {m m' : Machine}

theorem evalForms_of_ok (run : ev form globalScope m = .ok value m') (forms : List Value) :
    evalForms ev (form :: forms) m =
      ((evalForms ev forms m').1.after [value], (evalForms ev forms m').2) := by
  rw [evalForms, run]

/-- The forms behind one that fails are skipped. -/
theorem evalForms_of_error (run : ev form globalScope m = .error failure m')
    (forms : List Value) :
    evalForms ev (form :: forms) m = (⟨[], some (.evaluation failure)⟩, m') := by
  rw [evalForms, run]

/-- Forms that all have values are evaluated in front of the others. -/
theorem evalForms_append {forms values : List Value}
    (run : evalForms ev forms m = (⟨values, none⟩, m')) (more : List Value) :
    evalForms ev (forms ++ more) m =
      ((evalForms ev more m').1.after values, (evalForms ev more m').2) := by
  induction forms generalizing m values with
  | nil =>
      cases run
      rfl
  | cons form forms ih =>
      cases first : ev form globalScope m with
      | error failure m₁ =>
          rw [evalForms_of_error first] at run
          cases run
      | ok value m₁ =>
          rw [evalForms_of_ok first] at run
          obtain ⟨⟨rfl, complete⟩, rfl⟩ := by
            simpa only [Prod.mk.injEq, Results.after, Results.mk.injEq] using run
          have rest : evalForms ev forms m₁ =
              (⟨(evalForms ev forms m₁).1.values, none⟩, (evalForms ev forms m₁).2) := by
            rw [← complete]
          rw [List.cons_append, evalForms_of_ok first, ih rest]
          simp

/-- Forms all have values, or there is a first one that fails. -/
theorem evalForms_cases (ev : Evaluator) (forms : List Value) (m : Machine) :
    (∃ values m', evalForms ev forms m = (⟨values, none⟩, m')) ∨
    ∃ before form skipped values failure m₁ m₂, forms = before ++ form :: skipped ∧
      evalForms ev before m = (⟨values, none⟩, m₁) ∧
      ev form globalScope m₁ = .error failure m₂ := by
  induction forms generalizing m with
  | nil => exact .inl ⟨[], m, rfl⟩
  | cons form forms ih =>
      cases first : ev form globalScope m with
      | error failure m' => exact .inr ⟨[], form, forms, [], failure, m, m', rfl, rfl, first⟩
      | ok value m' =>
          obtain ⟨values, m'', run⟩ | ⟨before, fails, skipped, values, failure, m₁, m₂, rfl, run,
            failed⟩ := ih m'
          · refine .inl ⟨value :: values, m'', ?_⟩
            rw [evalForms_of_ok first, run]
            rfl
          · refine .inr ⟨form :: before, fails, skipped, value :: values, failure, m₁, m₂, rfl, ?_,
              failed⟩
            rw [evalForms_of_ok first, run]
            rfl

/-- Forms that all have values are evaluated in two parts. -/
theorem evalForms_append_complete {forms more values : List Value}
    (run : evalForms ev (forms ++ more) m = (⟨values, none⟩, m')) :
    ∃ first rest m₁, evalForms ev forms m = (⟨first, none⟩, m₁) ∧
      evalForms ev more m₁ = (⟨rest, none⟩, m') ∧ values = first ++ rest := by
  obtain ⟨first, m₁, runFirst⟩ | ⟨before, form, skipped, first, failure, m₁, m₂, rfl, runFirst,
    fails⟩ := evalForms_cases ev forms m
  · rw [evalForms_append runFirst] at run
    obtain ⟨⟨rfl, complete⟩, rfl⟩ := by
      simpa only [Prod.mk.injEq, Results.after, Results.mk.injEq] using run
    exact ⟨first, (evalForms ev more m₁).1.values, m₁, runFirst, by rw [← complete], rfl⟩
  · rw [List.append_assoc, evalForms_append runFirst, List.cons_append,
      evalForms_of_error fails] at run
    cases run

theorem evalForms_of_inTurn {forms values : List Value}
    (all : EachInTurn ev globalScope m forms values m') :
    evalForms ev forms m = (⟨values, none⟩, m') := by
  induction all with
  | nil => rfl
  | cons run _ ih =>
      rw [evalForms_of_ok run, ih]
      rfl

theorem inTurn_of_evalForms {forms values : List Value}
    (run : evalForms ev forms m = (⟨values, none⟩, m')) :
    EachInTurn ev globalScope m forms values m' := by
  induction forms generalizing m values with
  | nil =>
      cases run
      exact .nil
  | cons form forms ih =>
      cases first : ev form globalScope m with
      | error failure m₁ =>
          rw [evalForms_of_error first] at run
          cases run
      | ok value m₁ =>
          rw [evalForms_of_ok first] at run
          obtain ⟨⟨rfl, complete⟩, rfl⟩ := by
            simpa only [Prod.mk.injEq, Results.after, Results.mk.injEq] using run
          refine .cons first (ih ?_)
          rw [← complete]
          rfl

end Equations

section Printing

variable {ev : Evaluator} {limits : Limits} {form value : Value} {failure : EvalFailure}
variable {forms values : List Value} {m m' : Machine}

/-- The forms have these values, one after another, and there is room to print each of them. -/
structure Shows (ev : Evaluator) (limits : Limits) (m : Machine) (forms values : List Value)
    (m' : Machine) : Prop where
  inTurn : EachInTurn ev globalScope m forms values m'
  room : ∀ v ∈ values, limits.prints v

theorem evalPrinted_of_prints (run : ev form globalScope m = .ok value m')
    (room : limits.prints value) : limits.evalPrinted ev form globalScope m = .ok value m' := by
  rw [Limits.evalPrinted, EvalM.bind_of_ok run, if_pos room]
  rfl

theorem evalPrinted_of_not_prints (run : ev form globalScope m = .ok value m')
    (deep : ¬ limits.prints value) :
    limits.evalPrinted ev form globalScope m = .error .tooDeep m' := by
  rw [Limits.evalPrinted, EvalM.bind_of_ok run, if_neg deep]
  rfl

theorem evalPrinted_of_error (run : ev form globalScope m = .error failure m') :
    limits.evalPrinted ev form globalScope m = .error failure m' :=
  EvalM.bind_of_error run _

/-- A form whose value is to be printed has a value for which there is room. -/
theorem of_evalPrinted_ok (run : limits.evalPrinted ev form globalScope m = .ok value m') :
    ev form globalScope m = .ok value m' ∧ limits.prints value := by
  cases first : ev form globalScope m with
  | error failure m₁ => cases (evalPrinted_of_error first).symm.trans run
  | ok value m₁ =>
      by_cases room : limits.prints value
      · cases (evalPrinted_of_prints first room).symm.trans run
        exact ⟨rfl, room⟩
      · cases (evalPrinted_of_not_prints first room).symm.trans run

/-- A form whose value is to be printed fails on its own, or for its value. -/
theorem of_evalPrinted_error (run : limits.evalPrinted ev form globalScope m = .error failure m') :
    ev form globalScope m = .error failure m' ∨
      failure = .tooDeep ∧ ∃ value, ev form globalScope m = .ok value m' ∧
        ¬ limits.prints value := by
  cases first : ev form globalScope m with
  | error failure m₁ => exact .inl ((evalPrinted_of_error first).symm.trans run)
  | ok value m₁ =>
      by_cases room : limits.prints value
      · cases (evalPrinted_of_prints first room).symm.trans run
      · cases (evalPrinted_of_not_prints first room).symm.trans run
        exact .inr ⟨rfl, value, rfl, room⟩

theorem Shows.evalForms_eq (shows : Shows ev limits m forms values m') :
    evalForms (limits.evalPrinted ev) forms m = (⟨values, none⟩, m') := by
  obtain ⟨inTurn, room⟩ := shows
  refine evalForms_of_inTurn ?_
  induction inTurn with
  | nil => exact .nil
  | cons run _ ih =>
      obtain ⟨first, others⟩ := List.forall_mem_cons.mp room
      exact .cons (evalPrinted_of_prints run first) (ih others)

theorem shows_of_evalForms
    (run : evalForms (limits.evalPrinted ev) forms m = (⟨values, none⟩, m')) :
    Shows ev limits m forms values m' := by
  have inTurn := inTurn_of_evalForms run
  clear run
  induction inTurn with
  | nil => exact ⟨.nil, List.forall_mem_nil _⟩
  | cons run _ ih =>
      obtain ⟨first, room⟩ := of_evalPrinted_ok run
      exact ⟨.cons first ih.inTurn, List.forall_mem_cons.mpr ⟨room, ih.room⟩⟩

/-- Forms all have values that can be printed, or there is a first one that fails or has a value
that cannot. -/
theorem shows_cases (ev : Evaluator) (limits : Limits) (forms : List Value) (m : Machine) :
    (∃ values m', Shows ev limits m forms values m') ∨
    ∃ before form skipped values m₁, forms = before ++ form :: skipped ∧
      Shows ev limits m before values m₁ ∧
      ((∃ failure m₂, ev form globalScope m₁ = .error failure m₂) ∨
        ∃ value m₂, ev form globalScope m₁ = .ok value m₂ ∧ ¬ limits.prints value) := by
  obtain ⟨values, m', run⟩ | ⟨before, form, skipped, values, failure, m₁, m₂, rfl, run, fails⟩ :=
    evalForms_cases (limits.evalPrinted ev) forms m
  · exact .inl ⟨values, m', shows_of_evalForms run⟩
  · refine .inr ⟨before, form, skipped, values, m₁, rfl, shows_of_evalForms run, ?_⟩
    obtain fails | ⟨-, value, run, deep⟩ := of_evalPrinted_error fails
    · exact .inl ⟨failure, m₂, fails⟩
    · exact .inr ⟨value, m₂, run, deep⟩

end Printing

variable (ev : Evaluator)

section Texts

variable (found : List Value) {c rest : Cursor} (m : Machine)

theorem evalAfter_atEnd (ended : c.atEnd = true) :
    evalAfter ev found c m = (⟨found.reverse, none⟩, m) := by
  rw [evalAfter, dif_pos ended]

theorem evalAfter_fault (pending : ¬ c.atEnd = true) {failure : ReadFailure}
    (taken : c.readDatum = (.error failure, rest)) :
    evalAfter ev found c m = (⟨found.reverse, some (.reading failure)⟩, m) := by
  rw [evalAfter, dif_neg pending]
  split
  · next taken' =>
    cases taken.symm.trans taken'
    rfl
  · next taken' => cases taken.symm.trans taken'

/-- A datum is evaluated before the next one is read. -/
theorem evalAfter_datum (pending : ¬ c.atEnd = true) {datum : Value}
    (taken : c.readDatum = (.ok datum, rest)) :
    evalAfter ev found c m =
      match ev datum globalScope m with
      | .ok value m => evalAfter ev (value :: found) rest m
      | .error failure m => (⟨found.reverse, some (.evaluation failure)⟩, m) := by
  rw [evalAfter, dif_neg pending]
  split
  · next taken' => cases taken.symm.trans taken'
  · next taken' =>
    cases taken.symm.trans taken'
    rfl

end Texts

open Reader in
/-- What is left of a text is evaluated as the list of its data, and then its fault is met. -/
theorem evalAfter_eq (found : List Value) (c : Cursor) (m : Machine) :
    evalAfter ev found c m =
      (((evalForms ev (feed .idle c.remaining).data m).1.orFault
          (feed .idle c.remaining).failure).after found.reverse,
        (evalForms ev (feed .idle c.remaining).data m).2) := by
  induction found, c, m using evalAfter.induct ev with
  | case1 found c m ended =>
      have empty : c.remaining = [] := by simpa [Cursor.remaining, Cursor.atEnd] using ended
      rw [evalAfter_atEnd ev found m ended, empty]
      simp [feed_nil, Reading.failure, evalForms, Results.orFault, Results.after]
  | case2 found c m pending failure rest taken =>
      have present : c.tokens ≠ [] := by simpa [Cursor.atEnd] using pending
      obtain ⟨data, fault⟩ :=
        Cursor.feed_of_readTowards_error taken fun empty => absurd empty present
      change (feed .idle c.remaining).data = [] at data
      change (feed .idle c.remaining).failure = some failure at fault
      rw [evalAfter_fault ev found m pending taken, data, fault]
      simp [evalForms, Results.orFault, Results.after]
  | case3 found c m pending datum rest taken value m' run ih =>
      have read : feed .idle c.remaining = (feed .idle rest.remaining).after datum :=
        Cursor.feed_of_readTowards taken
      rw [evalAfter_datum ev found m pending taken, run, read]
      simp only [Reading.data_after, Reading.failure_after, evalForms_of_ok run]
      rw [ih]
      simp
  | case4 found c m pending datum rest taken failure m' run =>
      have read : feed .idle c.remaining = (feed .idle rest.remaining).after datum :=
        Cursor.feed_of_readTowards taken
      rw [evalAfter_datum ev found m pending taken, run, read]
      simp [evalForms_of_error run, Results.orFault, Results.after]

/-- To evaluate what is left of a text is to read it first and to evaluate its data then. -/
theorem evalAfter_readAll (c : Cursor) (m : Machine) :
    evalAfter ev [] c m =
      ((evalForms ev c.readAll.1 m).1.orFault c.readAll.2.1, (evalForms ev c.readAll.1 m).2) := by
  obtain ⟨data, failure⟩ := Cursor.readAllAfter_eq_feed [] c
  rw [evalAfter_eq, Cursor.readAll, data, failure]
  rfl

/-- To evaluate a text is to evaluate its data in turn, and then to meet its fault. -/
theorem evalText_eq (text : String) (m : Machine) :
    evalText ev text m =
      ((evalForms ev (readAll text).1 m).1.orFault (readAll text).2,
        (evalForms ev (readAll text).1 m).2) :=
  evalAfter_readAll ev (Cursor.ofText text) m

/-- A text that is evaluated to its end has no fault, and its data all have values. -/
theorem evalForms_of_evalText {text : String} {values : List Value} {m m' : Machine}
    (run : evalText ev text m = (⟨values, none⟩, m')) :
    (readAll text).2 = none ∧ evalForms ev (readAll text).1 m = (⟨values, none⟩, m') := by
  rw [evalText_eq, Prod.mk.injEq, Results.orFault, Results.mk.injEq, Option.or_eq_none_iff] at run
  obtain ⟨⟨rfl, complete, read⟩, rfl⟩ := run
  refine ⟨Option.map_eq_none_iff.mp read, ?_⟩
  rw [← complete]

end Session

end PocketLisp
