import PocketLisp.Proofs.Eval.Step

/-!
# Why a special form fails

The shape of a special form is checked before anything else, and the check looks at nothing but the
argument forms. So a form of the wrong shape fails with one and the same error in every scope and
state, leaves the state as it is, and needs no evaluator at all: none of the forms inside it is
evaluated. A form of the right shape fails only where a form inside it does (`Form.Begins`), or
because it assigns to a name that is bound nowhere; then it leaves the state in which the value of
that name was found. `Form.Fails` lists these failures, and they are all that there are.
-/

namespace PocketLisp

open EvalM

/-- A form inside a special form is evaluated, and this begins in the state `start`. -/
inductive Form.Begins (ev : Evaluator) (r : ScopeId) (m : Machine) :
    Form → (inner : Value) → (start : Machine) → Prop where
  | test {test yes no} : Begins ev r m (.branch test yes no) test m
  | yes {test yes no value m₁} (tested : ev test r m = .ok value m₁) (truth : value ≠ .nil) :
      Begins ev r m (.branch test yes no) yes m₁
  | no {test yes no m₁} (tested : ev test r m = .ok .nil m₁) :
      Begins ev r m (.branch test yes (some no)) no m₁
  | defined {name form} : Begins ev r m (.define name form) form m
  | assigned {name form} : Begins ev r m (.assign name form) form m

/-- The failures of a special form of the right shape: those of the forms inside it, and an
assignment to a name that is bound nowhere once the value is there. -/
inductive Form.Fails (ev : Evaluator) (r : ScopeId) (m : Machine) :
    Form → EvalFailure → (after : Machine) → Prop where
  | inside {form inner m₁ failure m'} (begins : form.Begins ev r m inner m₁)
      (failed : ev inner r m₁ = .error failure m') : Fails ev r m form failure m'
  | unbound {name form value m'} (valued : ev form r m = .ok value m')
      (nowhere : ∀ owner, ¬ m'.store.Owner name r owner) :
      Fails ev r m (.assign name form) (.error (.unbound name)) m'

section Failures

variable {ev : Evaluator} {r : ScopeId} {m m' : Machine} {failure : EvalFailure}

theorem branch_eq_error_iff {test yes : Value} {no : Option Value} :
    (Form.branch test yes no).run ev r m = .error failure m' ↔
      (Form.branch test yes no).Fails ev r m failure m' := by
  simp only [Form.run, bind_eq_error_iff]
  constructor
  · rintro (failed | ⟨value, m₁, tested, failed⟩)
    · exact .inside .test failed
    · by_cases truth : value.isTrue
      · rw [if_pos truth] at failed
        exact .inside (.yes tested (Value.isTrue_iff.mp truth)) failed
      · rw [if_neg truth] at failed
        obtain rfl : value = .nil := Decidable.not_not.mp (mt Value.isTrue_iff.mpr truth)
        cases no with
        | some no => exact .inside (.no tested) failed
        | none => cases failed
  · rintro ⟨begins, failed⟩
    cases begins with
    | test => exact .inl failed
    | yes tested truth =>
        refine .inr ⟨_, _, tested, ?_⟩
        rwa [if_pos (Value.isTrue_iff.mpr truth)]
    | no tested => exact .inr ⟨_, _, tested, failed⟩

theorem define_eq_error_iff {name : String} {form : Value} :
    (Form.define name form).run ev r m = .error failure m' ↔
      (Form.define name form).Fails ev r m failure m' := by
  simp only [Form.run, bind_eq_error_iff]
  constructor
  · rintro (failed | ⟨value, m₁, -, failed⟩)
    · exact .inside .defined failed
    · -- A definition itself does not fail.
      cases failed
  · rintro ⟨⟨⟩, failed⟩
    exact .inl failed

theorem assign_eq_error_iff {name : String} {form : Value} :
    (Form.assign name form).run ev r m = .error failure m' ↔
      (Form.assign name form).Fails ev r m failure m' := by
  simp only [Form.run, bind_eq_error_iff]
  constructor
  · rintro (failed | ⟨value, m₁, valued, failed⟩)
    · exact .inside .assigned failed
    · by_cases somewhere : ∃ owner, m₁.store.Owner name r owner
      · obtain ⟨owner, nearest⟩ := somewhere
        cases failed.symm.trans (run_assign value nearest)
      · have nowhere := not_exists.mp somewhere
        cases failed.symm.trans (run_assign_unbound value nowhere)
        exact .unbound valued nowhere
  · rintro (⟨⟨⟩, failed⟩ | ⟨valued, nowhere⟩)
    · exact .inl failed
    · exact .inr ⟨_, _, valued, run_assign_unbound _ nowhere⟩

/-- A special form of the right shape has these failures and no others. -/
theorem Form.run_eq_error_iff (form : Form) :
    form.run ev r m = .error failure m' ↔ form.Fails ev r m failure m' := by
  cases form with
  | branch test yes no => exact branch_eq_error_iff
  | define name form => exact define_eq_error_iff
  | assign name form => exact assign_eq_error_iff
  | quote | lambda =>
      constructor
      · intro failed
        cases failed
      · rintro ⟨⟨⟩, -⟩

end Failures

section Shapes

variable {special : SpecialForm} {args : List Value}

theorem run_of_refuses {e : EvalError} (refuses : special.Refuses args e) (ev : Evaluator)
    (r : ScopeId) (m : Machine) : special.run ev args r m = .error (.error e) m :=
  run_unchecked (SpecialForm.shape_of_refuses refuses) _ m

theorem run_of_accepts {form : Form} (accepts : special.Accepts args form) (ev : Evaluator)
    (r : ScopeId) (m : Machine) : special.run ev args r m = form.run ev r m :=
  run_checked (SpecialForm.shape_of_accepts accepts) _ m

theorem SpecialForm.Accepts.not_refuses {form : Form} (accepts : special.Accepts args form)
    (e : EvalError) : ¬ special.Refuses args e := fun refuses => by
  cases (shape_of_accepts accepts).symm.trans (shape_of_refuses refuses)

/-- A form of the right shape does not fail everywhere: where the forms inside it stand for
themselves and the name that it may assign to is bound, it has a value. -/
theorem SpecialForm.Accepts.not_fails {form : Form} (accepts : special.Accepts args form)
    (e : EvalError) :
    ¬ ∀ ev r m, special.run ev args r m = .error (.error e) m := by
  intro fails
  have failed (m : Machine) : form.Fails identityEvaluator 0 m (.error e) m := by
    rw [← form.run_eq_error_iff, ← run_of_accepts accepts]
    exact fails identityEvaluator 0 m
  cases failed {} with
  | inside _ failed => cases failed
  | @unbound name _ _ _ _ _ =>
      let bound : Machine := { store := { scopes := #[⟨[(name, .nil)], none⟩] } }
      cases failed bound with
      | inside _ failed => cases failed
      | unbound valued nowhere =>
          refine nowhere 0 (.here ?_)
          simp [bound, Store.bindings, Bindings.binds]

/-- The shape is checked first. A special form is refused for an error in its shape exactly if it
fails with this error whatever the evaluator, the scope and the state, and leaves the state as it
is. If it is not refused then it fails exactly where a form inside it does, or because it assigns
to a name that is bound nowhere, in the state that its value form left. -/
theorem shape_checked_first (special : SpecialForm) (args : List Value) :
    (∀ e, special.Refuses args e ↔ ∀ (ev : Evaluator) (r : ScopeId) (m : Machine),
      special.run ev args r m = .error (.error e) m) ∧
    ((∀ e, ¬ special.Refuses args e) ↔ ∃ form, special.Accepts args form ∧
      ∀ (ev : Evaluator) (r : ScopeId) (m : Machine) (failure : EvalFailure) (m' : Machine),
        special.run ev args r m = .error failure m' ↔ form.Fails ev r m failure m') := by
  obtain ⟨form, accepts⟩ | ⟨e, refuses⟩ := special.accepts_or_refuses args
  · constructor
    · intro e
      constructor
      · exact run_of_refuses
      · exact fun fails => absurd fails (accepts.not_fails e)
    · refine iff_of_true accepts.not_refuses ⟨form, accepts, fun ev r m failure m' => ?_⟩
      rw [run_of_accepts accepts, form.run_eq_error_iff]
  · constructor
    · intro e'
      refine ⟨run_of_refuses, fun fails => ?_⟩
      cases (run_of_refuses refuses identityEvaluator 0 {}).symm.trans (fails _ _ _)
      exact refuses
    · exact iff_of_false (fun unrefused => unrefused e refuses)
        fun ⟨form, accepts, _⟩ => accepts.not_refuses e refuses

end Shapes

end PocketLisp
