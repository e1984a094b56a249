import PocketLisp.Proofs.Eval.Step

/-!
# The evaluator and the rules agree

Every ending of the evaluator, at any depth, has a derivation by the rules (`evaluate_sound`), and
every derivation is the ending of the evaluator at all depths from some depth on
(`Evaluates.eventually`). So a form has a derivation exactly when some depth is enough for it, and
forms that are too deeply nested for every depth are those without a derivation.

Soundness is by induction on the depth: the parts of a step are compared with the rules under the
assumption that the evaluator of the inner forms is sound. Completeness is by induction on the
derivation; the largest of the depths that the premises need is enough for the conclusion.
-/

namespace PocketLisp

open EvalM

/-- The endings of an evaluator follow the rules. -/
def Sound (ev : Evaluator) : Prop :=
  ∀ ⦃form : Value⦄ ⦃r : ScopeId⦄ ⦃m : Machine⦄ ⦃answer : Answer⦄ ⦃s : Store⦄,
    (ev form r).Ends m answer s → Evaluates (.eval form r) m.store answer s

section Soundness

variable {ev : Evaluator} {r : ScopeId} {m : Machine} {answer : Answer} {s : Store}

theorem body_sound (sound : Sound ev) {last : Value} {forms : List Value}
    (h : ((Task.body last forms r).run ev).Ends m answer s) :
    Evaluates (.body last forms r) m.store answer s := by
  induction forms generalizing last m with
  | nil =>
      obtain ⟨rfl, rfl⟩ := h.unique (ends_pure last m)
      exact .bodyEnd
  | cons form forms ih =>
      rw [run_body_cons] at h
      obtain ⟨e, rfl, failed⟩ | ⟨value, m₁, valued, h⟩ := h.bind_cases
      · exact .bodyError (sound failed)
      · exact .bodyForm (sound valued) (ih h)

theorem closure_sound (sound : Sound ev) {id : Identity} {params body : Value}
    {captured : ScopeId} {args : List Value}
    (h : (apply ev (.closure id params body captured) args).Ends m answer s) :
    Evaluates (.application (.closure id params body captured) args) m.store answer s := by
  by_cases count : args.length = params.elements.length
  · obtain ⟨names, symbols⟩ | ⟨param, first⟩ := symbols_or_first params.elements
    · have count' : args.length = names.length := by rw [count, symbols, List.length_map]
      obtain ⟨m₁, same₁, h⟩ := h.of_bind (ends_ofExcept (callScope_symbols symbols count') m)
      obtain ⟨m₂, same₂, h⟩ := h.of_bind (ends_addScope _ m₁)
      obtain ⟨m₃, same₃, h⟩ := h.of_bind (ends_report _ m₂)
      have run := body_sound sound h
      rw [same₃, same₂, same₁] at run
      exact .closure symbols count' run
    · obtain ⟨rfl, rfl⟩ := h.unique (ends_ofExcept (callScope_name count first) m).bind_error
      exact .closureName count first
  · obtain ⟨rfl, rfl⟩ := h.unique (ends_ofExcept (callScope_count count) m).bind_error
    exact .closureCount count

theorem application_sound (sound : Sound ev) {callee : Value} {args : List Value}
    (h : (apply ev callee args).Ends m answer s) :
    Evaluates (.application callee args) m.store answer s := by
  by_cases applicable : callee.Applicable
  · obtain ⟨id, name, operation, rfl⟩ | ⟨id, params, body, captured, rfl⟩ := applicable
    · obtain ⟨rfl, rfl⟩ := h.unique (ends_ofExcept rfl m)
      exact .procedure (Primitive.run_eq_iff.mp rfl)
    · exact closure_sound sound h
  · rw [apply_inapplicable ev applicable] at h
    obtain ⟨rfl, rfl⟩ := h.unique (ends_fail _ m)
    exact .inapplicable applicable

theorem arguments_sound (sound : Sound ev) {callee : Value} {values forms : List Value}
    (h : ((Task.arguments callee values forms r).run ev).Ends m answer s) :
    Evaluates (.arguments callee values forms r) m.store answer s := by
  induction forms generalizing values m with
  | nil =>
      rw [run_arguments_nil] at h
      exact .allArguments (application_sound sound h)
  | cons form forms ih =>
      rw [run_arguments_cons] at h
      obtain ⟨e, rfl, failed⟩ | ⟨value, m₁, valued, h⟩ := h.bind_cases
      · exact .argumentError (sound failed)
      · exact .argument (sound valued) (ih h)

/-- A special form of the right shape is carried out by its rule. -/
theorem form_sound (sound : Sound ev) {special : SpecialForm} {rest : Value} {form : Form}
    (accepts : special.Accepts rest.elements form) (h : (form.run ev r).Ends m answer s) :
    Evaluates (.eval (.pair (.symbol special.name) rest) r) m.store answer s := by
  generalize shape : rest.elements = args at accepts
  cases accepts with
  | quote =>
      obtain ⟨rfl, rfl⟩ := h.unique (ends_pure _ m)
      exact .quote shape
  | branch =>
      obtain ⟨e, rfl, failed⟩ | ⟨value, m₁, tested, h⟩ := h.bind_cases
      · exact .testError shape (by simp) (sound failed)
      · by_cases nil : value = .nil
        · subst nil
          obtain ⟨rfl, rfl⟩ := h.unique (ends_pure _ m₁)
          exact .testFalseAlone shape (sound tested)
        · rw [if_pos (Value.isTrue_iff.mpr nil)] at h
          exact .testTrue shape (by simp) (sound tested) nil (sound h)
  | branchElse =>
      obtain ⟨e, rfl, failed⟩ | ⟨value, m₁, tested, h⟩ := h.bind_cases
      · exact .testError shape (by simp) (sound failed)
      · by_cases nil : value = .nil
        · subst nil
          exact .testFalse shape (sound tested) (sound h)
        · rw [if_pos (Value.isTrue_iff.mpr nil)] at h
          exact .testTrue shape (by simp) (sound tested) nil (sound h)
  | define =>
      obtain ⟨e, rfl, failed⟩ | ⟨value, m₁, valued, h⟩ := h.bind_cases
      · exact .defineError shape (sound failed)
      · obtain ⟨rfl, rfl⟩ := h.unique (ends_define _ _ value m₁)
        exact .define shape (sound valued)
  | @assign name form =>
      obtain ⟨e, rfl, failed⟩ | ⟨value, m₁, valued, h⟩ := h.bind_cases
      · exact .assignError shape (sound failed)
      · by_cases somewhere : ∃ owner, m₁.store.Owner name r owner
        · obtain ⟨owner, nearest⟩ := somewhere
          obtain ⟨rfl, rfl⟩ := h.unique (ends_assign value nearest)
          exact .assign shape (sound valued) nearest
        · have nowhere := not_exists.mp somewhere
          obtain ⟨rfl, rfl⟩ := h.unique (ends_assign_unbound value nowhere)
          exact .assignUnbound shape (sound valued) nowhere
  | lambda list symbols =>
      obtain ⟨rfl, rfl⟩ := h.unique (ends_lambda ev r _ _ m)
      exact symbols ▸ .lambda shape list symbols

theorem special_sound (sound : Sound ev) {special : SpecialForm} {rest : Value}
    (h : (special.run ev rest.elements r).Ends m answer s) :
    Evaluates (.eval (.pair (.symbol special.name) rest) r) m.store answer s := by
  obtain ⟨form, accepts⟩ | ⟨e, refuses⟩ := special.accepts_or_refuses rest.elements
  · have shape := SpecialForm.shape_of_accepts accepts
    obtain ⟨m₁, same, h⟩ := h.of_bind (ends_ofExcept shape m)
    exact same ▸ form_sound sound accepts h
  · have shape := SpecialForm.shape_of_refuses refuses
    obtain ⟨rfl, rfl⟩ := h.unique (ends_ofExcept shape m).bind_error
    exact .refused refuses

/-- A step over a sound evaluator is sound. -/
theorem step_sound (sound : Sound ev) : Sound (step ev) := by
  intro form r m answer s h
  cases form with
  | symbol name =>
      by_cases somewhere : ∃ owner, m.store.Owner name r owner
      · obtain ⟨owner, nearest⟩ := somewhere
        obtain ⟨value, found⟩ := nearest.bound
        obtain ⟨rfl, rfl⟩ := h.unique (ends_lookup nearest found)
        exact .bound nearest found
      · have nowhere := not_exists.mp somewhere
        obtain ⟨rfl, rfl⟩ := h.unique (ends_lookup_unbound nowhere)
        exact .unbound nowhere
  | pair head rest =>
      obtain ordinary | ⟨special, rfl⟩ := head.ordinary_or_special
      · rw [step_call ev r ordinary] at h
        obtain ⟨e, rfl, failed⟩ | ⟨callee, m₁, valued, h⟩ := h.bind_cases
        · exact .headError ordinary (sound failed)
        · exact .call ordinary (sound valued) (arguments_sound sound h)
      · rw [step_special] at h
        obtain ⟨m₁, same, h⟩ := h.of_bind (ends_report _ m)
        exact same ▸ special_sound sound h
  | nil | int | procedure | closure =>
      obtain ⟨rfl, rfl⟩ := h.unique (ends_pure _ m)
      exact .self (by simp [Value.SelfEvaluating, Value.IsSymbol, Value.IsPair])

/-- Every ending of the evaluator follows the rules. -/
theorem evaluate_sound (depth : Nat) : Sound (evaluate depth) := by
  induction depth with
  | zero =>
      intro form r m answer s h
      exact absurd rfl (h.ne_tooDeep m)
  | succ depth ih => exact step_sound ih

end Soundness

/-- At every depth from some depth on, the action ends in this way from the store `s`, whatever was
reported before. -/
def Eventually {α : Type} (action : Nat → EvalM α) (s : Store) (answer : Except EvalError α)
    (s' : Store) : Prop :=
  ∃ limit, ∀ depth, limit ≤ depth → ∀ m : Machine, m.store = s → (action depth).Ends m answer s'

namespace Eventually

variable {α β : Type} {s s₁ s' : Store} {r : ScopeId} {answer : Answer}

theorem of_ends {action : Nat → EvalM α} {answer : Except EvalError α}
    (h : ∀ depth m, m.store = s → (action depth).Ends m answer s') :
    Eventually action s answer s' :=
  ⟨0, fun depth _ => h depth⟩

theorem bind_error {action : Nat → EvalM α} {next : Nat → α → EvalM β} {e : EvalError}
    (h : Eventually action s (.error e) s') :
    Eventually (fun depth => action depth >>= next depth) s (.error e) s' := by
  obtain ⟨limit, h⟩ := h
  exact ⟨limit, fun depth enough m same => (h depth enough m same).bind_error⟩

/-- The larger of two limits is enough for two actions in turn. -/
theorem bind_ok {action : Nat → EvalM α} {next : Nat → α → EvalM β} {a : α}
    {answer : Except EvalError β} (h : Eventually action s (.ok a) s₁)
    (hnext : Eventually (fun depth => next depth a) s₁ answer s') :
    Eventually (fun depth => action depth >>= next depth) s answer s' := by
  obtain ⟨limit, h⟩ := h
  obtain ⟨limit', hnext⟩ := hnext
  refine ⟨max limit limit', fun depth enough m same => ?_⟩
  exact (h depth (by omega) m same).bind_ok (hnext depth (by omega))

/-- A step needs one depth more than the forms inside it. -/
theorem evaluate_of_step {form : Value}
    (h : Eventually (fun depth => step (evaluate depth) form r) s answer s') :
    Eventually (fun depth => evaluate depth form r) s answer s' := by
  obtain ⟨limit, h⟩ := h
  refine ⟨limit + 1, fun depth enough m same => ?_⟩
  obtain ⟨depth, rfl⟩ : ∃ inner, depth = inner + 1 := ⟨depth - 1, by omega⟩
  exact h depth (by omega) m same

/-- A special form of the right shape ends as its parts do. -/
theorem special {special : SpecialForm} {rest : Value} {args : List Value} {form : Form}
    (shape : rest.elements = args) (accepts : special.Accepts args form)
    (h : Eventually (fun depth => form.run (evaluate depth) r) s answer s') :
    Eventually (fun depth => evaluate depth (.pair (.symbol special.name) rest) r) s answer s' := by
  apply evaluate_of_step
  simp only [step_special]
  have accepted := shape ▸ SpecialForm.shape_of_accepts accepts
  refine bind_ok (of_ends fun _ m same => same ▸ ends_report _ m) ?_
  exact bind_ok (of_ends fun _ m same => same ▸ ends_ofExcept accepted m) h

end Eventually

/-- Every derivation is the ending of its task at all depths from some depth on. -/
theorem Evaluates.eventually {task : Task} {s s' : Store} {answer : Answer}
    (h : Evaluates task s answer s') :
    Eventually (fun depth => task.run (evaluate depth)) s answer s' := by
  induction h with
  | self self =>
      apply Eventually.evaluate_of_step
      simp only [step_self _ _ self]
      exact .of_ends fun _ m same => same ▸ ends_pure _ m
  | bound nearest found =>
      apply Eventually.evaluate_of_step
      exact .of_ends fun _ m same => same ▸ ends_lookup (same ▸ nearest) (same ▸ found)
  | unbound nowhere =>
      apply Eventually.evaluate_of_step
      exact .of_ends fun _ m same => same ▸ ends_lookup_unbound (same ▸ nowhere)
  | refused refuses =>
      apply Eventually.evaluate_of_step
      simp only [step_special]
      have shape := SpecialForm.shape_of_refuses refuses
      refine .bind_ok (.of_ends fun _ m same => same ▸ ends_report _ m) (.bind_error ?_)
      exact .of_ends fun _ m same => same ▸ ends_ofExcept shape m
  | quote shape =>
      refine .special shape .quote ?_
      exact .of_ends fun _ m same => same ▸ ends_pure _ m
  | @testError _ _ _ _ no _ _ _ shape count _ ih =>
      match no with
      | [] => exact .special shape .branch ih.bind_error
      | [_] => exact .special shape .branchElse ih.bind_error
      | _ :: _ :: _ => simp at count
  | @testTrue _ _ _ _ no value _ _ _ _ shape count _ truth _ test branch =>
      have isTrue := Value.isTrue_iff.mpr truth
      match no with
      | [] =>
          refine .special shape .branch (test.bind_ok ?_)
          simp only [if_pos isTrue]
          exact branch
      | [_] =>
          refine .special shape .branchElse (test.bind_ok ?_)
          simp only [if_pos isTrue]
          exact branch
      | _ :: _ :: _ => simp at count
  | testFalse shape _ _ test branch =>
      exact .special shape .branchElse (test.bind_ok branch)
  | testFalseAlone shape _ test =>
      refine .special shape .branch (test.bind_ok ?_)
      exact .of_ends fun _ m same => same ▸ ends_pure _ m
  | defineError shape _ ih => exact .special shape .define ih.bind_error
  | define shape _ ih =>
      refine .special shape .define (ih.bind_ok ?_)
      exact .of_ends fun _ m same => same ▸ ends_define _ _ _ m
  | assignError shape _ ih => exact .special shape .assign ih.bind_error
  | assign shape _ nearest ih =>
      refine .special shape .assign (ih.bind_ok ?_)
      exact .of_ends fun _ m same => same ▸ ends_assign _ (same ▸ nearest)
  | assignUnbound shape _ nowhere ih =>
      refine .special shape .assign (ih.bind_ok ?_)
      exact .of_ends fun _ m same => same ▸ ends_assign_unbound _ (same ▸ nowhere)
  | @lambda _ _ _ _ _ names shape list symbols =>
      refine .special shape (.lambda list symbols) ?_
      exact .of_ends fun _ m same => same ▸ symbols ▸ ends_lambda _ _ names _ m
  | headError ordinary _ ih =>
      apply Eventually.evaluate_of_step
      simp only [step_call _ _ ordinary]
      exact ih.bind_error
  | call ordinary _ _ head call =>
      apply Eventually.evaluate_of_step
      simp only [step_call _ _ ordinary]
      exact head.bind_ok call
  | argumentError _ ih =>
      simp only [run_arguments_cons]
      exact ih.bind_error
  | argument _ _ form call =>
      simp only [run_arguments_cons]
      exact form.bind_ok call
  | allArguments _ ih =>
      simp only [run_arguments_nil]
      exact ih
  | procedure performed =>
      have run := Primitive.run_eq_iff.mpr performed
      exact .of_ends fun _ m same => same ▸ ends_ofExcept run m
  | closureCount count =>
      refine .bind_error ?_
      exact .of_ends fun _ m same => same ▸ ends_ofExcept (callScope_count count) m
  | closureName count first =>
      refine .bind_error ?_
      exact .of_ends fun _ m same => same ▸ ends_ofExcept (callScope_name count first) m
  | closure symbols count _ ih =>
      refine .bind_ok (.of_ends fun _ m same =>
        same ▸ ends_ofExcept (callScope_symbols symbols count) m) ?_
      refine .bind_ok (.of_ends fun _ m same => same ▸ ends_addScope _ m) ?_
      exact .bind_ok (.of_ends fun _ m same => same ▸ ends_report _ m) ih
  | inapplicable inapplicable =>
      simp only [Task.run, apply_inapplicable _ inapplicable]
      exact .of_ends fun _ m same => same ▸ ends_fail _ m
  | bodyError _ ih =>
      simp only [run_body_cons]
      exact ih.bind_error
  | bodyForm _ _ form rest =>
      simp only [run_body_cons]
      exact form.bind_ok rest
  | bodyEnd => exact .of_ends fun _ m same => same ▸ ends_pure _ m

/-- A task has one derivation at most: the rules determine its answer and its store. -/
theorem Evaluates.deterministic {task : Task} {s s₁ s₂ : Store} {answer₁ answer₂ : Answer}
    (h₁ : Evaluates task s answer₁ s₁) (h₂ : Evaluates task s answer₂ s₂) :
    answer₁ = answer₂ ∧ s₁ = s₂ := by
  obtain ⟨limit₁, h₁⟩ := h₁.eventually
  obtain ⟨limit₂, h₂⟩ := h₂.eventually
  exact (h₁ (max limit₁ limit₂) (by omega) ⟨s, #[]⟩ rfl).unique
    (h₂ (max limit₁ limit₂) (by omega) ⟨s, #[]⟩ rfl)

/-- The evaluator and the rules agree. A form ends in an answer with a store at some depth exactly
when the rules derive it, and it is too deeply nested for every depth exactly when they derive
nothing for it. -/
theorem evaluate_adequate (form : Value) (r : ScopeId) (m : Machine) :
    (∀ (answer : Answer) (s : Store),
      (∃ depth, (evaluate depth form r).Ends m answer s) ↔
        Evaluates (.eval form r) m.store answer s) ∧
    ((∀ depth, ∃ m', evaluate depth form r m = .error .tooDeep m') ↔
      ¬ ∃ answer s, Evaluates (.eval form r) m.store answer s) := by
  have adequate (answer : Answer) (s : Store) :
      (∃ depth, (evaluate depth form r).Ends m answer s) ↔
        Evaluates (.eval form r) m.store answer s := by
    constructor
    · rintro ⟨depth, h⟩
      exact evaluate_sound depth h
    · intro h
      obtain ⟨limit, h⟩ := h.eventually
      exact ⟨limit, h limit (Nat.le_refl _) m rfl⟩
  refine ⟨adequate, ?_⟩
  constructor
  · rintro deep ⟨answer, s, h⟩
    obtain ⟨depth, h⟩ := (adequate answer s).mpr h
    obtain ⟨m', deep⟩ := deep depth
    exact h.ne_tooDeep m' deep
  · intro underivable depth
    obtain ⟨answer, s, h⟩ | deep := ends_or_tooDeep (evaluate depth form r) m
    · exact absurd ⟨answer, s, evaluate_sound depth h⟩ underivable
    · exact deep

end PocketLisp
