import PocketLisp.Proofs.Eval.Hosting
import PocketLisp.Proofs.Reader.Plain
import PocketLisp.Proofs.Session.Forms

/-!
# A session in a store that it does not have for itself

A session evaluates its forms in its global scope, and nothing else ties it to a store. So it may
as well have its global scope somewhere in a larger store: as long as that store has a copy of the
one that the session would have for itself, its results are the same, but for the numbers of scopes
and identities (`Territory.evalText_alike`).
-/

namespace PocketLisp

/-- The failures have the same cause, and values that are alike. -/
inductive Failure.Alike (p : Pairing) : Failure → Failure → Prop where
  | reading (failure : ReadFailure) : Alike p (.reading failure) (.reading failure)
  | evaluation {failure failure'} (alike : EvalFailure.Alike p failure failure') :
      Alike p (.evaluation failure) (.evaluation failure')

/-- The results have values that are alike, and fail alike if they do. -/
structure Results.Alike (p : Pairing) (results results' : Results) : Prop where
  values : List.Forall₂ (Value.Alike p) results.values results'.values
  failure : Option.Rel (Failure.Alike p) results.failure results'.failure

/-- The evaluator for a session with the global scope `root`. -/
def Evaluator.within (ev : Evaluator) (root : ScopeId) : Evaluator :=
  fun form _ => ev form root

section Anonymous

/-- The failure without the numbers of scopes and identities. -/
def EvalFailure.anonymous : EvalFailure → EvalFailure
  | error e => error e.anonymous
  | tooDeep => tooDeep

/-- The failure without the numbers of scopes and identities. -/
def Failure.anonymous : Failure → Failure
  | reading failure => reading failure
  | evaluation failure => evaluation failure.anonymous

/-- The results without the numbers of scopes and identities. -/
def Results.anonymous (results : Results) : Results :=
  ⟨results.values.map Value.anonymous, results.failure.map Failure.anonymous⟩

variable {p : Pairing}

theorem EvalFailure.Alike.anonymous_eq {failure failure' : EvalFailure}
    (h : EvalFailure.Alike p failure failure') : failure.anonymous = failure'.anonymous := by
  cases h with
  | error alike => exact congrArg EvalFailure.error alike.anonymous_eq
  | tooDeep => rfl

theorem Failure.Alike.anonymous_eq {failure failure' : Failure}
    (h : Failure.Alike p failure failure') : failure.anonymous = failure'.anonymous := by
  cases h with
  | reading failure => rfl
  | evaluation alike => exact congrArg Failure.evaluation alike.anonymous_eq

theorem Results.Alike.anonymous_eq {results results' : Results} (h : results.Alike p results') :
    results.anonymous = results'.anonymous := by
  obtain ⟨values, failure⟩ := h
  have values : results.values.map Value.anonymous = results'.values.map Value.anonymous := by
    generalize results.values = found at values ⊢
    generalize results'.values = found' at values ⊢
    induction values with
    | nil => rfl
    | cons first _ ih => rw [List.map_cons, List.map_cons, first.anonymous_eq, ih]
  have failure : results.failure.map Failure.anonymous =
      results'.failure.map Failure.anonymous := by
    generalize results.failure = failure? at failure ⊢
    generalize results'.failure = failure?' at failure ⊢
    cases failure with
    | none => rfl
    | some alike => exact congrArg some alike.anonymous_eq
  rw [anonymous, anonymous, values, failure]

/-- A fault of the text shows no value. -/
theorem Results.Alike.orFault {results results' : Results} (h : results.Alike p results')
    (fault : Option ReadFailure) : (results.orFault fault).Alike p (results'.orFault fault) := by
  refine ⟨h.values, ?_⟩
  have failure := h.failure
  rw [Results.orFault, Results.orFault]
  generalize results.failure = failure? at failure ⊢
  generalize results'.failure = failure?' at failure ⊢
  cases failure with
  | some alike => exact .some alike
  | none =>
      cases fault with
      | none => exact .none
      | some fault => exact .some (.reading fault)

/-- A failure is explained without the numbers of scopes and identities. -/
@[simp] theorem Failure.message_anonymous (failure : Failure) :
    failure.anonymous.message = failure.message := by
  cases failure with
  | reading failure => rfl
  | evaluation failure =>
      cases failure with
      | error e => exact e.message_anonymous
      | tooDeep => rfl

end Anonymous

namespace Territory

open Session

variable {land : Territory} {ev ev' : Evaluator} {p : Pairing} {root : ScopeId} {m m' : Machine}

/-- Forms are evaluated alike in a session of its own and in a copy. -/
theorem evalForms_alike (follows : land.Follows ev ev') {forms : List Value}
    (plain : ∀ form ∈ forms, form.Plain) (paired : p.scopes globalScope root)
    (hosts : Store.Hosts land p m.store m'.store) :
    ∃ q, p ≤ q ∧
      Store.Hosts land q (evalForms ev forms m).2.store
        (evalForms (ev'.within root) forms m').2.store ∧
      (evalForms ev forms m).1.Alike q (evalForms (ev'.within root) forms m').1 := by
  induction forms generalizing p m m' with
  | nil => exact ⟨p, le_rfl, hosts, .nil, .none⟩
  | cons form forms ih =>
      obtain ⟨plainForm, plainForms⟩ := List.forall_mem_cons.mp plain
      have ended := follows (Value.alike_of_plain plainForm) paired le_rfl hosts
      cases run : ev form globalScope m with
      | ok value n =>
          cases run' : ev' form root m' with
          | error => rw [run, run'] at ended; cases ended
          | ok value' n' =>
              rw [run, run'] at ended
              obtain ⟨grown, hosts, alike⟩ := ended
              obtain ⟨q, grown', hosts, rest⟩ := ih plainForms (grown.1 _ _ paired) hosts
              have within : ev'.within root form globalScope m' = .ok value' n' := run'
              rw [evalForms_of_ok run, evalForms_of_ok within]
              exact ⟨q, le_trans grown grown', hosts, .cons (alike.mono grown') rest.values,
                rest.failure⟩
      | error failure n =>
          cases run' : ev' form root m' with
          | ok => rw [run, run'] at ended; cases ended
          | error failure' n' =>
              rw [run, run'] at ended
              obtain _ | ⟨grown, hosts, alike⟩ := ended
              have within : ev'.within root form globalScope m' = .error failure' n' := run'
              rw [evalForms_of_error run, evalForms_of_error within]
              exact ⟨_, grown, hosts, .nil, .some (.evaluation alike)⟩

/-- A text is evaluated alike in a session of its own and in a copy. -/
theorem evalText_alike (follows : land.Follows ev ev') (text : String)
    (paired : p.scopes globalScope root) (hosts : Store.Hosts land p m.store m'.store) :
    ∃ q, p ≤ q ∧
      Store.Hosts land q (evalText ev text m).2.store
        (evalText (ev'.within root) text m').2.store ∧
      (evalText ev text m).1.Alike q (evalText (ev'.within root) text m').1 := by
  have plain : ∀ form ∈ (readAll text).1, form.Plain := fun _ => plain_of_mem_readAll
  obtain ⟨q, grown, hosts, alike⟩ := evalForms_alike follows plain paired hosts
  rw [evalText_eq, evalText_eq]
  exact ⟨q, grown, hosts, alike.orFault _⟩

end Territory

end PocketLisp
