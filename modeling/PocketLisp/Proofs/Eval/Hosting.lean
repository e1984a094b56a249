import PocketLisp.Eval.Global
import PocketLisp.Proofs.Store.Copied

/-!
# Evaluation in a copy

Where a store has a copy of another one, a form is evaluated alike in both: the two runs end alike,
in values or failures that differ in numbers only, the copy is a copy again, and nothing outside of
it has changed (`Territory.follows_evaluate`). The runs may make scopes and identities of different
numbers; the pairing grows by those that are made at the same time. So every statement here is about
all pairings that have grown out of the one at hand.
-/

namespace PocketLisp

open EvalM Relator

/-- The failures have the same cause, and values that are alike. -/
inductive EvalFailure.Alike (p : Pairing) : EvalFailure → EvalFailure → Prop where
  | error {e e'} (alike : e.Alike p e') : Alike p (.error e) (.error e')
  | tooDeep : Alike p .tooDeep .tooDeep

namespace Territory

variable {α β : Type}

/-- The runs ended alike, with a copy that has grown out of the one for the pairing `p`. -/
inductive EndAlike (land : Territory) (related : Pairing → α → α → Prop) (p : Pairing) :
    EStateM.Result EvalFailure Machine α → EStateM.Result EvalFailure Machine α → Prop where
  | ok {q a a' m m'} (grown : p ≤ q) (hosts : Store.Hosts land q m.store m'.store)
      (alike : related q a a') : EndAlike land related p (.ok a m) (.ok a' m')
  | error {q failure failure' m m'} (grown : p ≤ q)
      (hosts : Store.Hosts land q m.store m'.store) (alike : EvalFailure.Alike q failure failure') :
      EndAlike land related p (.error failure m) (.error failure' m')

/-- Started in a store and in a copy of it, the actions end alike. -/
def Tracks (land : Territory) (related : Pairing → α → α → Prop) (p : Pairing)
    (action action' : EvalM α) : Prop :=
  ∀ ⦃q : Pairing⦄, p ≤ q → ∀ ⦃m m' : Machine⦄, Store.Hosts land q m.store m'.store →
    land.EndAlike related q (action m) (action' m')

/-- Forms that are alike are evaluated alike in scopes that are paired. -/
def Follows (land : Territory) (ev ev' : Evaluator) : Prop :=
  ∀ ⦃p : Pairing⦄ ⦃form form' : Value⦄ ⦃r r' : ScopeId⦄, form.Alike p form' → p.scopes r r' →
    land.Tracks Value.Alike p (ev form r) (ev' form' r')

variable {land : Territory} {related : Pairing → α → α → Prop} {related' : Pairing → β → β → Prop}
variable {p q : Pairing} {action action' : EvalM α}

theorem EndAlike.of_le {result result' : EStateM.Result EvalFailure Machine α} (le : p ≤ q)
    (h : land.EndAlike related q result result') : land.EndAlike related p result result' := by
  cases h with
  | ok grown hosts alike => exact .ok (le_trans le grown) hosts alike
  | error grown hosts alike => exact .error (le_trans le grown) hosts alike

theorem endAlike_of_ends {m m' : Machine} {answer answer' : Except EvalError α} {s s' : Store}
    (h : action.Ends m answer s) (h' : action'.Ends m' answer' s') (grown : p ≤ q)
    (hosts : Store.Hosts land q s s') (alike : AlikeAnswers related q answer answer') :
    land.EndAlike related p (action m) (action' m') := by
  cases alike with
  | ok alike =>
      obtain ⟨n, run, rfl⟩ := h
      obtain ⟨n', run', rfl⟩ := h'
      rw [run, run']
      exact .ok grown hosts alike
  | error alike =>
      obtain ⟨n, run, rfl⟩ := h
      obtain ⟨n', run', rfl⟩ := h'
      rw [run, run']
      exact .error grown hosts (.error alike)

theorem Tracks.bind {next next' : α → EvalM β} (first : land.Tracks related p action action')
    (rest : ∀ q, p ≤ q → ∀ a a', related q a a' → land.Tracks related' q (next a) (next' a')) :
    land.Tracks related' p (action >>= next) (action' >>= next') := by
  intro q le m m' hosts
  have ended := first le hosts
  simp only [Bind.bind, EStateM.bind]
  generalize action m = result at ended ⊢
  generalize action' m' = result' at ended ⊢
  cases ended with
  | ok grown hosts alike =>
      exact (rest _ (le_trans le grown) _ _ alike le_rfl hosts).of_le grown
  | error grown hosts alike => exact .error grown hosts alike

section Operations

/-- A check does not touch the store. -/
theorem tracks_ofExcept {check check' : Except EvalError α}
    (alike : ∀ q, p ≤ q → BiUnique q.identities → AlikeAnswers related q check check') :
    land.Tracks related p (ofExcept check) (ofExcept check') := fun q le m m' hosts =>
  endAlike_of_ends (ends_ofExcept rfl m) (ends_ofExcept rfl m') le_rfl hosts
    (alike q le hosts.copied.uniqueIdentities)

theorem tracks_pure {a a' : α} (alike : ∀ q, p ≤ q → related q a a') :
    land.Tracks related p (pure a) (pure a') :=
  tracks_ofExcept fun q le _ => .ok (alike q le)

theorem tracks_pure_value {v v' : Value} (alike : v.Alike p v') :
    land.Tracks Value.Alike p (pure v) (pure v') :=
  tracks_pure fun _ le => alike.mono le

theorem tracks_fail {e e' : EvalError} (alike : e.Alike p e') :
    land.Tracks related p (fail e : EvalM α) (fail e') :=
  tracks_ofExcept fun _ le _ => .error (alike.mono le)

/-- What is reported does not matter. -/
theorem tracks_report (event event' : Event) :
    land.Tracks (fun _ => Eq) p (report event) (report event') := fun _ _ m m' hosts =>
  endAlike_of_ends (ends_report event m) (ends_report event' m') le_rfl hosts (.ok rfl)

theorem tracks_addScope {scope scope' : Scope} (alike : ∀ q, p ≤ q → scope.Alike q scope') :
    land.Tracks Pairing.scopes p (EvalM.addScope scope) (EvalM.addScope scope') :=
  fun q le m m' hosts =>
    endAlike_of_ends (ends_addScope scope m) (ends_addScope scope' m') (q.le_addScope _ _)
      (hosts.addScope (alike q le)) (.ok (q.addScope_self _ _))

section Names

variable {r r' : ScopeId} (paired : p.scopes r r') (name : String)
include paired

theorem tracks_lookup : land.Tracks Value.Alike p (lookup r name) (lookup r' name) := by
  intro q le m m' hosts
  have owner := hosts.copied.owner? (le.1 _ _ paired) name
  generalize nearest : m.store.owner? r name = owner? at owner
  generalize nearest' : m'.store.owner? r' name = owner?' at owner
  cases owner with
  | none =>
      exact endAlike_of_ends (ends_lookup_unbound (Store.owner?_eq_none_iff.mp nearest))
        (ends_lookup_unbound (Store.owner?_eq_none_iff.mp nearest')) le_rfl hosts
        (.error (.unbound name))
  | some pairedOwner =>
      have owner := Store.owner?_eq_some_iff.mp nearest
      have owner' := Store.owner?_eq_some_iff.mp nearest'
      obtain ⟨value, found⟩ := owner.bound
      obtain ⟨value', found'⟩ := owner'.bound
      have alike := (hosts.copied.bindings pairedOwner).lookup name
      rw [found, found'] at alike
      obtain ⟨alike⟩ := alike
      exact endAlike_of_ends (ends_lookup owner found) (ends_lookup owner' found') le_rfl hosts
        (.ok alike)

theorem tracks_define {v v' : Value} (alike : v.Alike p v') :
    land.Tracks Value.Alike p (EvalM.define r name v) (EvalM.define r' name v') :=
  fun _ le m m' hosts =>
    endAlike_of_ends (ends_define r name v m) (ends_define r' name v' m') le_rfl
      (hosts.define (le.1 _ _ paired) name (alike.mono le)) (.ok (alike.mono le))

theorem tracks_assign {v v' : Value} (alike : v.Alike p v') :
    land.Tracks Value.Alike p (assign r name v) (assign r' name v') := by
  intro q le m m' hosts
  have owner := hosts.copied.owner? (le.1 _ _ paired) name
  generalize nearest : m.store.owner? r name = owner? at owner
  generalize nearest' : m'.store.owner? r' name = owner?' at owner
  cases owner with
  | none =>
      exact endAlike_of_ends (ends_assign_unbound v (Store.owner?_eq_none_iff.mp nearest))
        (ends_assign_unbound v' (Store.owner?_eq_none_iff.mp nearest')) le_rfl hosts
        (.error (.unbound name))
  | some pairedOwner =>
      exact endAlike_of_ends (ends_assign v (Store.owner?_eq_some_iff.mp nearest))
        (ends_assign v' (Store.owner?_eq_some_iff.mp nearest')) le_rfl
        (hosts.define pairedOwner name (alike.mono le)) (.ok (alike.mono le))

end Names

end Operations

section Evaluation

variable {ev ev' : Evaluator} (follows : land.Follows ev ev') {r r' : ScopeId}
include follows

theorem tracks_body {last last' : Value} {forms forms' : List Value} (paired : p.scopes r r')
    (alikeLast : last.Alike p last') (alike : List.Forall₂ (Value.Alike p) forms forms') :
    land.Tracks Value.Alike p ((Task.body last forms r).run ev)
      ((Task.body last' forms' r').run ev') := by
  induction forms generalizing p last last' forms' with
  | nil =>
      cases alike
      exact tracks_pure_value alikeLast
  | cons form forms ih =>
      obtain _ | ⟨first, rest⟩ := alike
      rw [run_body_cons, run_body_cons]
      refine (follows first paired).bind fun q le value value' alikeValue => ?_
      exact ih (le.1 _ _ paired) alikeValue (Value.alike_list_mono le rest)

theorem tracks_apply {callee callee' : Value} {args args' : List Value}
    (alike : callee.Alike p callee') (alikeArgs : List.Forall₂ (Value.Alike p) args args') :
    land.Tracks Value.Alike p (apply ev callee args) (apply ev' callee' args') := by
  have shown := alike
  cases alike with
  | procedure name operation paired =>
      exact tracks_ofExcept fun q le unique =>
        alike_run unique operation (Value.alike_list_mono le alikeArgs)
  | closure paired params body captured =>
      have checked (q : Pairing) (le : p ≤ q) :=
        alike_callScope (Value.alike_list_mono le params.elements) (le.1 _ _ captured)
          (Value.alike_list_mono le alikeArgs)
      refine (tracks_ofExcept fun q le _ => checked q le).bind
        fun q le scope scope' alikeScope => ?_
      refine (tracks_addScope fun q' le' => alikeScope.mono le').bind
        fun q' le' inner inner' pairedInner => ?_
      refine (tracks_report _ _).bind fun q'' le'' _ _ _ => ?_
      have grown := le_trans (le_trans le le') le''
      exact tracks_body follows (le''.1 _ _ pairedInner) .nil (body.mono grown).elements
  | nil | int | symbol | pair => exact tracks_fail (.mismatch .function shown)

theorem tracks_arguments {callee callee' : Value} {values values' forms forms' : List Value}
    (paired : p.scopes r r') (alike : callee.Alike p callee')
    (alikeValues : List.Forall₂ (Value.Alike p) values values')
    (alikeForms : List.Forall₂ (Value.Alike p) forms forms') :
    land.Tracks Value.Alike p ((Task.arguments callee values forms r).run ev)
      ((Task.arguments callee' values' forms' r').run ev') := by
  induction forms generalizing p values values' forms' with
  | nil =>
      cases alikeForms
      rw [run_arguments_nil, run_arguments_nil]
      exact tracks_apply follows alike alikeValues
  | cons form forms ih =>
      obtain _ | ⟨first, rest⟩ := alikeForms
      rw [run_arguments_cons, run_arguments_cons]
      refine (follows first paired).bind fun q le value value' alikeValue => ?_
      have values := List.rel_append (Value.alike_list_mono le alikeValues)
        (.cons alikeValue .nil)
      exact ih (le.1 _ _ paired) (alike.mono le) values (Value.alike_list_mono le rest)

omit follows in
/-- The closures that are made are alike: their identities are paired. -/
theorem tracks_lambda (names : List String) {body body' : List Value} (paired : p.scopes r r')
    (alike : List.Forall₂ (Value.Alike p) body body') :
    land.Tracks Value.Alike p ((Form.lambda names body).run ev r)
      ((Form.lambda names body').run ev' r') := by
  intro q le m m' hosts
  have grown := q.le_addIdentity m.store.nextIdentity m'.store.nextIdentity
  have params := (Value.congruence_alike
    (q.addIdentity m.store.nextIdentity m'.store.nextIdentity)).symbols names
  exact endAlike_of_ends (ends_lambda ev r names body m) (ends_lambda ev' r' names body' m') grown
    hosts.addIdentity (.ok (.closure (q.addIdentity_self _ _) params
      (Value.alike_ofList (Value.alike_list_mono (le_trans le grown) alike)) (le.1 _ _ paired)))

theorem tracks_form {form form' : Form} (alike : form.Alike p form') (paired : p.scopes r r') :
    land.Tracks Value.Alike p (form.run ev r) (form'.run ev' r') := by
  cases alike with
  | quote datum => exact tracks_pure_value datum
  | branch test yes no =>
      refine (follows test paired).bind fun q le value value' alikeValue => ?_
      rw [alikeValue.isTrue]
      split
      · exact follows (yes.mono le) (le.1 _ _ paired)
      · cases no with
        | none => exact tracks_pure_value .nil
        | some no => exact follows (no.mono le) (le.1 _ _ paired)
  | define name form =>
      exact (follows form paired).bind fun q le value value' alikeValue =>
        tracks_define (le.1 _ _ paired) name alikeValue
  | assign name form =>
      exact (follows form paired).bind fun q le value value' alikeValue =>
        tracks_assign (le.1 _ _ paired) name alikeValue
  | lambda names body => exact tracks_lambda names paired body

/-- Steps of two evaluators that evaluate alike evaluate alike. -/
theorem follows_step : land.Follows (step ev) (step ev') := by
  intro p form form' r r' alike paired
  have self := alike
  cases alike with
  | symbol name => exact tracks_lookup paired name
  | @pair head rest head' rest' alikeHead alikeRest =>
      obtain ordinary | ⟨special, rfl⟩ := head.ordinary_or_special
      · have ordinary' : head'.OrdinaryHead := by
          rintro special rfl
          cases alikeHead
          exact ordinary special rfl
        rw [step_call ev r ordinary, step_call ev' r' ordinary']
        refine (follows alikeHead paired).bind fun q le callee callee' alikeCallee => ?_
        exact tracks_arguments follows (le.1 _ _ paired) alikeCallee .nil
          (alikeRest.mono le).elements
      · cases alikeHead
        rw [step_special, step_special]
        refine (tracks_report _ _).bind fun q le _ _ _ => ?_
        have checked (q' : Pairing) (le' : q ≤ q') :=
          alike_shape special (alikeRest.mono (le_trans le le')).elements
        refine (tracks_ofExcept fun q' le' _ => checked q' le').bind
          fun q' le' form form' alikeForm => ?_
        exact tracks_form follows alikeForm ((le_trans le le').1 _ _ paired)
  | nil | int | procedure | closure => exact tracks_pure_value self

end Evaluation

/-- Forms that are alike are evaluated alike, to whatever depth. -/
theorem follows_evaluate (depth : Nat) : land.Follows (evaluate depth) (evaluate depth) := by
  induction depth with
  -- At depth 0 both runs break off at once.
  | zero => exact fun _ _ _ _ _ _ _ _ _ _ _ hosts => .error le_rfl hosts .tooDeep
  | succ depth ih => exact follows_step ih

section GlobalScope

theorem tracks_makeProcedure (name : String) (operation : Primitive) :
    land.Tracks Value.Alike p (makeProcedure name operation) (makeProcedure name operation) := by
  intro q _ m m' hosts
  have ends (m : Machine) : (makeProcedure name operation).Ends m
      (.ok (.procedure m.store.nextIdentity name operation))
      { m.store with nextIdentity := m.store.nextIdentity + 1 } := ⟨_, rfl, rfl⟩
  exact endAlike_of_ends (ends m) (ends m') (q.le_addIdentity _ _) hosts.addIdentity
    (.ok (.procedure name operation (q.addIdentity_self _ _)))

theorem tracks_installPrimitives {r r' : ScopeId} (paired : p.scopes r r') :
    land.Tracks (fun _ => Eq) p (installPrimitives r) (installPrimitives r') := by
  unfold installPrimitives
  generalize Primitive.all = operations
  induction operations generalizing p with
  | nil => exact tracks_pure fun _ _ => rfl
  | cons operation operations ih =>
      rw [List.forM, List.forM]
      have installed : land.Tracks (fun _ => Eq) p
          (makeProcedure operation.name operation >>= fun procedure =>
            EvalM.define r operation.name procedure >>= fun _ => pure PUnit.unit)
          (makeProcedure operation.name operation >>= fun procedure =>
            EvalM.define r' operation.name procedure >>= fun _ => pure PUnit.unit) := by
        refine (tracks_makeProcedure _ _).bind fun q le procedure procedure' alike => ?_
        refine (tracks_define (le.1 _ _ paired) _ alike).bind fun _ _ _ _ _ => ?_
        exact tracks_pure fun _ _ => rfl
      exact installed.bind fun q le _ _ _ => ih (le.1 _ _ paired)

/-- The global scopes that are made are paired. -/
theorem tracks_globalScope : land.Tracks Pairing.scopes p globalScope globalScope := by
  have empty (q : Pairing) : Scope.Alike q {} {} := ⟨.nil, .none⟩
  refine (tracks_addScope fun q _ => empty q).bind fun q _ r r' paired => ?_
  refine (tracks_installPrimitives paired).bind fun q' le _ _ _ => ?_
  exact tracks_pure fun q'' le' => (le_trans le le').1 _ _ paired

end GlobalScope

end Territory

end PocketLisp
