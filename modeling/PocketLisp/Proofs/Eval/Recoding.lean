import PocketLisp.Proofs.Eval.Chronicle
import PocketLisp.Proofs.Eval.Congruence
import PocketLisp.Proofs.Store.Write

/-!
# Evaluation of other code

Two runs may carry out different code and still do the same. A `Recoding` says which forms the one
evaluates in place of which, and which bodies its closures have in place of which. It is sound if
forms that stand in place of each other start the same step with subforms that do, and if closures
that are made then, or entered, have such bodies. The two runs of a form then stay in step, to any
depth, and end alike (`Recoding.Sound.follows_evaluate`): in values, errors and stores that are the
same but for the bodies of closures.

The scopes and identities that are made have the same numbers in both runs.
-/

namespace PocketLisp

open EvalM

/-- The code of two runs. The bodies of closures may depend on their identities; those from `floor`
on are given during the runs. -/
structure Recoding where
  forms : Value → Value → Prop
  bodies : Identity → Value → Value → Prop
  floor : Identity

/-- The values are the same, but for the bodies of closures, which stand in place of each other. -/
inductive Value.Recoded (code : Recoding) : Value → Value → Prop where
  | nil : Recoded code .nil .nil
  | int (n : Int) : Recoded code (.int n) (.int n)
  | symbol (name : String) : Recoded code (.symbol name) (.symbol name)
  | pair {first rest first' rest'} (firsts : Recoded code first first')
      (rests : Recoded code rest rest') : Recoded code (.pair first rest) (.pair first' rest')
  | procedure (id : Identity) (name : String) (operation : Primitive) :
      Recoded code (.procedure id name operation) (.procedure id name operation)
  | closure {id params params' body body'} (r : ScopeId)
      (parameters : Recoded code params params') (bodies : code.bodies id body body') :
      Recoded code (.closure id params body r) (.closure id params' body' r)

/-- The stores have the same scopes, which bind the same names in the same order to values that are
the same but for the bodies of closures. -/
structure Store.Recoded (code : Recoding) (s s' : Store) : Prop where
  size : s'.scopes.size = s.scopes.size
  nextIdentity : s'.nextIdentity = s.nextIdentity
  floor_le : code.floor ≤ s.nextIdentity
  outer (id : ScopeId) : s'.outer? id = s.outer? id
  bindings (id : ScopeId) : (s.bindings id).Related (Value.Recoded code) (s'.bindings id)

/-- The special forms are the same, of subforms that stand in place of each other. A closure that
they make gets such a body, whatever its identity. -/
inductive Form.Recoded (code : Recoding) : Form → Form → Prop where
  | quote {datum datum'} (data : datum.Recoded code datum') :
      Recoded code (.quote datum) (.quote datum')
  | branch {test yes no test' yes' no'} (tests : code.forms test test')
      (yeses : code.forms yes yes') (nos : Option.Rel code.forms no no') :
      Recoded code (.branch test yes no) (.branch test' yes' no')
  | define {form form'} (name : String) (forms : code.forms form form') :
      Recoded code (.define name form) (.define name form')
  | assign {form form'} (name : String) (forms : code.forms form form') :
      Recoded code (.assign name form) (.assign name form')
  | lambda {body body'} (params : List String)
      (made : ∀ id, code.floor ≤ id → code.bodies id (.ofList body) (.ofList body')) :
      Recoded code (.lambda params body) (.lambda params body')

namespace Recoding

/-- The forms start the same step, with subforms that stand in place of each other. -/
inductive InStep (code : Recoding) : Value → Value → Prop where
  | symbol (name : String) : InStep code (.symbol name) (.symbol name)
  | self {form form'} (self : form.SelfEvaluating) (self' : form'.SelfEvaluating)
      (recoded : form.Recoded code form') : InStep code form form'
  | accepted {special : SpecialForm} {rest rest' form form'}
      (accepts : special.Accepts rest.elements form)
      (accepts' : special.Accepts rest'.elements form') (recoded : form.Recoded code form') :
      InStep code (.pair (.symbol special.name) rest) (.pair (.symbol special.name) rest')
  | refused {special : SpecialForm} {rest rest' e e'}
      (refuses : special.Refuses rest.elements e) (refuses' : special.Refuses rest'.elements e')
      (errors : e.Related (Value.Recoded code) e') :
      InStep code (.pair (.symbol special.name) rest) (.pair (.symbol special.name) rest')
  | call {head rest head' rest'} (ordinary : head.OrdinaryHead) (ordinary' : head'.OrdinaryHead)
      (heads : code.forms head head')
      (args : List.Forall₂ code.forms rest.elements rest'.elements) :
      InStep code (.pair head rest) (.pair head' rest')

/-- The code of the two runs does the same. -/
structure Sound (code : Recoding) : Prop where
  forms {form form' : Value} : code.forms form form' → code.InStep form form'
  bodies {id : Identity} {body body' : Value} :
    code.bodies id body body' → List.Forall₂ code.forms body.elements body'.elements

/-- The runs ended alike: in results that are related, for the same cause, or because forms were
nested too deeply. -/
inductive EndAlike {α : Type} (code : Recoding) (related : α → α → Prop) :
    EStateM.Result EvalFailure Machine α → EStateM.Result EvalFailure Machine α → Prop where
  | ok {a a' m m'} (results : related a a') (stores : m.store.Recoded code m'.store) :
      EndAlike code related (.ok a m) (.ok a' m')
  | error {e e' m m'} (errors : e.Related (Value.Recoded code) e')
      (stores : m.store.Recoded code m'.store) :
      EndAlike code related (.error (.error e) m) (.error (.error e') m')
  | tooDeep {m m'} (stores : m.store.Recoded code m'.store) :
      EndAlike code related (.error .tooDeep m) (.error .tooDeep m')

/-- Started in stores that are the same but for the bodies of closures, the actions end alike. -/
def Tracks {α : Type} (code : Recoding) (related : α → α → Prop) (action action' : EvalM α) :
    Prop :=
  ∀ ⦃m m' : Machine⦄, m.store.Recoded code m'.store →
    code.EndAlike related (action m) (action' m')

/-- Forms that stand in place of each other are evaluated alike. -/
def Follows (code : Recoding) (ev ev' : Evaluator) : Prop :=
  ∀ ⦃form form' : Value⦄, code.forms form form' → ∀ r : ScopeId,
    code.Tracks (Value.Recoded code) (ev form r) (ev' form' r)

end Recoding

namespace Value

variable {code : Recoding} {v v' w w' : Value}

theorem congruence_recoded (code : Recoding) : Congruence (Recoded code) where
  nil := .nil
  int := .int
  symbol := .symbol
  pair := .pair
  similar h := by
    cases h with
    | nil => exact .nil
    | int n => exact .int n
    | symbol name => exact .symbol name
    | pair firsts rests => exact .pair firsts rests
    | procedure id name operation => exact .procedure operation
    | closure => exact .closure

/-- Equality does not look into the bodies of closures. -/
theorem Recoded.equal (h : v.Recoded code v') (h' : w.Recoded code w') :
    v.equal w = v'.equal w' := by
  induction h generalizing w w' with
  | pair _ _ ihFirst ihRest =>
      cases h' with
      | pair firsts rests => simp only [Value.equal, ihFirst firsts, ihRest rests]
      | _ => rfl
  | _ => cases h' <;> rfl

/-- There is no closure in the value. -/
def ClosureFree : Value → Prop
  | pair first rest => first.ClosureFree ∧ rest.ClosureFree
  | closure .. => False
  | _ => True

theorem recoded_of_closureFree (code : Recoding) (free : v.ClosureFree) : v.Recoded code v := by
  induction v with
  | nil => exact .nil
  | int n => exact .int n
  | symbol name => exact .symbol name
  | pair first rest ihFirst ihRest => exact .pair (ihFirst free.1) (ihRest free.2)
  | procedure id name operation => exact .procedure id name operation
  | closure => exact free.elim

/-- Where there is no closure, no body can stand in place of another. -/
theorem Recoded.eq_of_closureFree (h : v.Recoded code v') (free : v.ClosureFree) : v' = v := by
  induction h with
  | pair _ _ ihFirst ihRest => rw [ihFirst free.1, ihRest free.2]
  | closure => exact free.elim
  | _ => rfl

end Value

namespace EvalError

variable {code : Recoding} {e e' : EvalError}

/-- An error stays as it is if the value does that it shows. -/
theorem related_self (shown : ∀ v ∈ e.shown?, v.Recoded code v) :
    e.Related (Value.Recoded code) e := by
  cases e with
  | unbound name => exact .unbound name
  | mismatch v kind => exact .mismatch kind (shown v rfl)
  | wrongCount actual expected => exact .wrongCount actual expected
  | tooFew actual minimum => exact .tooFew actual minimum
  | tooMany actual maximum => exact .tooMany actual maximum

theorem Related.eq_of_closureFree (h : e.Related (Value.Recoded code) e')
    (free : ∀ v ∈ e.shown?, v.ClosureFree) : e' = e := by
  cases h with
  | mismatch kind related => rw [related.eq_of_closureFree (free _ rfl)]
  | _ => rfl

end EvalError

namespace Store.Recoded

variable {code : Recoding} {s s' : Store} (h : s.Recoded code s')
include h

theorem around (id : ScopeId) : s'.around? id = s.around? id := by
  rw [around?_eq, around?_eq, h.outer]

/-- The nearest binding of a name is in the same scope. -/
theorem owner_iff {name : String} {r owner : ScopeId} :
    s'.Owner name r owner ↔ s.Owner name r owner := by
  have binds (id : ScopeId) := (h.bindings id).binds name
  constructor
  · intro nearest
    induction nearest with
    | here bound => exact .here ((binds _).symm ▸ bound)
    | outward unbound around _ ih =>
        exact .outward ((binds _).symm ▸ unbound) (h.around _ ▸ around) ih
  · intro nearest
    induction nearest with
    | here bound => exact .here (binds _ ▸ bound)
    | outward unbound around _ ih =>
        exact .outward (binds _ ▸ unbound) ((h.around _).symm ▸ around) ih

theorem define (r : ScopeId) (name : String) {v v' : Value} (recoded : v.Recoded code v') :
    (s.define r name v).Recoded code (s'.define r name v') where
  size := by rw [size_define, size_define, h.size]
  nextIdentity := h.nextIdentity
  floor_le := h.floor_le
  outer id := by rw [outer?_define, outer?_define, h.outer]
  bindings id := by
    rw [bindings_define, bindings_define, h.size]
    split
    · exact (h.bindings id).define name recoded
    · exact h.bindings id

theorem addScope {scope scope' : Scope}
    (bindings : scope.bindings.Related (Value.Recoded code) scope'.bindings)
    (outer : scope'.outer = scope.outer) :
    (s.addScope scope).2.Recoded code (s'.addScope scope').2 where
  size := by rw [size_addScope, size_addScope, h.size]
  nextIdentity := h.nextIdentity
  floor_le := h.floor_le
  outer id := by rw [outer?_addScope, outer?_addScope, h.size, h.outer, outer]
  bindings id := by
    rw [bindings_addScope, bindings_addScope, h.size]
    split
    · exact bindings
    · exact h.bindings id

theorem identified :
    Store.Recoded code { s with nextIdentity := s.nextIdentity + 1 }
      { s' with nextIdentity := s'.nextIdentity + 1 } where
  size := h.size
  nextIdentity := congrArg (· + 1) h.nextIdentity
  floor_le := Nat.le_succ_of_le h.floor_le
  outer := h.outer
  bindings := h.bindings

end Store.Recoded

namespace Recoding

variable {code : Recoding} {α β : Type} {related : α → α → Prop} {related' : β → β → Prop}
variable {action action' : EvalM α}

theorem endAlike_of_ends {m m' : Machine} {answer answer' : Except EvalError α} {s s' : Store}
    (h : action.Ends m answer s) (h' : action'.Ends m' answer' s')
    (answers : RelatedAnswers (Value.Recoded code) related answer answer')
    (stores : s.Recoded code s') : code.EndAlike related (action m) (action' m') := by
  cases answers with
  | ok results =>
      obtain ⟨n, run, rfl⟩ := h
      obtain ⟨n', run', rfl⟩ := h'
      rw [run, run']
      exact .ok results stores
  | error errors =>
      obtain ⟨n, run, rfl⟩ := h
      obtain ⟨n', run', rfl⟩ := h'
      rw [run, run']
      exact .error errors stores

/-- What an action ends with is the same in both runs if no closure is in it. -/
theorem EndAlike.outcome_eq {action action' : EvalM Value} {m m' : Machine}
    (h : code.EndAlike (Value.Recoded code) (action m) (action' m'))
    (free : ∀ v ∈ action.handedOut m, v.ClosureFree) : action'.outcome m' = action.outcome m := by
  unfold EvalM.handedOut at free
  unfold EvalM.outcome
  generalize action m = result at h free ⊢
  generalize action' m' = result' at h ⊢
  cases h with
  | ok results stores => rw [results.eq_of_closureFree (free _ rfl)]
  | error errors stores => rw [errors.eq_of_closureFree free]
  | tooDeep stores => rfl

theorem Tracks.bind {next next' : α → EvalM β} (first : code.Tracks related action action')
    (rest : ∀ a a', related a a' → code.Tracks related' (next a) (next' a')) :
    code.Tracks related' (action >>= next) (action' >>= next') := by
  intro m m' stores
  have ended := first stores
  simp only [Bind.bind, EStateM.bind]
  generalize action m = result at ended ⊢
  generalize action' m' = result' at ended ⊢
  cases ended with
  | ok results stores => exact rest _ _ results stores
  | error errors stores => exact .error errors stores
  | tooDeep stores => exact .tooDeep stores

section Operations

variable {v v' : Value} (r : ScopeId) (name : String)

/-- A check does not touch the store. -/
theorem tracks_ofExcept {check check' : Except EvalError α}
    (answers : RelatedAnswers (Value.Recoded code) related check check') :
    code.Tracks related (ofExcept check) (ofExcept check') := fun m m' stores =>
  endAlike_of_ends (ends_ofExcept rfl m) (ends_ofExcept rfl m') answers stores

theorem tracks_pure (recoded : v.Recoded code v') :
    code.Tracks (Value.Recoded code) (pure v) (pure v') :=
  tracks_ofExcept (.ok recoded)

theorem tracks_lookup : code.Tracks (Value.Recoded code) (lookup r name) (lookup r name) := by
  intro m m' stores
  by_cases somewhere : ∃ owner, m.store.Owner name r owner
  · obtain ⟨owner, nearest⟩ := somewhere
    have nearest' := stores.owner_iff.mpr nearest
    obtain ⟨value, found⟩ := nearest.bound
    obtain ⟨value', found'⟩ := nearest'.bound
    have recoded := (stores.bindings owner).lookup name
    rw [found, found'] at recoded
    obtain ⟨recoded⟩ := recoded
    exact endAlike_of_ends (ends_lookup nearest found) (ends_lookup nearest' found')
      (.ok recoded) stores
  · have nowhere := not_exists.mp somewhere
    have nowhere' : ∀ owner, ¬ m'.store.Owner name r owner := by
      simpa only [stores.owner_iff] using nowhere
    exact endAlike_of_ends (ends_lookup_unbound nowhere) (ends_lookup_unbound nowhere')
      (.error (.unbound name)) stores

theorem tracks_define (recoded : v.Recoded code v') :
    code.Tracks (Value.Recoded code) (EvalM.define r name v) (EvalM.define r name v') :=
  fun m m' stores => endAlike_of_ends (ends_define r name v m) (ends_define r name v' m')
    (.ok recoded) (stores.define r name recoded)

theorem tracks_assign (recoded : v.Recoded code v') :
    code.Tracks (Value.Recoded code) (assign r name v) (assign r name v') := by
  intro m m' stores
  by_cases somewhere : ∃ owner, m.store.Owner name r owner
  · obtain ⟨owner, nearest⟩ := somewhere
    exact endAlike_of_ends (ends_assign v nearest)
      (ends_assign v' (stores.owner_iff.mpr nearest)) (.ok recoded)
      (stores.define owner name recoded)
  · have nowhere := not_exists.mp somewhere
    have nowhere' : ∀ owner, ¬ m'.store.Owner name r owner := by
      simpa only [stores.owner_iff] using nowhere
    exact endAlike_of_ends (ends_assign_unbound v nowhere) (ends_assign_unbound v' nowhere')
      (.error (.unbound name)) stores

end Operations

/-- The closures that are made have the same identity, and bodies in place of each other. -/
theorem tracks_lambda (ev ev' : Evaluator) (r : ScopeId) (names : List String)
    {body body' : List Value}
    (made : ∀ id, code.floor ≤ id → code.bodies id (.ofList body) (.ofList body')) :
    code.Tracks (Value.Recoded code) ((Form.lambda names body).run ev r)
      ((Form.lambda names body').run ev' r) := by
  intro m m' stores
  have params := (Value.congruence_recoded code).symbols names
  have ends' := ends_lambda ev' r names body' m'
  rw [stores.nextIdentity] at ends'
  exact endAlike_of_ends (ends_lambda ev r names body m) ends'
    (.ok (.closure r params (made _ stores.floor_le))) (stores.nextIdentity ▸ stores.identified)

section Evaluation

variable {ev ev' : Evaluator} (follows : code.Follows ev ev') (r : ScopeId)
include follows

theorem tracks_body {last last' : Value} {forms forms' : List Value}
    (lasts : last.Recoded code last') (h : List.Forall₂ code.forms forms forms') :
    code.Tracks (Value.Recoded code) ((Task.body last forms r).run ev)
      ((Task.body last' forms' r).run ev') := by
  induction h generalizing last last' with
  | nil => exact tracks_pure lasts
  | cons first _ ih =>
      rw [run_body_cons, run_body_cons]
      exact (follows first r).bind fun value value' recoded => ih recoded

theorem tracks_form {form form' : Form} (recoded : form.Recoded code form') :
    code.Tracks (Value.Recoded code) (form.run ev r) (form'.run ev' r) := by
  cases recoded with
  | quote data => exact tracks_pure data
  | branch tests yeses nos =>
      refine (follows tests r).bind fun value value' recoded => ?_
      rw [(Value.congruence_recoded code).isTrue recoded]
      split
      · exact follows yeses r
      · cases nos with
        | none => exact tracks_pure .nil
        | some nos => exact follows nos r
  | define name forms =>
      exact (follows forms r).bind fun value value' recoded => tracks_define r name recoded
  | assign name forms =>
      exact (follows forms r).bind fun value value' recoded => tracks_assign r name recoded
  | lambda names made => exact tracks_lambda ev ev' r names made

variable (sound : code.Sound)
include sound

theorem tracks_apply {callee callee' : Value} {args args' : List Value}
    (callees : callee.Recoded code callee')
    (recoded : List.Forall₂ (Value.Recoded code) args args') :
    code.Tracks (Value.Recoded code) (apply ev callee args) (apply ev' callee' args') := by
  have shown := callees
  cases callees with
  | procedure id name operation =>
      exact tracks_ofExcept
        ((Value.congruence_recoded code).run Value.Recoded.equal operation recoded)
  | @closure id params params' body body' captured parameters bodies =>
      intro m m' stores
      have scopes := (Value.congruence_recoded code).callScope
        ((Value.congruence_recoded code).elements parameters) recoded captured captured
      generalize checked : callScope params.elements captured args = answer at scopes
      generalize checked' : callScope params'.elements captured args' = answer' at scopes
      cases scopes with
      | ok related =>
          -- The stores have equally many scopes, so the bodies run in scopes of the same number.
          obtain ⟨bindings, outer, outer'⟩ := related
          rw [run_closure ev checked, run_closure ev' checked', stores.size]
          exact tracks_body follows _ .nil (sound.bodies bodies)
            (stores.addScope bindings (outer'.trans outer.symm))
      | error errors =>
          rw [run_closure_refused ev checked, run_closure_refused ev' checked']
          exact .error errors stores
  | nil | int | symbol | pair => exact tracks_ofExcept (.error (.mismatch .function shown))

theorem tracks_arguments {callee callee' : Value} {values values' forms forms' : List Value}
    (callees : callee.Recoded code callee')
    (recoded : List.Forall₂ (Value.Recoded code) values values')
    (h : List.Forall₂ code.forms forms forms') :
    code.Tracks (Value.Recoded code) ((Task.arguments callee values forms r).run ev)
      ((Task.arguments callee' values' forms' r).run ev') := by
  induction h generalizing values values' with
  | nil =>
      rw [run_arguments_nil, run_arguments_nil]
      exact tracks_apply follows sound callees recoded
  | cons first _ ih =>
      rw [run_arguments_cons, run_arguments_cons]
      exact (follows first r).bind fun value value' last =>
        ih (List.rel_append recoded (.cons last .nil))

/-- Steps of two evaluators that evaluate alike evaluate alike. -/
theorem follows_step : code.Follows (step ev) (step ev') := by
  intro form form' forms r
  cases sound.forms forms with
  | symbol name => exact tracks_lookup r name
  | self self self' recoded =>
      rw [step_self ev r self, step_self ev' r self']
      exact tracks_pure recoded
  | accepted accepts accepts' recoded =>
      intro m m' stores
      rw [run_accepted ev r accepts, run_accepted ev' r accepts']
      exact tracks_form follows r recoded stores
  | refused refuses refuses' errors =>
      intro m m' stores
      rw [run_refused ev r refuses, run_refused ev' r refuses']
      exact .error errors stores
  | call ordinary ordinary' heads args =>
      rw [step_call ev r ordinary, step_call ev' r ordinary']
      exact (follows heads r).bind fun callee callee' recoded =>
        tracks_arguments follows r sound recoded .nil args

end Evaluation

/-- Forms that stand in place of each other are evaluated alike, to whatever depth. -/
theorem Sound.follows_evaluate (sound : code.Sound) (depth : Nat) :
    code.Follows (evaluate depth) (evaluate depth) := by
  induction depth with
  -- At depth 0 both runs break off at once.
  | zero => exact fun _ _ _ _ _ _ stores => .tooDeep stores
  | succ depth ih => exact follows_step ih sound

end Recoding

end PocketLisp
