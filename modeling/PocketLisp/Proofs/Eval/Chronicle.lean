import PocketLisp.Proofs.Eval.Step

/-!
# Records of an evaluation

A `Chronicle` says of the states of an evaluation, trace included, which record of what happened
fits them. A record grows with the evaluation, and what values and scopes may occur depends on it.
The laws speak of single operations: what a lookup may find, and which record fits after a
definition, an assignment, a call or a new closure. From them follows, once for all chronicles, that
evaluation goes on from a record that fits to a later one that fits (`Chronicle.evaluate_keeps`),
and that its value, or what its error shows, may occur there. This holds of every outcome, also when
the forms are nested too deeply and evaluation breaks off half-way.

A call adds a scope and reports it, and a lambda reports itself, takes an identity and reports the
closure. Each of these is one step for a chronicle, so that a record need not fit in between.
-/

namespace PocketLisp

open EvalM

/-- The value that an error shows. An unbound name is known by its spelling. -/
def EvalError.shown? : EvalError → Option Value
  | .unbound name => some (.symbol name)
  | .mismatch v _ => some v
  | .wrongCount .. | .tooFew .. | .tooMany .. => none

/-- The value that an action hands out: its own, or the one that its error shows. -/
def EvalM.handedOut (action : EvalM Value) (m : Machine) : Option Value :=
  match action m with
  | .ok v _ => some v
  | .error (.error e) _ => e.shown?
  | .error .tooDeep _ => none

/-- The record of an evaluation, and what may occur where it is kept. -/
structure Chronicle (Record : Type) where
  /-- The second record is the first one or continues it. -/
  later : Record → Record → Prop
  /-- The record is right for this state. -/
  fits : Record → Machine → Prop
  /-- The values that may occur, forms among them. -/
  value : Record → Value → Prop
  /-- The scopes in which forms may be evaluated. -/
  scope : Record → ScopeId → Prop
  later_refl (w : Record) : later w w
  later_trans {w w' w'' : Record} : later w w' → later w' w'' → later w w''
  value_mono {w w' : Record} {v : Value} : later w w' → value w v → value w' v
  scope_mono {w w' : Record} {r : ScopeId} : later w w' → scope w r → scope w' r
  value_nil (w : Record) : value w .nil
  value_truth (w : Record) : value w (.symbol "t")
  value_sum (w : Record) (k : Int) : value w (.int (wrap k))
  value_pair {w : Record} {first rest : Value} :
    value w (.pair first rest) ↔ value w first ∧ value w rest
  value_parts {w : Record} {id : Identity} {params body : Value} {captured : ScopeId} :
    value w (.closure id params body captured) → value w params ∧ value w body
  lookup {w : Record} {m : Machine} {r owner : ScopeId} {name : String} {v : Value} :
    fits w m → scope w r → m.store.Owner name r owner →
      (m.store.bindings owner).lookup name = some v → value w v
  special {w : Record} {m : Machine} (form : SpecialForm) : fits w m →
    ∃ w', later w w' ∧ fits w' (m.reported (.specialForm form.name))
  define {w : Record} {m : Machine} {r : ScopeId} {name : String} {v : Value} :
    fits w m → scope w r → value w (.symbol name) → value w v →
      ∃ w', later w w' ∧ fits w' (m.defined r name v)
  assign {w : Record} {m : Machine} {r owner : ScopeId} {name : String} {v : Value} :
    fits w m → scope w r → m.store.Owner name r owner → value w v →
      ∃ w', later w w' ∧ fits w' (m.defined owner name v)
  enter {w : Record} {m : Machine} {id : Identity} {params body : Value} {captured : ScopeId}
    {names : List String} {args : List Value} :
    fits w m → value w (.closure id params body captured) → params.elements = names.map .symbol →
      args.length = names.length → (∀ arg ∈ args, value w arg) →
      ∃ w', later w w' ∧
        fits w' ((m.added ⟨bindNames names args, some captured⟩).reported
          (.applying (.closure id params body captured) args)) ∧
        scope w' m.store.scopes.size
  lambda {w : Record} {m : Machine} {r : ScopeId} {names : List String} {body : Value} :
    fits w m → scope w r → value w (.ofList (names.map .symbol)) → value w body →
      ∃ w', later w w' ∧
        fits w' (((m.reported (.specialForm SpecialForm.lambda.name)).identified).reported
          (.closureMade (.closure m.store.nextIdentity (.ofList (names.map .symbol)) body r))) ∧
        value w' (.closure m.store.nextIdentity (.ofList (names.map .symbol)) body r)

namespace Chronicle

variable {Record : Type} (chr : Chronicle Record)

/-- What an error shows may occur. -/
def Error (w : Record) (e : EvalError) : Prop :=
  ∀ v ∈ e.shown?, chr.value w v

/-- What a failure shows may occur. -/
def Failure (w : Record) : EvalFailure → Prop
  | .error e => chr.Error w e
  | .tooDeep => True

/-- A value that may occur, or an error that shows one. -/
def Answer (w : Record) : PocketLisp.Answer → Prop
  | .ok v => chr.value w v
  | .error e => chr.Error w e

/-- Whatever the outcome, a later record fits the state that the action leaves, and what the action
hands out may occur there. -/
def Keeps {α : Type} (may : Record → α → Prop) (action : EvalM α) (w : Record) (m : Machine) :
    Prop :=
  match action m with
  | .ok a m' => ∃ w', chr.later w w' ∧ chr.fits w' m' ∧ may w' a
  | .error failure m' => ∃ w', chr.later w w' ∧ chr.fits w' m' ∧ chr.Failure w' failure

variable {chr}

section Actions

variable {α β : Type} {may : Record → α → Prop} {may' : Record → β → Prop}
variable {w w' : Record} {m m' : Machine}

theorem keeps_of_ok {action : EvalM α} {a : α} (run : action m = .ok a m') (later : chr.later w w')
    (fits : chr.fits w' m') (fine : may w' a) : chr.Keeps may action w m := by
  simp only [Keeps, run]
  exact ⟨w', later, fits, fine⟩

theorem keeps_of_error {action : EvalM α} {failure : EvalFailure}
    (run : action m = .error failure m') (later : chr.later w w') (fits : chr.fits w' m')
    (fine : chr.Failure w' failure) : chr.Keeps may action w m := by
  simp only [Keeps, run]
  exact ⟨w', later, fits, fine⟩

theorem Keeps.of_ok {action : EvalM α} {a : α} (h : chr.Keeps may action w m)
    (run : action m = .ok a m') : ∃ w', chr.later w w' ∧ chr.fits w' m' ∧ may w' a := by
  simpa only [Keeps, run] using h

theorem Keeps.of_error {action : EvalM α} {failure : EvalFailure} (h : chr.Keeps may action w m)
    (run : action m = .error failure m') :
    ∃ w', chr.later w w' ∧ chr.fits w' m' ∧ chr.Failure w' failure := by
  simpa only [Keeps, run] using h

/-- A later record fits the state that is left, and what is handed out may occur there. -/
theorem Keeps.after {action : EvalM Value} (h : chr.Keeps chr.value action w m) :
    ∃ w', chr.later w w' ∧ chr.fits w' (action.stateAfter m) ∧
      ∀ v ∈ action.handedOut m, chr.value w' v := by
  unfold EvalM.handedOut
  cases run : action m with
  | ok v m' =>
      obtain ⟨w', later, fits, fine⟩ := h.of_ok run
      exact ⟨w', later, stateAfter_of_ok run ▸ fits, by simpa using fine⟩
  | error failure m' =>
      obtain ⟨w', later, fits, fine⟩ := h.of_error run
      refine ⟨w', later, stateAfter_of_error run ▸ fits, ?_⟩
      cases failure with
      | error e => exact fine
      | tooDeep => simp

/-- What was known before the record grew is not lost. -/
theorem Keeps.mono {action : EvalM α} (h : chr.Keeps may action w' m) (later : chr.later w w') :
    chr.Keeps may action w m := by
  cases run : action m with
  | ok a m' =>
      obtain ⟨w'', later', fits, fine⟩ := h.of_ok run
      exact keeps_of_ok run (chr.later_trans later later') fits fine
  | error failure m' =>
      obtain ⟨w'', later', fits, fine⟩ := h.of_error run
      exact keeps_of_error run (chr.later_trans later later') fits fine

theorem keeps_bind_of_run {action : EvalM α} {next : α → EvalM β} {a : α}
    (run : action m = .ok a m') (rest : chr.Keeps may' (next a) w m') :
    chr.Keeps may' (action >>= next) w m := by
  simpa only [Keeps, bind_of_ok run] using rest

/-- Two actions in turn keep what both of them keep. -/
theorem keeps_bind {action : EvalM α} {next : α → EvalM β} (h : chr.Keeps may action w m)
    (hnext : ∀ a w' m', chr.later w w' → chr.fits w' m' → may w' a →
      chr.Keeps may' (next a) w' m') : chr.Keeps may' (action >>= next) w m := by
  cases run : action m with
  | ok a m' =>
      obtain ⟨w', later, fits, fine⟩ := h.of_ok run
      exact keeps_bind_of_run run ((hnext a w' m' later fits fine).mono later)
  | error failure m' =>
      obtain ⟨w', later, fits, fine⟩ := h.of_error run
      exact keeps_of_error (bind_of_error run next) later fits fine

end Actions

section Values

variable {w : Record} {v : Value}

theorem value_of_mem_elements (fine : chr.value w v) : ∀ item ∈ v.elements, chr.value w item := by
  induction v with
  | pair first rest _ ih =>
      obtain ⟨fineFirst, fineRest⟩ := chr.value_pair.mp fine
      exact List.forall_mem_cons.mpr ⟨fineFirst, ih fineRest⟩
  | _ => exact List.forall_mem_nil _

theorem value_ofList {items : List Value} (fine : ∀ item ∈ items, chr.value w item) :
    chr.value w (.ofList items) := by
  induction items with
  | nil => exact chr.value_nil w
  | cons item items ih =>
      obtain ⟨fineItem, fineItems⟩ := List.forall_mem_cons.mp fine
      exact chr.value_pair.mpr ⟨fineItem, ih fineItems⟩

theorem error_none {e : EvalError} (none : e.shown? = none) : chr.Error w e := by
  simp [Error, none]

theorem error_some {e : EvalError} (some : e.shown? = some v) (fine : chr.value w v) :
    chr.Error w e := by
  simpa [Error, some] using fine

/-- The operations hand out parts of their arguments, pairs of them, sums and truth values. -/
theorem answer_of_performs {operation : Primitive} {args : List Value} {answer : PocketLisp.Answer}
    (h : Primitive.Performs operation args answer) (fine : ∀ arg ∈ args, chr.value w arg) :
    chr.Answer w answer := by
  cases h with
  | sum => exact chr.value_sum w _
  | sumOther => exact error_some rfl (fine _ (by simp))
  | isPair | different => exact chr.value_nil w
  | isNoPair | same => exact chr.value_truth w
  | cons =>
      obtain ⟨fineFirst, fineRest⟩ := List.forall_mem_cons.mp fine
      exact chr.value_pair.mpr ⟨fineFirst, List.forall_mem_singleton.mp fineRest⟩
  | car => exact (chr.value_pair.mp (List.forall_mem_singleton.mp fine)).1
  | cdr => exact (chr.value_pair.mp (List.forall_mem_singleton.mp fine)).2
  | carOther | cdrOther => exact error_some rfl (fine _ List.mem_cons_self)
  | isAtomCount | consCount | carCount | cdrCount | equalCount => exact error_none rfl

theorem error_of_first {values : List Value} (first : FirstNonSymbol values v)
    (fine : ∀ item ∈ values, chr.value w item) : chr.Error w (.mismatch v .symbol) := by
  obtain ⟨names, rest, rfl, -⟩ := first
  exact error_some rfl (fine v (by simp))

/-- A refused special form shows one of its parts. -/
theorem error_of_refuses {special : SpecialForm} {args : List Value} {e : EvalError}
    (h : special.Refuses args e) (fine : ∀ arg ∈ args, chr.value w arg) : chr.Error w e := by
  cases h with
  | defineName | assignName | lambdaList => exact error_some rfl (fine _ List.mem_cons_self)
  | lambdaName list first =>
      exact error_of_first first (value_of_mem_elements (fine _ List.mem_cons_self))
  | _ => exact error_none rfl

end Values

theorem keeps_of_answer {check : Except EvalError Value} {m : Machine} (fits : chr.fits w m)
    (fine : chr.Answer w check) : chr.Keeps chr.value (ofExcept check) w m := by
  cases check with
  | ok v => exact keeps_of_ok rfl (chr.later_refl w) fits fine
  | error e => exact keeps_of_error rfl (chr.later_refl w) fits fine

variable (chr) in
/-- An evaluator that keeps a fitting record, wherever it may be started. -/
def Safe (ev : Evaluator) : Prop :=
  ∀ ⦃form : Value⦄ ⦃r : ScopeId⦄ ⦃w : Record⦄ ⦃m : Machine⦄, chr.fits w m → chr.value w form →
    chr.scope w r → chr.Keeps chr.value (ev form r) w m

section Evaluation

variable {ev : Evaluator} (safe : chr.Safe ev) {r : ScopeId} {w : Record} {m : Machine}
include safe

theorem keeps_body {last : Value} {forms : List Value} (fits : chr.fits w m)
    (fineLast : chr.value w last) (fine : ∀ form ∈ forms, chr.value w form)
    (scope : chr.scope w r) :
    chr.Keeps chr.value ((Task.body last forms r).run ev) w m := by
  induction forms generalizing last w m with
  | nil => exact keeps_of_ok rfl (chr.later_refl w) fits fineLast
  | cons form forms ih =>
      obtain ⟨fineForm, fineForms⟩ := List.forall_mem_cons.mp fine
      rw [run_body_cons]
      refine keeps_bind (safe fits fineForm scope) fun value w' m' later fits' fineValue => ?_
      exact ih fits' fineValue (fun form mem => chr.value_mono later (fineForms form mem))
        (chr.scope_mono later scope)

/-- A call adds a scope and evaluates the body there, or changes nothing. -/
theorem keeps_closure {id : Identity} {params body : Value} {captured : ScopeId}
    {args : List Value} (fits : chr.fits w m)
    (fine : chr.value w (.closure id params body captured))
    (fineArgs : ∀ arg ∈ args, chr.value w arg) :
    chr.Keeps chr.value (apply ev (.closure id params body captured) args) w m := by
  obtain ⟨fineParams, fineBody⟩ := chr.value_parts fine
  by_cases count : args.length = params.elements.length
  · obtain ⟨names, symbols⟩ | ⟨param, first⟩ := symbols_or_first params.elements
    · have count' : args.length = names.length := by rw [count, symbols, List.length_map]
      obtain ⟨w', later, fits', scope⟩ := chr.enter fits fine symbols count' fineArgs
      have fineForms : ∀ form ∈ body.elements, chr.value w' form :=
        value_of_mem_elements (chr.value_mono later fineBody)
      have run := (keeps_body safe fits' (chr.value_nil w') fineForms scope).mono later
      rwa [Keeps, run_closure ev (callScope_symbols symbols count') m]
    · exact keeps_of_error (run_closure_refused ev (callScope_name count first) m)
        (chr.later_refl w) fits (error_of_first first (value_of_mem_elements fineParams))
  · exact keeps_of_error (run_closure_refused ev (callScope_count count) m)
      (chr.later_refl w) fits (error_none rfl)

theorem keeps_apply {callee : Value} {args : List Value} (fits : chr.fits w m)
    (fine : chr.value w callee) (fineArgs : ∀ arg ∈ args, chr.value w arg) :
    chr.Keeps chr.value (apply ev callee args) w m := by
  by_cases applicable : callee.Applicable
  · obtain ⟨id, name, operation, rfl⟩ | ⟨id, params, body, captured, rfl⟩ := applicable
    · exact keeps_of_answer fits (answer_of_performs (Primitive.run_eq_iff.mp rfl) fineArgs)
    · exact keeps_closure safe fits fine fineArgs
  · rw [apply_inapplicable ev applicable]
    exact keeps_of_error rfl (chr.later_refl w) fits (error_some rfl fine)

theorem keeps_arguments {callee : Value} {values forms : List Value} (fits : chr.fits w m)
    (fine : chr.value w callee) (fineValues : ∀ v ∈ values, chr.value w v)
    (fineForms : ∀ form ∈ forms, chr.value w form) (scope : chr.scope w r) :
    chr.Keeps chr.value ((Task.arguments callee values forms r).run ev) w m := by
  induction forms generalizing values w m with
  | nil =>
      rw [run_arguments_nil]
      exact keeps_apply safe fits fine fineValues
  | cons form forms ih =>
      obtain ⟨fineForm, fineForms⟩ := List.forall_mem_cons.mp fineForms
      rw [run_arguments_cons]
      refine keeps_bind (safe fits fineForm scope) fun value w' m' later fits' fineValue => ?_
      have mono {vs : List Value} (fine : ∀ v ∈ vs, chr.value w v) : ∀ v ∈ vs, chr.value w' v :=
        fun v mem => chr.value_mono later (fine v mem)
      exact ih fits' (chr.value_mono later fine)
        (List.forall_mem_append.mpr ⟨mono fineValues, List.forall_mem_singleton.mpr fineValue⟩)
        (mono fineForms) (chr.scope_mono later scope)

/-- What could be evaluated before can be evaluated after the record has grown. -/
theorem keeps_later {form : Value} {w' : Record} {m' : Machine} (later : chr.later w w')
    (fits : chr.fits w' m') (fine : chr.value w form) (scope : chr.scope w r) :
    chr.Keeps chr.value (ev form r) w' m' :=
  safe fits (chr.value_mono later fine) (chr.scope_mono later scope)

/-- A special form of the right shape, other than a lambda, is carried out. -/
theorem keeps_form {special : SpecialForm} {args : List Value} {form : Form}
    (accepts : special.Accepts args form) (other : special ≠ .lambda) (fits : chr.fits w m)
    (fine : ∀ arg ∈ args, chr.value w arg) (scope : chr.scope w r) :
    chr.Keeps chr.value (form.run ev r) w m := by
  cases accepts with
  | quote => exact keeps_of_ok rfl (chr.later_refl w) fits (fine _ (by simp))
  | @branch test yes =>
      refine keeps_bind (safe fits (fine test (by simp)) scope) fun value w' m' later fits' _ => ?_
      split
      · exact keeps_later safe later fits' (fine yes (by simp)) scope
      · exact keeps_of_ok rfl (chr.later_refl w') fits' (chr.value_nil w')
  | @branchElse test yes no =>
      refine keeps_bind (safe fits (fine test (by simp)) scope) fun value w' m' later fits' _ => ?_
      split
      · exact keeps_later safe later fits' (fine yes (by simp)) scope
      · exact keeps_later safe later fits' (fine no (by simp)) scope
  | @define name form =>
      refine keeps_bind (safe fits (fine form (by simp)) scope)
        fun value w' m' later fits' fineValue => ?_
      obtain ⟨w'', later', fits''⟩ := chr.define fits' (chr.scope_mono later scope)
        (chr.value_mono later (fine (.symbol name) (by simp))) fineValue
      exact keeps_of_ok rfl later' fits'' (chr.value_mono later' fineValue)
  | @assign name form =>
      refine keeps_bind (safe fits (fine form (by simp)) scope)
        fun value w' m' later fits' fineValue => ?_
      by_cases somewhere : ∃ owner, m'.store.Owner name r owner
      · obtain ⟨owner, nearest⟩ := somewhere
        obtain ⟨w'', later', fits''⟩ := chr.assign fits' (chr.scope_mono later scope) nearest
          fineValue
        exact keeps_of_ok (run_assign value nearest) later' fits'' (chr.value_mono later' fineValue)
      · exact keeps_of_error (run_assign_unbound value (not_exists.mp somewhere))
          (chr.later_refl w') fits'
          (error_some rfl (chr.value_mono later (fine (.symbol name) (by simp))))
  | lambda => exact absurd rfl other

omit safe in
/-- The report of a lambda and the making of the closure are one step. -/
theorem keeps_lambda {rest : Value} {form : Form}
    (accepts : SpecialForm.lambda.Accepts rest.elements form) (fits : chr.fits w m)
    (fine : ∀ arg ∈ rest.elements, chr.value w arg) (scope : chr.scope w r) :
    chr.Keeps chr.value (step ev (.pair (.symbol SpecialForm.lambda.name) rest) r) w m := by
  rw [Keeps, run_accepted ev r accepts m]
  generalize rest.elements = args at accepts fine
  cases accepts with
  | @lambda params body names list symbols =>
      have fineParams := value_ofList (value_of_mem_elements (fine params (by simp)))
      have fineBody := value_ofList fun form mem => fine form (List.mem_cons_of_mem _ mem)
      rw [symbols] at fineParams
      exact chr.lambda fits scope fineParams fineBody

/-- A step over an evaluator that keeps a fitting record keeps one. -/
theorem safe_step : chr.Safe (step ev) := by
  intro form r w m fits fine scope
  cases form with
  | symbol name =>
      by_cases somewhere : ∃ owner, m.store.Owner name r owner
      · obtain ⟨owner, nearest⟩ := somewhere
        obtain ⟨value, found⟩ := nearest.bound
        exact keeps_of_ok (run_lookup nearest found) (chr.later_refl w) fits
          (chr.lookup fits scope nearest found)
      · exact keeps_of_error (run_lookup_unbound (not_exists.mp somewhere)) (chr.later_refl w) fits
          (error_some rfl fine)
  | pair head rest =>
      obtain ⟨fineHead, fineRest⟩ := chr.value_pair.mp fine
      have fineArgs := value_of_mem_elements fineRest
      obtain ordinary | ⟨special, rfl⟩ := head.ordinary_or_special
      · rw [step_call ev r ordinary]
        refine keeps_bind (safe fits fineHead scope) fun callee w' m' later fits' fineCallee => ?_
        exact keeps_arguments safe fits' fineCallee (List.forall_mem_nil _)
          (fun form mem => chr.value_mono later (fineArgs form mem)) (chr.scope_mono later scope)
      · obtain ⟨form, accepts⟩ | ⟨e, refuses⟩ := special.accepts_or_refuses rest.elements
        · by_cases isLambda : special = .lambda
          · subst isLambda
            exact keeps_lambda accepts fits fineArgs scope
          · obtain ⟨w', later, fits'⟩ := chr.special special fits
            have carried := keeps_form safe accepts isLambda fits'
              (fun arg mem => chr.value_mono later (fineArgs arg mem)) (chr.scope_mono later scope)
            rw [Keeps, run_accepted ev r accepts m]
            exact carried.mono later
        · obtain ⟨w', later, fits'⟩ := chr.special special fits
          exact keeps_of_error (run_refused ev r refuses m) later fits'
            (error_of_refuses refuses fun arg mem => chr.value_mono later (fineArgs arg mem))
  | nil | int | procedure | closure => exact keeps_of_ok rfl (chr.later_refl w) fits fine

end Evaluation

variable (chr) in
/-- Evaluation keeps a fitting record of every chronicle, to whatever depth it goes and whatever
its outcome. -/
theorem evaluate_keeps (depth : Nat) : chr.Safe (evaluate depth) := by
  induction depth with
  -- At depth 0 evaluation breaks off at once, and the record still fits.
  | zero => exact fun _ _ w _ fits _ _ => keeps_of_error rfl (chr.later_refl w) fits trivial
  | succ depth ih => exact safe_step ih

end Chronicle

end PocketLisp
