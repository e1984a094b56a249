import PocketLisp.Proofs.Eval.Invariant
import PocketLisp.Proofs.Session.Reachable

/-!
# What a session computes can be written down

A text spells legal names and integers of the fixed width only, and nothing that a session does with
them leads out of these: sums are wrapped, truth is the legal name `t`, and the names that are bound
are those of parameters and of definitions, which were read. So no scope ever binds `nil`, and what
a session answers is made of legal names and integers of the fixed width, together with procedures
and closures. The parameters of a closure are legal names, and the forms in its body are legal.
-/

namespace PocketLisp

/-- A value made of integers of the fixed width, symbols with legal names, and procedures and
closures of legal parts. -/
def Value.Legal : Value → Prop
  | nil => True
  | int n => InWord n
  | symbol name => LegalName name
  | pair first rest => first.Legal ∧ rest.Legal
  | procedure _ name _ => LegalName name
  | closure _ params body _ =>
    (∃ names : List String, params = ofList (names.map symbol)) ∧ params.Legal ∧ body.Legal

/-- Every name that is bound is legal, and so is its value. -/
def Store.Legal (s : Store) : Prop :=
  ∀ id, ∀ binding ∈ s.bindings id, LegalName binding.1 ∧ binding.2.Legal

/-- The value that a failure shows. -/
def Failure.shown? : Failure → Option Value
  | .reading _ => none
  | .evaluation (.error e) => e.shown?
  | .evaluation .tooDeep => none

/-- All values are legal, also the one that the failure shows. -/
structure Results.Legal (results : Results) : Prop where
  values : ∀ v ∈ results.values, v.Legal
  shown : ∀ failure ∈ results.failure, ∀ v ∈ failure.shown?, v.Legal

theorem Value.Plain.legal {v : Value} (plain : v.Plain) : v.Legal := by
  induction v with
  | pair first rest ihFirst ihRest => exact ⟨ihFirst plain.1, ihRest plain.2⟩
  | procedure | closure => exact plain.elim
  | nil | int | symbol => exact plain

theorem Value.legal_of_mem_elements {v item : Value} (legal : v.Legal) (mem : item ∈ v.elements) :
    item.Legal := by
  induction v with
  | pair first rest _ ih =>
      obtain rfl | mem := List.mem_cons.mp mem
      · exact legal.1
      · exact ih legal.2 mem
  | _ => exact absurd mem List.not_mem_nil

/-- A fault of the text shows no value. -/
theorem Results.Legal.orFault {results : Results} (legal : results.Legal)
    (fault : Option ReadFailure) : (results.orFault fault).Legal := by
  refine ⟨legal.values, fun failure failed v shown => ?_⟩
  obtain failed | ⟨-, faulty⟩ := Option.or_eq_some_iff.mp failed
  · exact legal.shown failure failed v shown
  · obtain ⟨_, -, rfl⟩ := Option.map_eq_some_iff.mp faulty
    cases shown

namespace Store

variable {s : Store}

theorem Legal.define (legal : s.Legal) {name : String} {value : Value} (fineName : LegalName name)
    (fine : value.Legal) (r : ScopeId) : (s.define r name value).Legal :=
  forall_bindings_define legal ⟨fineName, fine⟩ r

theorem Legal.addScope (legal : s.Legal) {scope : Scope}
    (fine : ∀ binding ∈ scope.bindings, LegalName binding.1 ∧ binding.2.Legal) :
    (s.addScope scope).2.Legal :=
  forall_bindings_addScope legal fine

end Store

theorem legalName_truth : LegalName "t" := by
  decide

theorem Primitive.legalName (operation : Primitive) : LegalName operation.name := by
  cases operation <;> decide

/-- Evaluation keeps the store legal, and hands out legal values. -/
def Invariant.legality : Invariant where
  holds s := s.Legal
  value _ v := v.Legal
  scope _ _ := True
  value_mono _ fine := fine
  scope_mono _ _ := trivial
  value_nil _ := trivial
  value_truth _ := legalName_truth
  value_sum _ k := inWord_wrap k
  value_pair := Iff.rfl
  value_closure _ _ fineParams fineBody := ⟨⟨_, rfl⟩, fineParams, fineBody⟩
  value_parts fine := fine.2
  lookup legal _ _ found := (legal _ _ (Bindings.mem_of_lookup found)).2
  identity legal := legal
  define legal _ fineName fine := legal.define fineName fine _
  assign legal _ nearest fine := by
    obtain ⟨old, found⟩ := nearest.bound
    exact legal.define (legal _ _ (Bindings.mem_of_lookup found)).1 fine _
  enter legal fine symbols fineArgs := by
    refine ⟨legal.addScope fun binding bound => ?_, trivial⟩
    obtain ⟨memName, memArg⟩ := List.of_mem_zip (mem_bindNames bound)
    have symbol : Value.symbol binding.1 ∈ _ := symbols ▸ List.mem_map_of_mem memName
    exact ⟨Value.legal_of_mem_elements fine.2.1 symbol, fineArgs _ memArg⟩

namespace Session

theorem legal_start : start.store.Legal := by
  intro id binding bound
  obtain ⟨operation, identity, rfl⟩ := start_binds bound
  exact ⟨operation.legalName, operation.legalName⟩

/-- A form that was read keeps the store legal, and hands out a legal value. -/
theorem keeps_legal (depth : Nat) {form : Value} {m : Machine} (plain : form.Plain)
    (legal : m.store.Legal) :
    Invariant.legality.Keeps Invariant.legality.value (evaluate depth form globalScope) m :=
  Invariant.legality.evaluate_keeps depth legal plain.legal trivial

/-- Every store that a session can come to is legal, also after conversations. -/
theorem Reachable.legal {s : Store} (reachable : Reachable s) : s.Legal :=
  reachable.induction legal_start fun depth _ _ plain legal =>
    (keeps_legal depth plain legal).reached.holds

/-- Data that were read keep the store legal, one after the other, and have legal results. -/
theorem legal_evalForms (depth : Nat) {forms : List Value} {m : Machine}
    (plain : ∀ form ∈ forms, form.Plain) (legal : m.store.Legal) :
    (evalForms (evaluate depth) forms m).1.Legal ∧
      (evalForms (evaluate depth) forms m).2.store.Legal := by
  induction forms generalizing m with
  | nil => exact ⟨⟨List.forall_mem_nil _, by simp [evalForms]⟩, legal⟩
  | cons form forms ih =>
      obtain ⟨plainForm, plainForms⟩ := List.forall_mem_cons.mp plain
      have kept := keeps_legal depth plainForm legal
      cases run : evaluate depth form globalScope m with
      | ok value m' =>
          obtain ⟨reached, fine⟩ := kept.of_ok run
          obtain ⟨results, after⟩ := ih plainForms reached.holds
          rw [evalForms_of_ok run]
          exact ⟨⟨List.forall_mem_cons.mpr ⟨fine, results.values⟩, results.shown⟩, after⟩
      | error failure m' =>
          obtain ⟨reached, fine⟩ := kept.of_error run
          rw [evalForms_of_error run]
          refine ⟨⟨List.forall_mem_nil _, ?_⟩, reached.holds⟩
          rintro _ ⟨⟩ v shown
          cases failure with
          | tooDeep => cases shown
          | error e => exact Invariant.Error.shown fine shown

theorem legal_evalText (depth : Nat) (text : String) {m : Machine} (legal : m.store.Legal) :
    (evalText (evaluate depth) text m).1.Legal ∧
      (evalText (evaluate depth) text m).2.store.Legal := by
  obtain ⟨results, after⟩ := legal_evalForms depth (fun _ mem => plain_of_mem_readAll mem) legal
  rw [evalText_eq]
  exact ⟨results.orFault _, after⟩

theorem legal_of_mem_steps (depth : Nat) {texts : List String} {m : Machine}
    (legal : m.store.Legal) :
    ∀ step ∈ steps (evaluate depth) texts m, step.1.Legal ∧ step.2.store.Legal := by
  induction texts generalizing m with
  | nil => exact List.forall_mem_nil _
  | cons text texts ih =>
      have first := legal_evalText depth text legal
      exact List.forall_mem_cons.mpr ⟨first, ih first.2⟩

/-- Whatever texts a session evaluates, and however they end: after every step, all values that the
step answered, the value that its failure shows, and all that any scope binds are made of integers
of the fixed width and of legal names, and so are the names that are bound. In particular no scope
binds `nil`. A sum is of the fixed width whatever it is a sum of. -/
theorem steps_legal (depth : Nat) (texts : List String) :
    (∀ step ∈ steps (evaluate depth) texts start,
      step.1.Legal ∧ step.2.store.Legal ∧ ∀ id, ¬ (step.2.store.bindings id).binds "nil") ∧
    ∀ args sum, Primitive.add.run args = .ok sum → ∃ n, sum = .int n ∧ InWord n := by
  constructor
  · intro step mem
    obtain ⟨results, store⟩ := legal_of_mem_steps depth legal_start step mem
    refine ⟨results, store, fun id bound => ?_⟩
    obtain ⟨value, found⟩ := Option.isSome_iff_exists.mp bound
    exact (store id _ (Bindings.mem_of_lookup found)).1.notNil rfl
  · intro args sum run
    cases Primitive.run_eq_iff.mp run with
    | sum => exact ⟨_, rfl, inWord_wrap _⟩

end Session

end PocketLisp
