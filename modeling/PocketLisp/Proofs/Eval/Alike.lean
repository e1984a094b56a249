import PocketLisp.Proofs.Eval.Congruence
import PocketLisp.Proofs.Value.Alike

/-!
# Operations and checks see no numbers

What a primitive operation answers to values, which form a special form takes its arguments for, and
which scope a call makes, do not depend on how scopes and identities are numbered: for values that
are alike the results are alike. Equality compares identities, but only with each other, so it is
enough that they are paired one to one.
-/

namespace PocketLisp

open Relator (BiUnique)

/-- Both answers are results that are related, or both are errors that are alike. -/
inductive AlikeAnswers {α : Type} (related : Pairing → α → α → Prop) (p : Pairing) :
    Except EvalError α → Except EvalError α → Prop where
  | ok {a a' : α} (alike : related p a a') : AlikeAnswers related p (.ok a) (.ok a')
  | error {e e' : EvalError} (alike : e.Alike p e') :
      AlikeAnswers related p (.error e) (.error e')

/-- The same names are bound in the same order to values that are alike. -/
def Bindings.Alike (p : Pairing) (bindings bindings' : Bindings) : Prop :=
  List.Forall₂ (fun binding binding' => binding.1 = binding'.1 ∧ binding.2.Alike p binding'.2)
    bindings bindings'

/-- The scopes bind the same names to values that are alike, and lie in scopes that are paired. -/
structure Scope.Alike (p : Pairing) (scope scope' : Scope) : Prop where
  bindings : scope.bindings.Alike p scope'.bindings
  outer : Option.Rel p.scopes scope.outer scope'.outer

/-- The forms are put together alike. -/
inductive Form.Alike (p : Pairing) : Form → Form → Prop where
  | quote {datum datum'} (alike : datum.Alike p datum') : Alike p (.quote datum) (.quote datum')
  | branch {test yes no test' yes' no'} (alikeTest : test.Alike p test')
      (alikeYes : yes.Alike p yes') (alikeNo : Option.Rel (Value.Alike p) no no') :
      Alike p (.branch test yes no) (.branch test' yes' no')
  | define {form form'} (name : String) (alike : form.Alike p form') :
      Alike p (.define name form) (.define name form')
  | assign {form form'} (name : String) (alike : form.Alike p form') :
      Alike p (.assign name form) (.assign name form')
  | lambda {body body'} (params : List String) (alike : List.Forall₂ (Value.Alike p) body body') :
      Alike p (.lambda params body) (.lambda params body')

namespace Value

variable {p : Pairing}

/-- To be alike is a congruence, however scopes and identities are paired. -/
theorem congruence_alike (p : Pairing) : Congruence (Alike p) where
  nil := .nil
  int := .int
  symbol := .symbol
  pair := .pair
  similar h := by
    cases h with
    | nil => exact .nil
    | int n => exact .int n
    | symbol name => exact .symbol name
    | pair first rest => exact .pair first rest
    | procedure name operation => exact .procedure operation
    | closure => exact .closure

theorem Alike.isTrue {v v' : Value} (h : v.Alike p v') : v.isTrue = v'.isTrue :=
  (congruence_alike p).isTrue h

theorem Alike.elements {v v' : Value} (h : v.Alike p v') :
    List.Forall₂ (Alike p) v.elements v'.elements :=
  (congruence_alike p).elements h

theorem alike_ofList {vs vs' : List Value} (h : List.Forall₂ (Alike p) vs vs') :
    (ofList vs).Alike p (ofList vs') :=
  (congruence_alike p).ofList h

end Value

theorem EvalError.Related.alike {p : Pairing} {e e' : EvalError}
    (h : e.Related (Value.Alike p) e') : e.Alike p e' := by
  cases h with
  | unbound name => exact .unbound name
  | mismatch kind related => exact .mismatch kind related
  | wrongCount actual expected => exact .wrongCount actual expected
  | tooFew actual minimum => exact .tooFew actual minimum
  | tooMany actual maximum => exact .tooMany actual maximum

theorem RelatedAnswers.alike {α : Type} {p : Pairing} {related : α → α → Prop}
    {related' : Pairing → α → α → Prop} {answer answer' : Except EvalError α}
    (h : RelatedAnswers (Value.Alike p) related answer answer')
    (alike : ∀ a a', related a a' → related' p a a') : AlikeAnswers related' p answer answer' := by
  cases h with
  | ok results => exact .ok (alike _ _ results)
  | error errors => exact .error errors.alike

section Bindings

variable {p q : Pairing} {bindings bindings' : Bindings}

theorem Bindings.Alike.mono (le : p ≤ q) (h : bindings.Alike p bindings') :
    bindings.Alike q bindings' :=
  h.imp fun _ _ ⟨same, alike⟩ => ⟨same, alike.mono le⟩

theorem Scope.Alike.mono {scope scope' : Scope} (le : p ≤ q) (h : scope.Alike p scope') :
    scope.Alike q scope' :=
  ⟨h.bindings.mono le, Pairing.rel_scopes_mono le h.outer⟩

theorem Bindings.Alike.lookup (h : bindings.Alike p bindings') (name : String) :
    Option.Rel (Value.Alike p) (bindings.lookup name) (bindings'.lookup name) :=
  Related.lookup h name

theorem Bindings.Alike.binds (h : bindings.Alike p bindings') (name : String) :
    bindings.binds name = bindings'.binds name :=
  Related.binds h name

theorem Bindings.Alike.define (h : bindings.Alike p bindings') (name : String) {v v' : Value}
    (alike : v.Alike p v') : (bindings.define name v).Alike p (bindings'.define name v') :=
  Related.define h name alike

end Bindings

section SpecialForms

variable {p : Pairing} {special : SpecialForm} {args args' : List Value}

theorem Value.Alike.isList_iff {v v' : Value} (h : v.Alike p v') : v.IsList ↔ v'.IsList := by
  cases h <;> simp [Value.IsList, Value.IsPair]

/-- What a special form accepts it accepts from arguments that are alike, as the same form. -/
theorem alike_of_accepts {form : Form} (accepts : special.Accepts args form)
    (h : List.Forall₂ (Value.Alike p) args args') :
    ∃ form', special.Accepts args' form' ∧ form.Alike p form' := by
  cases accepts with
  | quote =>
      obtain _ | ⟨datum, ⟨⟩⟩ := h
      exact ⟨_, .quote, .quote datum⟩
  | branch =>
      obtain _ | ⟨test, _ | ⟨yes, ⟨⟩⟩⟩ := h
      exact ⟨_, .branch, .branch test yes .none⟩
  | branchElse =>
      obtain _ | ⟨test, _ | ⟨yes, _ | ⟨no, ⟨⟩⟩⟩⟩ := h
      exact ⟨_, .branchElse, .branch test yes (.some no)⟩
  | define =>
      obtain _ | ⟨⟨_⟩, _ | ⟨form, ⟨⟩⟩⟩ := h
      exact ⟨_, .define, .define _ form⟩
  | assign =>
      obtain _ | ⟨⟨_⟩, _ | ⟨form, ⟨⟩⟩⟩ := h
      exact ⟨_, .assign, .assign _ form⟩
  | lambda list symbols =>
      obtain _ | ⟨params, body⟩ := h
      have symbols' := (Value.congruence_alike p).eq_of_symbols (symbols ▸ params.elements)
      exact ⟨_, .lambda (params.isList_iff.mp list) symbols', .lambda _ body⟩

/-- What a special form refuses it refuses for the same cause from arguments that are alike. -/
theorem alike_of_refuses {e : EvalError} (refuses : special.Refuses args e)
    (h : List.Forall₂ (Value.Alike p) args args') :
    ∃ e', special.Refuses args' e' ∧ e.Alike p e' := by
  have count := h.length_eq
  cases refuses with
  | quoteCount wrong =>
      rw [count] at wrong ⊢
      exact ⟨_, .quoteCount wrong, .wrongCount _ _⟩
  | branchFew few =>
      rw [count] at few ⊢
      exact ⟨_, .branchFew few, .tooFew _ _⟩
  | branchMany many =>
      rw [count] at many ⊢
      exact ⟨_, .branchMany many, .tooMany _ _⟩
  | defineCount wrong =>
      rw [count] at wrong ⊢
      exact ⟨_, .defineCount wrong, .wrongCount _ _⟩
  | assignCount wrong =>
      rw [count] at wrong ⊢
      exact ⟨_, .assignCount wrong, .wrongCount _ _⟩
  | defineName other =>
      obtain _ | ⟨target, _ | ⟨form, ⟨⟩⟩⟩ := h
      have symbol_iff := (Value.congruence_alike p).isSymbol_iff target
      exact ⟨_, .defineName fun symbol => other (symbol_iff.mpr symbol), .mismatch _ target⟩
  | assignName other =>
      obtain _ | ⟨target, _ | ⟨form, ⟨⟩⟩⟩ := h
      have symbol_iff := (Value.congruence_alike p).isSymbol_iff target
      exact ⟨_, .assignName fun symbol => other (symbol_iff.mpr symbol), .mismatch _ target⟩
  | lambdaCount =>
      cases h
      exact ⟨_, .lambdaCount, .tooFew _ _⟩
  | lambdaList other =>
      obtain _ | ⟨params, body⟩ := h
      exact ⟨_, .lambdaList fun list => other (params.isList_iff.mpr list), .mismatch _ params⟩
  | lambdaName list first =>
      obtain _ | ⟨params, body⟩ := h
      obtain ⟨v', alike, first'⟩ := (Value.congruence_alike p).first params.elements first
      exact ⟨_, .lambdaName (params.isList_iff.mp list) first', .mismatch _ alike⟩

theorem alike_shape (special : SpecialForm) (h : List.Forall₂ (Value.Alike p) args args') :
    AlikeAnswers Form.Alike p (special.shape args) (special.shape args') := by
  obtain ⟨form, accepts⟩ | ⟨e, refuses⟩ := special.accepts_or_refuses args
  · obtain ⟨form', accepts', alike⟩ := alike_of_accepts accepts h
    rw [SpecialForm.shape_of_accepts accepts, SpecialForm.shape_of_accepts accepts']
    exact .ok alike
  · obtain ⟨e', refuses', alike⟩ := alike_of_refuses refuses h
    rw [SpecialForm.shape_of_refuses refuses, SpecialForm.shape_of_refuses refuses']
    exact .error alike

end SpecialForms

section Operations

variable {p : Pairing} {args args' : List Value}

/-- An operation answers alike to values that are alike. -/
theorem alike_run (unique : BiUnique p.identities) (operation : Primitive)
    (h : List.Forall₂ (Value.Alike p) args args') :
    AlikeAnswers Value.Alike p (operation.run args) (operation.run args') :=
  ((Value.congruence_alike p).run (fun alike alike' => alike.equal unique alike')
    operation h).alike fun _ _ => id

/-- A call of parameters and arguments that are alike makes scopes that are alike, or fails for the
same cause. -/
theorem alike_callScope {params params' : List Value} {r r' : ScopeId}
    (alike : List.Forall₂ (Value.Alike p) params params') (captured : p.scopes r r')
    (h : List.Forall₂ (Value.Alike p) args args') :
    AlikeAnswers Scope.Alike p (callScope params r args) (callScope params' r' args') := by
  refine ((Value.congruence_alike p).callScope alike h r r').alike ?_
  rintro scope scope' ⟨bindings, outer, outer'⟩
  exact ⟨bindings, by rw [outer, outer']; exact .some captured⟩

end Operations

end PocketLisp
