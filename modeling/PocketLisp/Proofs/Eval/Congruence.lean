import Mathlib.Data.List.Forall2
import PocketLisp.Proofs.Eval.Step

/-!
# Operations on related values

A relation of values is a congruence if related values are of the same kind and related pairs have
related parts, and conversely. This is all that the operations, the calls and the bindings need to
know of two values: what they make of related values is related again, or they fail for the same
cause. Only equality looks into functions, so it is asked for apart.
-/

namespace PocketLisp

/-- The values are of the same kind, and pairs have related parts. Of functions it is said what they
perform, but not how they are told apart. -/
inductive Value.Similar (R : Value → Value → Prop) : Value → Value → Prop where
  | nil : Similar R .nil .nil
  | int (n : Int) : Similar R (.int n) (.int n)
  | symbol (name : String) : Similar R (.symbol name) (.symbol name)
  | pair {first rest first' rest'} (firsts : R first first') (rests : R rest rest') :
      Similar R (.pair first rest) (.pair first' rest')
  | procedure (operation : Primitive) {id name id' name'} :
      Similar R (.procedure id name operation) (.procedure id' name' operation)
  | closure {id params body r id' params' body' r'} :
      Similar R (.closure id params body r) (.closure id' params' body' r')

/-- A relation of values that goes through pairs and leaves all other data as they are. -/
structure Congruence (R : Value → Value → Prop) : Prop where
  nil : R .nil .nil
  int (n : Int) : R (.int n) (.int n)
  symbol (name : String) : R (.symbol name) (.symbol name)
  pair {first rest first' rest' : Value} :
    R first first' → R rest rest' → R (.pair first rest) (.pair first' rest')
  similar {v v' : Value} : R v v' → v.Similar R v'

/-- The errors have the same cause, and values that are related. -/
inductive EvalError.Related (R : Value → Value → Prop) : EvalError → EvalError → Prop where
  | unbound (name : String) : Related R (.unbound name) (.unbound name)
  | mismatch {v v'} (kind : Kind) (related : R v v') :
      Related R (.mismatch v kind) (.mismatch v' kind)
  | wrongCount (actual expected : Nat) :
      Related R (.wrongCount actual expected) (.wrongCount actual expected)
  | tooFew (actual minimum : Nat) : Related R (.tooFew actual minimum) (.tooFew actual minimum)
  | tooMany (actual maximum : Nat) :
      Related R (.tooMany actual maximum) (.tooMany actual maximum)

/-- Both answers are results that are related, or both are errors that are. -/
inductive RelatedAnswers {α : Type} (R : Value → Value → Prop) (related : α → α → Prop) :
    Except EvalError α → Except EvalError α → Prop where
  | ok {a a' : α} (results : related a a') : RelatedAnswers R related (.ok a) (.ok a')
  | error {e e' : EvalError} (errors : e.Related R e') :
      RelatedAnswers R related (.error e) (.error e')

/-- The same names are bound in the same order to related values. -/
def Bindings.Related (R : Value → Value → Prop) (bindings bindings' : Bindings) : Prop :=
  List.Forall₂ (fun binding binding' => binding.1 = binding'.1 ∧ R binding.2 binding'.2)
    bindings bindings'

section Bindings

variable {R : Value → Value → Prop} {bindings bindings' : Bindings}

theorem Bindings.Related.lookup (h : bindings.Related R bindings') (name : String) :
    Option.Rel R (bindings.lookup name) (bindings'.lookup name) := by
  induction h with
  | nil => exact .none
  | @cons binding binding' _ _ first _ ih =>
      obtain ⟨key, value⟩ := binding
      obtain ⟨key', value'⟩ := binding'
      obtain ⟨rfl, related⟩ := first
      simp only [Bindings.lookup_binding]
      split
      · exact .some related
      · exact ih

theorem Bindings.Related.binds (h : bindings.Related R bindings') (name : String) :
    bindings.binds name = bindings'.binds name := by
  have found := h.lookup name
  unfold Bindings.binds
  generalize bindings.lookup name = value? at found
  generalize bindings'.lookup name = value?' at found
  cases found <;> rfl

theorem Bindings.Related.define (h : bindings.Related R bindings') (name : String) {v v' : Value}
    (related : R v v') : (bindings.define name v).Related R (bindings'.define name v') := by
  induction h with
  | nil => exact .cons ⟨rfl, related⟩ .nil
  | @cons binding binding' _ _ first rest ih =>
      obtain ⟨key, value⟩ := binding
      obtain ⟨key', value'⟩ := binding'
      obtain ⟨rfl, relatedOld⟩ := first
      simp only [Bindings.define]
      split
      · exact .cons ⟨rfl, related⟩ rest
      · exact .cons ⟨rfl, relatedOld⟩ ih

theorem related_bindNames (names : List String) {args args' : List Value}
    (h : List.Forall₂ R args args') :
    (bindNames names args).Related R (bindNames names args') := by
  have folded {start start' : Bindings} (related : start.Related R start') :
      Bindings.Related R
        ((names.zip args).foldl (fun bindings pair => bindings.define pair.1 pair.2) start)
        ((names.zip args').foldl (fun bindings pair => bindings.define pair.1 pair.2) start') := by
    induction names generalizing args args' start start' with
    | nil => exact related
    | cons name names ih =>
        cases h with
        | nil => exact related
        | cons first rest => exact ih rest (related.define name first)
  exact folded .nil

end Bindings

namespace Congruence

variable {R : Value → Value → Prop} (congruence : Congruence R)
include congruence

theorem isTrue {v v' : Value} (h : R v v') : v.isTrue = v'.isTrue := by
  cases congruence.similar h <;> rfl

theorem isSymbol_iff {v v' : Value} (h : R v v') : v.IsSymbol ↔ v'.IsSymbol := by
  cases congruence.similar h <;> simp [Value.IsSymbol]

theorem ofBool (b : Bool) : R (Value.ofBool b) (Value.ofBool b) := by
  cases b with
  | true => exact congruence.symbol "t"
  | false => exact congruence.nil

theorem elements {v v' : Value} (h : R v v') : List.Forall₂ R v.elements v'.elements := by
  induction v generalizing v' with
  | pair first rest _ ihRest =>
      cases congruence.similar h with
      | pair firsts rests => exact .cons firsts (ihRest rests)
  | _ =>
      cases congruence.similar h
      exact .nil

theorem ofList {vs vs' : List Value} (h : List.Forall₂ R vs vs') :
    R (Value.ofList vs) (Value.ofList vs') := by
  induction h with
  | nil => exact congruence.nil
  | cons first _ ih => exact congruence.pair first ih

theorem symbols (names : List String) :
    R (Value.ofList (names.map .symbol)) (Value.ofList (names.map .symbol)) := by
  refine congruence.ofList (List.forall₂_same.mpr fun param mem => ?_)
  obtain ⟨name, -, rfl⟩ := List.mem_map.mp mem
  exact congruence.symbol name

/-- A list that is related to one of symbols is the same list. -/
theorem eq_of_symbols {names : List String} {values : List Value}
    (h : List.Forall₂ R (names.map .symbol) values) : values = names.map .symbol := by
  induction names generalizing values with
  | nil => cases h; rfl
  | cons name names ih =>
      obtain _ | ⟨first, rest⟩ := h
      cases congruence.similar first
      rw [ih rest, List.map_cons]

/-- The first values that are no symbols are related. -/
theorem first {values values' : List Value} {v : Value} (h : List.Forall₂ R values values')
    (first : FirstNonSymbol values v) : ∃ v', R v v' ∧ FirstNonSymbol values' v' := by
  obtain ⟨names, rest, rfl, other⟩ := first
  induction names generalizing values' with
  | nil =>
      obtain _ | ⟨related, others⟩ := h
      refine ⟨_, related, [], _, rfl, fun symbol => ?_⟩
      exact other ((congruence.isSymbol_iff related).mpr symbol)
  | cons name names ih =>
      obtain _ | ⟨same, others⟩ := h
      cases congruence.similar same
      obtain ⟨v', related, names', rest', rfl, other'⟩ := ih others
      exact ⟨v', related, name :: names', rest', rfl, other'⟩

section Operations

variable {args args' : List Value}

theorem addTo (sum : Int) (h : List.Forall₂ R args args') :
    RelatedAnswers R R (Primitive.addTo sum args) (Primitive.addTo sum args') := by
  induction h generalizing sum with
  | nil => exact .ok (congruence.int sum)
  | cons related _ ih =>
      cases congruence.similar related with
      | int n => exact ih _
      | _ => exact .error (.mismatch .number related)

/-- An operation answers to related values with related ones. -/
theorem run (equal : ∀ {v v' w w' : Value}, R v v' → R w w' → v.equal w = v'.equal w')
    (operation : Primitive) (h : List.Forall₂ R args args') :
    RelatedAnswers R R (operation.run args) (operation.run args') := by
  have wrong {n : Nat} (count : args.length ≠ n)
      (run : ∀ args : List Value, args.length ≠ n →
        operation.Performs args (.error (.wrongCount args.length n))) :
      RelatedAnswers R R (operation.run args) (operation.run args') := by
    rw [Primitive.run_of_performs (run args count),
      Primitive.run_of_performs (run args' (h.length_eq ▸ count)), h.length_eq]
    exact .error (.wrongCount _ _)
  cases operation with
  | add => exact congruence.addTo 0 h
  | isAtom =>
      by_cases count : args.length = 1
      · obtain ⟨v, rfl⟩ := List.length_eq_one_iff.mp count
        obtain _ | ⟨related, ⟨⟩⟩ := h
        cases congruence.similar related with
        | pair => exact .ok congruence.nil
        | _ => exact .ok (congruence.symbol "t")
      · exact wrong count fun _ => .isAtomCount
  | car =>
      by_cases count : args.length = 1
      · obtain ⟨v, rfl⟩ := List.length_eq_one_iff.mp count
        obtain _ | ⟨related, ⟨⟩⟩ := h
        cases congruence.similar related with
        | pair firsts _ => exact .ok firsts
        | _ => exact .error (.mismatch .cons related)
      · exact wrong count fun _ => .carCount
  | cdr =>
      by_cases count : args.length = 1
      · obtain ⟨v, rfl⟩ := List.length_eq_one_iff.mp count
        obtain _ | ⟨related, ⟨⟩⟩ := h
        cases congruence.similar related with
        | pair _ rests => exact .ok rests
        | _ => exact .error (.mismatch .cons related)
      · exact wrong count fun _ => .cdrCount
  | cons =>
      by_cases count : args.length = 2
      · obtain ⟨first, rest, rfl⟩ := List.length_eq_two.mp count
        obtain _ | ⟨firsts, _ | ⟨rests, ⟨⟩⟩⟩ := h
        exact .ok (congruence.pair firsts rests)
      · exact wrong count fun _ => .consCount
  | equal =>
      by_cases count : args.length = 2
      · obtain ⟨a, b, rfl⟩ := List.length_eq_two.mp count
        obtain _ | ⟨related, _ | ⟨related', ⟨⟩⟩⟩ := h
        change RelatedAnswers R R (.ok (.ofBool (a.equal b))) (.ok (.ofBool (Value.equal _ _)))
        rw [equal related related']
        exact .ok (congruence.ofBool _)
      · exact wrong count fun _ => .equalCount

/-- A call with related parameters and arguments makes scopes with related bindings, or fails for
the same cause. -/
theorem callScope {params params' : List Value} (related : List.Forall₂ R params params')
    (h : List.Forall₂ R args args') (r r' : ScopeId) :
    RelatedAnswers R
      (fun scope scope' => scope.bindings.Related R scope'.bindings ∧
        scope.outer = some r ∧ scope'.outer = some r')
      (callScope params r args) (callScope params' r' args') := by
  by_cases count : args.length = params.length
  · have count' : args'.length = params'.length := by
      rw [← h.length_eq, count, related.length_eq]
    obtain ⟨names, rfl⟩ | ⟨param, firstOther⟩ := symbols_or_first params
    · obtain rfl := congruence.eq_of_symbols related
      rw [List.length_map] at count count'
      rw [callScope_symbols rfl count, callScope_symbols rfl count']
      exact .ok ⟨related_bindNames names h, rfl, rfl⟩
    · obtain ⟨param', relatedParam, firstOther'⟩ := congruence.first related firstOther
      rw [callScope_name count firstOther, callScope_name count' firstOther']
      exact .error (.mismatch .symbol relatedParam)
  · have count' : args'.length ≠ params'.length := by rwa [← h.length_eq, ← related.length_eq]
    rw [callScope_count count, callScope_count count', h.length_eq, related.length_eq]
    exact .error (.wrongCount _ _)

end Operations

end Congruence

end PocketLisp
