import Mathlib.Data.List.Forall2
import Mathlib.Logic.Function.Iterate
import PocketLisp.Proofs.Value.Plain

/-!
# Equality of values

Equality is defined by the structure of values (`Value.Equals`), and `Value.equal` decides it. When
it runs it is a loop: two cursors move along the rests of two chains, and a call of its own compares
the firsts, while the rests wait. `Comparison.turn` is what it does at a time, without recursion,
and after a number of turns that depends on the first value alone it has the answer
(`Comparison.turn_iterate`). The two values are not treated alike on the way, but equality is
symmetric.

To ask two values whether they are the same comes to the same answer, whichever is asked first.
-/

namespace PocketLisp

namespace Value

/-- The value is a pair. -/
def IsPair (v : Value) : Prop := ∃ first rest, v = .pair first rest

/-- Two values are equal: atoms by what they are, pairs by their parts, procedures and closures by
their identities alone. Values of different kinds are not. -/
inductive Equals : Value → Value → Prop where
  | nil : Equals .nil .nil
  | int (n : Int) : Equals (.int n) (.int n)
  | symbol (name : String) : Equals (.symbol name) (.symbol name)
  | pair {first rest first' rest'} (firsts : Equals first first') (rests : Equals rest rest') :
      Equals (.pair first rest) (.pair first' rest')
  | procedure (id : Identity) {name operation name' operation'} :
      Equals (.procedure id name operation) (.procedure id name' operation')
  | closure (id : Identity) {params body r params' body' r'} :
      Equals (.closure id params body r) (.closure id params' body' r')

/-- Whether a value that is not a pair equals another one. -/
def equalAtom : Value → Value → Bool
  | nil, nil => true
  | int m, int n => m == n
  | symbol x, symbol y => x == y
  | procedure id _ _, procedure id' _ _ => id == id'
  | closure id _ _ _, closure id' _ _ _ => id == id'
  | _, _ => false

end Value

/-- A comparison that is under way, with the two cursors of the innermost call and the rests that
the calls around it go on with, or that has its answer. -/
inductive Comparison where
  | comparing (a b : Value) (waiting : List (Value × Value))
  | answered (equal : Bool)
  deriving DecidableEq

namespace Comparison

open Value

/-- The innermost call found its values equal: the one around it goes on with its rests. -/
def proceed : List (Value × Value) → Comparison
  | [] => answered true
  | (rest, rest') :: waiting => comparing rest rest' waiting

/-- What is done at a time. For two pairs a call is made to compare their firsts. -/
def turn : Comparison → Comparison
  | comparing (pair first rest) b waiting =>
    match b with
    | pair first' rest' => comparing first first' ((rest, rest') :: waiting)
    | _ => answered false
  | comparing a b waiting => if a.equalAtom b then proceed waiting else answered false
  | answered equal => answered equal

/-- An answer stays. -/
theorem turn_iterate_answered (n : Nat) (equal : Bool) :
    turn^[n] (answered equal) = answered equal :=
  Function.iterate_fixed rfl n

/-- The values of a call are compared at the latest after as many turns as the first one has pairs
and atoms. -/
theorem turn_iterate (a b : Value) (waiting : List (Value × Value)) :
    turn^[2 * a.pairs + 1] (comparing a b waiting) =
      if a.equal b then proceed waiting else answered false := by
  induction a generalizing b waiting with
  | pair first rest ihFirst ihRest =>
      have turns : 2 * (pair first rest).pairs + 1 =
          (2 * rest.pairs + 1) + (2 * first.pairs + 1) + 1 := by
        rw [pairs]
        omega
      rw [turns, Function.iterate_succ_apply, Function.iterate_add_apply]
      cases b with
      | pair first' rest' =>
          rw [turn, ihFirst, equal]
          cases first.equal first' with
          | true => exact ihRest rest' waiting
          | false => exact turn_iterate_answered _ false
      | _ =>
          exact (congrArg _ (turn_iterate_answered _ false)).trans (turn_iterate_answered _ false)
  -- An atom takes one turn.
  | _ => cases b <;> rfl

end Comparison

namespace Value

variable {a b c : Value}

theorem Equals.equal (h : a.Equals b) : a.equal b = true := by
  induction h with
  | pair _ _ ihFirst ihRest => exact Bool.and_eq_true_iff.mpr ⟨ihFirst, ihRest⟩
  | _ => simp [Value.equal]

theorem equals_of_equal (h : a.equal b = true) : a.Equals b := by
  induction a generalizing b with
  | nil =>
      cases b with
      | nil => exact .nil
      | _ => cases h
  | int n =>
      cases b with
      | int n' => exact eq_of_beq h ▸ .int n
      | _ => cases h
  | symbol name =>
      cases b with
      | symbol name' => exact eq_of_beq h ▸ .symbol name
      | _ => cases h
  | pair first rest ihFirst ihRest =>
      cases b with
      | pair first' rest' =>
          obtain ⟨firsts, rests⟩ := Bool.and_eq_true_iff.mp h
          exact .pair (ihFirst firsts) (ihRest rests)
      | _ => cases h
  | procedure id name operation =>
      cases b with
      | procedure id' name' operation' =>
          obtain rfl := eq_of_beq h
          exact .procedure id
      | _ => cases h
  | closure id params body r =>
      cases b with
      | closure id' params' body' r' =>
          obtain rfl := eq_of_beq h
          exact .closure id
      | _ => cases h

theorem equal_iff_equals : a.equal b = true ↔ a.Equals b :=
  ⟨equals_of_equal, Equals.equal⟩

theorem Equals.symm (h : a.Equals b) : b.Equals a := by
  induction h with
  | nil => exact .nil
  | int n => exact .int n
  | symbol name => exact .symbol name
  | pair _ _ ihFirst ihRest => exact .pair ihFirst ihRest
  | procedure id => exact .procedure id
  | closure id => exact .closure id

theorem Equals.trans (h : a.Equals b) (h' : b.Equals c) : a.Equals c := by
  induction h generalizing c with
  | nil | int | symbol => exact h'
  | pair _ _ ihFirst ihRest =>
      cases h' with
      | pair firsts rests => exact .pair (ihFirst firsts) (ihRest rests)
  | procedure id =>
      cases h' with
      | procedure => exact .procedure id
  | closure id =>
      cases h' with
      | closure => exact .closure id

theorem equal_comm (a b : Value) : a.equal b = b.equal a := by
  rw [Bool.eq_iff_iff, equal_iff_equals, equal_iff_equals]
  exact ⟨Equals.symm, Equals.symm⟩

theorem equal_equivalence : Equivalence fun a b : Value => a.equal b = true where
  refl := equal_refl
  symm {a b} h := equal_comm a b ▸ h
  trans h h' := ((equals_of_equal h).trans (equals_of_equal h')).equal

/-- Only a pair equals a pair. -/
theorem Equals.isPair (h : a.Equals b) (isPair : b.IsPair) : a.IsPair := by
  obtain ⟨first, rest, rfl⟩ := isPair
  cases h with
  | pair => exact ⟨_, _, rfl⟩

/-- Chains that end in atoms are equal if their items are, one by one, and their ends. -/
theorem equals_ofList_iff {t u : Value} (atom : ¬ t.IsPair) (atom' : ¬ u.IsPair)
    {xs ys : List Value} :
    (ofList xs t).Equals (ofList ys u) ↔ List.Forall₂ Equals xs ys ∧ t.Equals u := by
  induction xs generalizing ys with
  | nil =>
      cases ys with
      | nil => exact (and_iff_right .nil).symm
      | cons y ys => exact iff_of_false (fun h => atom (h.isPair ⟨_, _, rfl⟩)) (nomatch ·.1)
  | cons x xs ih =>
      cases ys with
      | nil => exact iff_of_false (fun h => atom' (h.symm.isPair ⟨_, _, rfl⟩)) (nomatch ·.1)
      | cons y ys =>
          rw [List.forall₂_cons, and_assoc, ← ih]
          constructor
          · intro h
            cases h with
            | pair firsts rests => exact ⟨firsts, rests⟩
          · rintro ⟨firsts, rests⟩
            exact .pair firsts rests

/-- It makes no difference whether the values are compared or asked. -/
theorem same_eq_equal (a b : Value) : a.same b = a.equal b := by
  have known (id id' : Identity) : ((if id == id' then some true else none).or
      (if id' == id then some true else none)).getD false = (id == id') := by
    by_cases same : id = id'
    · simp [same]
    · simp [same, Ne.symm same]
  cases a with
  | procedure id =>
      cases b with
      | procedure id' => exact known id id'
      | _ => rfl
  | closure id =>
      cases b with
      | closure id' => exact known id id'
      | _ => rfl
  | _ => cases b <;> rfl

/-- The comparison of two values ends, after as many turns as the first one has pairs and atoms, and
answers whether they are equal by their structure. Equality is an equivalence; chains are equal if
they have as many items, item by item equal, and equal ends; and to ask the values, whichever first,
gives the same answer. -/
theorem equal_structural :
    (∀ a b : Value, Comparison.turn^[2 * a.pairs + 1] (.comparing a b []) =
      .answered (a.equal b)) ∧
    (∀ a b : Value, a.equal b = true ↔ a.Equals b) ∧
    (Equivalence fun a b : Value => a.equal b = true) ∧
    (∀ (xs ys : List Value) (t u : Value), ¬ t.IsPair → ¬ u.IsPair →
      ((ofList xs t).equal (ofList ys u) = true ↔
        List.Forall₂ (fun x y => x.equal y = true) xs ys ∧ t.equal u = true)) ∧
    ∀ a b : Value, a.same b = a.equal b := by
  refine ⟨fun a b => ?_, fun a b => equal_iff_equals, equal_equivalence,
    fun xs ys t u atom atom' => ?_, same_eq_equal⟩
  · rw [Comparison.turn_iterate]
    cases a.equal b <;> rfl
  · simp only [equal_iff_equals]
    exact equals_ofList_iff atom atom'

end Value

end PocketLisp
