import Mathlib.Data.List.Forall2
import Mathlib.Logic.Relator
import Mathlib.Order.Basic
import PocketLisp.Eval.Error
import PocketLisp.Proofs.Value.Plain
import PocketLisp.Store.Basic

/-!
# Values that differ in numbers only

Scopes and identities are numbered in the order in which they are made. So two runs of a program
may number them differently, and then have different values that nobody can tell apart: those that
are put together alike, from scopes and identities that stand for each other. A `Pairing` says which
ones do. It grows when scopes and identities are made, and values stay alike then.

Values that are alike are the same when their numbers are forgotten (`Value.anonymous`), and so have
the same printed form.
-/

namespace PocketLisp

open Relator (BiUnique)

/-- Which scopes and identities of one store stand for which ones of another. -/
structure Pairing where
  scopes : ScopeId → ScopeId → Prop
  identities : Identity → Identity → Prop

namespace Pairing

/-- A pairing grows when more scopes and identities are paired. -/
instance : Preorder Pairing where
  le p q := (∀ a b, p.scopes a b → q.scopes a b) ∧ ∀ i j, p.identities i j → q.identities i j
  le_refl _ := ⟨fun _ _ h => h, fun _ _ h => h⟩
  le_trans _ _ _ h h' :=
    ⟨fun a b paired => h'.1 a b (h.1 a b paired), fun i j paired => h'.2 i j (h.2 i j paired)⟩

/-- Nothing is paired. -/
def empty : Pairing := ⟨fun _ _ => False, fun _ _ => False⟩

/-- Pairs two scopes more. -/
def addScope (p : Pairing) (a b : ScopeId) : Pairing :=
  { p with scopes := fun x y => p.scopes x y ∨ x = a ∧ y = b }

/-- Pairs two identities more. -/
def addIdentity (p : Pairing) (i j : Identity) : Pairing :=
  { p with identities := fun x y => p.identities x y ∨ x = i ∧ y = j }

theorem le_addScope (p : Pairing) (a b : ScopeId) : p ≤ p.addScope a b :=
  ⟨fun _ _ => .inl, fun _ _ => id⟩

theorem le_addIdentity (p : Pairing) (i j : Identity) : p ≤ p.addIdentity i j :=
  ⟨fun _ _ => id, fun _ _ => .inl⟩

theorem rel_scopes_mono {p q : Pairing} (le : p ≤ q) {outer? outer?' : Option ScopeId}
    (link : Option.Rel p.scopes outer? outer?') : Option.Rel q.scopes outer? outer?' := by
  cases link with
  | none => exact .none
  | some paired => exact .some (le.1 _ _ paired)

theorem addScope_self (p : Pairing) (a b : ScopeId) : (p.addScope a b).scopes a b :=
  .inr ⟨rfl, rfl⟩

theorem addIdentity_self (p : Pairing) (i j : Identity) : (p.addIdentity i j).identities i j :=
  .inr ⟨rfl, rfl⟩

/-- A pairing of numbers stays one to one when new numbers are paired. -/
theorem biUnique_add {paired : Nat → Nat → Prop} (unique : BiUnique paired) {a b : Nat}
    (new : ∀ x y, paired x y → x ≠ a ∧ y ≠ b) :
    BiUnique fun x y => paired x y ∨ x = a ∧ y = b := by
  constructor
  · rintro x x' y (h | ⟨same, last⟩) (h' | ⟨same', last'⟩)
    · exact unique.1 h h'
    · exact absurd last' (new _ _ h).2
    · exact absurd last (new _ _ h').2
    · exact same.trans same'.symm
  · rintro x y y' (h | ⟨first, same⟩) (h' | ⟨first', same'⟩)
    · exact unique.2 h h'
    · exact absurd first' (new _ _ h).1
    · exact absurd first (new _ _ h').1
    · exact same.trans same'.symm

end Pairing

/-- The values are put together alike, from scopes and identities that are paired. -/
inductive Value.Alike (p : Pairing) : Value → Value → Prop where
  | nil : Alike p .nil .nil
  | int (n : Int) : Alike p (.int n) (.int n)
  | symbol (name : String) : Alike p (.symbol name) (.symbol name)
  | pair {first rest first' rest'} (alikeFirst : Alike p first first')
      (alikeRest : Alike p rest rest') : Alike p (.pair first rest) (.pair first' rest')
  | procedure {i j} (name : String) (operation : Primitive) (paired : p.identities i j) :
      Alike p (.procedure i name operation) (.procedure j name operation)
  | closure {i j params params' body body' r r'} (paired : p.identities i j)
      (alikeParams : Alike p params params') (alikeBody : Alike p body body')
      (captured : p.scopes r r') : Alike p (.closure i params body r) (.closure j params' body' r')

/-- The errors have the same cause, and values that are alike. -/
inductive EvalError.Alike (p : Pairing) : EvalError → EvalError → Prop where
  | unbound (name : String) : Alike p (.unbound name) (.unbound name)
  | mismatch {v v'} (kind : Kind) (alike : v.Alike p v') :
      Alike p (.mismatch v kind) (.mismatch v' kind)
  | wrongCount (actual expected : Nat) :
      Alike p (.wrongCount actual expected) (.wrongCount actual expected)
  | tooFew (actual minimum : Nat) : Alike p (.tooFew actual minimum) (.tooFew actual minimum)
  | tooMany (actual maximum : Nat) : Alike p (.tooMany actual maximum) (.tooMany actual maximum)

namespace Value

variable {p q : Pairing} {v v' w w' : Value}

theorem Alike.mono (le : p ≤ q) (h : v.Alike p v') : v.Alike q v' := by
  induction h with
  | nil => exact .nil
  | int n => exact .int n
  | symbol name => exact .symbol name
  | pair _ _ ihFirst ihRest => exact .pair ihFirst ihRest
  | procedure name operation paired => exact .procedure name operation (le.2 _ _ paired)
  | closure paired _ _ captured ihParams ihBody =>
      exact .closure (le.2 _ _ paired) ihParams ihBody (le.1 _ _ captured)

theorem alike_list_mono (le : p ≤ q) {vs vs' : List Value} (h : List.Forall₂ (Alike p) vs vs') :
    List.Forall₂ (Alike q) vs vs' :=
  h.imp fun _ _ => Alike.mono le

/-- A plain value holds no numbers of scopes and identities. -/
theorem alike_of_plain (plain : v.Plain) : v.Alike p v := by
  induction v with
  | nil => exact .nil
  | int n => exact .int n
  | symbol name => exact .symbol name
  | pair first rest ihFirst ihRest => exact .pair (ihFirst plain.1) (ihRest plain.2)
  | procedure | closure => exact plain.elim

/-- Where identities are paired one to one, values that are alike equal the same values. -/
theorem Alike.equal (unique : BiUnique p.identities) (h : v.Alike p v') (h' : w.Alike p w') :
    v.equal w = v'.equal w' := by
  have identity {i j i' j' : Identity} (paired : p.identities i j) (paired' : p.identities i' j') :
      (i == i') = (j == j') := by
    rw [Bool.eq_iff_iff, beq_iff_eq, beq_iff_eq]
    exact Relator.rel_eq unique paired paired'
  induction h generalizing w w' with
  | nil | int | symbol => cases h' <;> rfl
  | pair _ _ ihFirst ihRest =>
      cases h' with
      | pair first rest => simp only [Value.equal, ihFirst first, ihRest rest]
      | _ => rfl
  | procedure name operation paired =>
      cases h' with
      | procedure _ _ paired' => exact identity paired paired'
      | _ => rfl
  | closure paired _ _ _ _ _ =>
      cases h' with
      | closure paired' _ _ _ => exact identity paired paired'
      | _ => rfl

section Anonymous

/-- The value without the numbers of its scopes and identities. -/
def anonymous : Value → Value
  | pair first rest => pair first.anonymous rest.anonymous
  | procedure _ name operation => procedure 0 name operation
  | closure _ params body _ => closure 0 params.anonymous body.anonymous 0
  | v => v

theorem Alike.anonymous_eq (h : v.Alike p v') : v.anonymous = v'.anonymous := by
  induction h with
  | nil | int | symbol | procedure => rfl
  | pair _ _ ihFirst ihRest => simp only [anonymous, ihFirst, ihRest]
  | closure _ _ _ _ ihParams ihBody => simp only [anonymous, ihParams, ihBody]

theorem write_anonymous (v : Value) (place : Place) (out : String) :
    v.anonymous.write place out = v.write place out := by
  induction v generalizing place out with
  | nil | int | symbol | procedure => rfl
  | pair first rest ihFirst ihRest =>
      cases place <;> simp only [anonymous, write, ihFirst, ihRest]
  | closure _ params body _ ihParams ihBody => simp only [anonymous, write, ihParams, ihBody]

/-- The printed form shows no numbers of scopes and identities. -/
@[simp] theorem print_anonymous (v : Value) : v.anonymous.print = v.print :=
  write_anonymous v .alone ""

end Anonymous

end Value

namespace EvalError

theorem Alike.mono {p q : Pairing} {e e' : EvalError} (le : p ≤ q) (h : e.Alike p e') :
    e.Alike q e' := by
  cases h with
  | unbound name => exact .unbound name
  | mismatch kind alike => exact .mismatch kind (alike.mono le)
  | wrongCount actual expected => exact .wrongCount actual expected
  | tooFew actual minimum => exact .tooFew actual minimum
  | tooMany actual maximum => exact .tooMany actual maximum

/-- The error without the numbers of the scopes and identities in its value. -/
def anonymous : EvalError → EvalError
  | mismatch value expected => mismatch value.anonymous expected
  | e => e

theorem Alike.anonymous_eq {p : Pairing} {e e' : EvalError} (h : e.Alike p e') :
    e.anonymous = e'.anonymous := by
  cases h with
  | mismatch kind alike => rw [anonymous, anonymous, alike.anonymous_eq]
  | _ => rfl

@[simp] theorem message_anonymous (e : EvalError) : e.anonymous.message = e.message := by
  cases e with
  | mismatch value expected =>
      change "The value " ++ value.anonymous.print ++ " is not of type " ++ expected.name = _
      rw [Value.print_anonymous]
      rfl
  | _ => rfl

end EvalError

end PocketLisp
