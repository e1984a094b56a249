/-!
# Values

Code and data are the same values: the empty list, integers, symbols, pairs, procedures and
closures. Lists are chains of pairs; a chain may end in the empty list or in any other value, its
tail. Procedures and closures carry an identity, which is all that tells two of them apart.

`Value.ofList` builds a chain, and `Value.elements` and `Value.tail` take it apart again.
-/

namespace PocketLisp

/-- A scope, named by its place in the store that holds it. -/
abbrev ScopeId := Nat

/-- What tells one procedure or closure from another. -/
abbrev Identity := Nat

/-- The operations that procedures perform. -/
inductive Primitive where
  | add
  | isAtom
  | cons
  | car
  | cdr
  | equal
  deriving Repr, DecidableEq, Inhabited

/-- A value. The parameters and the body of a closure are chains of forms, kept unevaluated together
with the scope in which the closure was made. -/
inductive Value where
  | nil
  | int (n : Int)
  | symbol (name : String)
  | pair (first rest : Value)
  | procedure (id : Identity) (name : String) (operation : Primitive)
  | closure (id : Identity) (params body : Value) (scope : ScopeId)
  deriving Repr, DecidableEq, Inhabited

namespace Value

/-- The chain of the given items that ends in `tail`. -/
def ofList (items : List Value) (tail : Value := nil) : Value :=
  items.foldr pair tail

@[simp] theorem ofList_nil (tail : Value) : ofList [] tail = tail := rfl

@[simp] theorem ofList_cons (item : Value) (items : List Value) (tail : Value) :
    ofList (item :: items) tail = pair item (ofList items tail) := rfl

/-- The items of a chain. A value that is not a pair has none, and what ends the chain is not one
of them. -/
def elements : Value → List Value
  | pair first rest => first :: rest.elements
  | _ => []

@[simp] theorem elements_pair (first rest : Value) :
    (pair first rest).elements = first :: rest.elements := rfl

@[simp] theorem elements_nil : nil.elements = [] := rfl

/-- The value that ends a chain: the value itself unless it is a pair. -/
def tail : Value → Value
  | pair _ rest => rest.tail
  | v => v

@[simp] theorem tail_pair (first rest : Value) : (pair first rest).tail = rest.tail := rfl

@[simp] theorem tail_nil : nil.tail = nil := rfl

/-- Every value is the chain of its elements and its tail. -/
@[simp] theorem ofList_elements_tail (v : Value) : ofList v.elements v.tail = v := by
  induction v with
  | pair _ rest _ ih => simp [ih]
  | _ => rfl

@[simp] theorem elements_ofList (items : List Value) (tail : Value) :
    (ofList items tail).elements = items ++ tail.elements := by
  induction items with
  | nil => rfl
  | cons item items ih => simp [ih]

@[simp] theorem tail_ofList (items : List Value) (tail : Value) :
    (ofList items tail).tail = tail.tail := by
  induction items with
  | nil => rfl
  | cons item items ih => simp [ih]

/-- The elements of a chain, followed by its tail unless that is the empty list. A value other than
the empty list and a pair stands for itself alone. -/
def contents (v : Value) : List Value :=
  match v.tail with
  | nil => v.elements
  | last => v.elements ++ [last]

/-- Whether the value is an integer. -/
def isInt : Value → Bool
  | int _ => true
  | _ => false

/-- Whether the value counts as true: all but the empty list do. -/
def isTrue : Value → Bool
  | nil => false
  | _ => true

/-- The value that predicates answer. -/
def ofBool : Bool → Value
  | true => symbol "t"
  | false => nil

@[simp] theorem isTrue_ofBool (b : Bool) : (ofBool b).isTrue = b := by
  cases b <;> rfl

/-- The value that a name spelled in a text stands for. The spelling of the empty list is never a
symbol. -/
def ofName (name : String) : Value :=
  if name = "nil" then nil else symbol name

/-- The form that evaluates to `v` itself. -/
def quote (v : Value) : Value :=
  ofList [symbol "quote", v]

end Value

/-- How many integers of the fixed width there are: the 64th power of two. -/
def wordCount : Nat := 18446744073709551616

/-- The least integer of the fixed width. -/
def minInt : Int := -9223372036854775808

/-- The greatest integer of the fixed width. -/
def maxInt : Int := 9223372036854775807

/-- The integer of the fixed width that is congruent to `n`. -/
def wrap (n : Int) : Int :=
  n.bmod wordCount

/-- Whether an integer is of the fixed width. -/
def InWord (n : Int) : Prop :=
  minInt ≤ n ∧ n ≤ maxInt

instance (n : Int) : Decidable (InWord n) :=
  inferInstanceAs (Decidable (_ ∧ _))

theorem inWord_wrap (n : Int) : InWord (wrap n) := by
  have low := Int.le_bmod (x := n) (m := wordCount) (by decide)
  have high := Int.bmod_lt (x := n) (m := wordCount) (by decide)
  simp only [InWord, wrap, minInt, maxInt, wordCount] at *
  omega

theorem wrap_of_inWord {n : Int} (h : InWord n) : wrap n = n := by
  simp only [InWord, minInt, maxInt] at h
  simp only [wrap, wordCount]
  exact Int.bmod_eq_of_le (by omega) (by omega)

end PocketLisp
