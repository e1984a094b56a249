import PocketLisp.Value.Basic

/-!
# Structural equality

Integers and symbols are equal by value and pairs element by element; the empty list equals only
itself. Procedures and closures are equal by identity, whatever they do.

`equal` compares two values itself. `same` asks them: each kind of value knows of some others
whether they are the same as itself.

`distinctBy` keeps the first of each class of equal values.
-/

namespace PocketLisp

namespace Value

/-- Whether two values are equal. The firsts of two pairs are compared before the rests, and
comparing the rests is the last step, so that long chains take no stack. -/
def equal : Value → Value → Bool
  | nil, nil => true
  | int m, int n => m == n
  | symbol x, symbol y => x == y
  | pair first rest, pair first' rest' => first.equal first' && rest.equal rest'
  | procedure id _ _, procedure id' _ _ => id == id'
  | closure id _ _ _, closure id' _ _ _ => id == id'
  | _, _ => false

@[simp] theorem equal_refl (v : Value) : v.equal v = true := by
  induction v <;> simp_all [equal]

/-- What a value answers when it is asked whether another one is the same as itself, if it can tell.
The empty list and pairs can tell of all values, integers and symbols of those of their own kind;
procedures and closures know only themselves. -/
def same? : Value → Value → Option Bool
  | nil, nil => some true
  | nil, _ => some false
  | pair first rest, other => some ((pair first rest).equal other)
  | int m, int n => some (m == n)
  | symbol x, symbol y => some (x == y)
  | procedure id _ _, procedure id' _ _ => if id == id' then some true else none
  | closure id _ _ _, closure id' _ _ _ => if id == id' then some true else none
  | _, _ => none

/-- Whether two values are the same. The second is asked if the first cannot tell; if neither can,
they are different. -/
def same (a b : Value) : Bool :=
  ((a.same? b).or (b.same? a)).getD false

end Value

/-- The first member of each class of equivalent items, in order. -/
def distinctBy (same : α → α → Bool) (items : List α) : List α :=
  (items.foldl
    (fun kept item => if kept.any (same · item) then kept else item :: kept) []).reverse

end PocketLisp
