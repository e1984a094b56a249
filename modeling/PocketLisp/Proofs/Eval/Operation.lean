import Mathlib.Algebra.Ring.Int.Defs
import PocketLisp.Eval.Primitive
import PocketLisp.Proofs.Value.Equal

/-!
# What the operations answer

`Primitive.Performs` lists the answers of each operation, errors included, and
`Primitive.run_eq_iff` says that performing an operation gives exactly these. The sum is said
at once: the integer of the fixed width that is congruent to the sum of all arguments. That it is
found by wrapping after each argument is the content of `Primitive.addTo_wrap`.
-/

namespace PocketLisp

/-- The value is an integer. -/
def Value.IsInteger (v : Value) : Prop := ∃ n, v = .int n

/-- Either all values of a list are of one kind, or there is a first that is not. -/
theorem all_or_first {α : Type} (kind : α → Value) (values : List Value) :
    (∃ items : List α, values = items.map kind) ∨
      ∃ (items : List α) (other : Value) (rest : List Value),
        values = items.map kind ++ other :: rest ∧ ¬ ∃ item, other = kind item := by
  induction values with
  | nil => exact .inl ⟨[], rfl⟩
  | cons value values ih =>
      by_cases here : ∃ item, value = kind item
      · obtain ⟨item, rfl⟩ := here
        obtain ⟨items, rfl⟩ | ⟨items, other, rest, rfl, other_ne⟩ := ih
        · exact .inl ⟨item :: items, rfl⟩
        · exact .inr ⟨item :: items, other, rest, rfl, other_ne⟩
      · exact .inr ⟨[], value, values, rfl, here⟩

namespace Primitive

/-- What an operation answers to evaluated arguments. -/
inductive Performs : Primitive → List Value → Except EvalError Value → Prop where
  | sum {ns : List Int} : Performs .add (ns.map .int) (.ok (.int (wrap ns.sum)))
  | sumOther {ns : List Int} {other rest} (other_ne : ¬ Value.IsInteger other) :
      Performs .add (ns.map .int ++ other :: rest) (.error (.mismatch other .number))
  | isPair {first rest} : Performs .isAtom [.pair first rest] (.ok .nil)
  | isNoPair {v} (v_ne : ¬ Value.IsPair v) : Performs .isAtom [v] (.ok (.symbol "t"))
  | isAtomCount {args} (count : args.length ≠ 1) :
      Performs .isAtom args (.error (.wrongCount args.length 1))
  | cons {first rest} : Performs .cons [first, rest] (.ok (.pair first rest))
  | consCount {args} (count : args.length ≠ 2) :
      Performs .cons args (.error (.wrongCount args.length 2))
  | car {first rest} : Performs .car [.pair first rest] (.ok first)
  | carOther {v} (v_ne : ¬ Value.IsPair v) : Performs .car [v] (.error (.mismatch v .cons))
  | carCount {args} (count : args.length ≠ 1) :
      Performs .car args (.error (.wrongCount args.length 1))
  | cdr {first rest} : Performs .cdr [.pair first rest] (.ok rest)
  | cdrOther {v} (v_ne : ¬ Value.IsPair v) : Performs .cdr [v] (.error (.mismatch v .cons))
  | cdrCount {args} (count : args.length ≠ 1) :
      Performs .cdr args (.error (.wrongCount args.length 1))
  | same {a b} (equals : Value.Equals a b) : Performs .equal [a, b] (.ok (.symbol "t"))
  | different {a b} (equals_not : ¬ Value.Equals a b) : Performs .equal [a, b] (.ok .nil)
  | equalCount {args} (count : args.length ≠ 2) :
      Performs .equal args (.error (.wrongCount args.length 2))

/-- Wrapping after every argument wraps the sum of all of them. -/
theorem addTo_wrap (sum : Int) (ns : List Int) :
    addTo (wrap sum) (ns.map .int) = .ok (.int (wrap (sum + ns.sum))) := by
  induction ns generalizing sum with
  | nil => simp [addTo]
  | cons n ns ih =>
      have inner : wrap (wrap sum + n) = wrap (sum + n) := by simp [wrap]
      rw [List.map_cons, addTo, inner, ih, List.sum_cons, Int.add_assoc]

theorem addTo_other (sum : Int) (ns : List Int) {other : Value} (rest : List Value)
    (other_ne : ¬ other.IsInteger) :
    addTo sum (ns.map .int ++ other :: rest) = .error (.mismatch other .number) := by
  induction ns generalizing sum with
  | nil =>
      cases other with
      | int n => exact absurd ⟨n, rfl⟩ other_ne
      | _ => rfl
  | cons n ns ih => exact ih (wrap (sum + n))

theorem run_of_performs {operation : Primitive} {args : List Value}
    {answer : Except EvalError Value} (h : Performs operation args answer) :
    operation.run args = answer := by
  cases h with
  | @sum ns =>
      have start : wrap 0 = 0 := by decide
      simpa only [run, start, Int.zero_add] using addTo_wrap 0 ns
  | sumOther other_ne => exact addTo_other 0 _ _ other_ne
  | isPair | cons | car | cdr => rfl
  | @isNoPair v v_ne | @carOther v v_ne | @cdrOther v v_ne =>
      cases v with
      | pair first rest => exact absurd ⟨first, rest, rfl⟩ v_ne
      | _ => rfl
  | isAtomCount count =>
      rw [run, oneArgument_of_ne count]
      rfl
  | carCount count | cdrCount count =>
      rw [run, pairArgument, oneArgument_of_ne count]
      rfl
  | consCount count | equalCount count =>
      rw [run, twoArguments_of_ne count]
      rfl
  | @same a b equals =>
      change Except.ok (Value.ofBool (a.equal b)) = _
      rw [equals.equal]
      rfl
  | @different a b other =>
      change Except.ok (Value.ofBool (a.equal b)) = _
      rw [Bool.eq_false_iff.mpr fun equal => other (Value.equals_of_equal equal)]
      rfl

/-- Each operation has an answer to every list of arguments. -/
theorem exists_performs (operation : Primitive) (args : List Value) :
    ∃ answer, Performs operation args answer := by
  cases operation with
  | add =>
      obtain ⟨ns, rfl⟩ | ⟨ns, other, rest, rfl, other_ne⟩ := all_or_first .int args
      · exact ⟨_, .sum⟩
      · exact ⟨_, .sumOther other_ne⟩
  | isAtom =>
      match args with
      | [] | _ :: _ :: _ => exact ⟨_, .isAtomCount (by simp)⟩
      | [v] =>
          by_cases pair : v.IsPair
          · obtain ⟨first, rest, rfl⟩ := pair
            exact ⟨_, .isPair⟩
          · exact ⟨_, .isNoPair pair⟩
  | car =>
      match args with
      | [] | _ :: _ :: _ => exact ⟨_, .carCount (by simp)⟩
      | [v] =>
          by_cases pair : v.IsPair
          · obtain ⟨first, rest, rfl⟩ := pair
            exact ⟨_, .car⟩
          · exact ⟨_, .carOther pair⟩
  | cdr =>
      match args with
      | [] | _ :: _ :: _ => exact ⟨_, .cdrCount (by simp)⟩
      | [v] =>
          by_cases pair : v.IsPair
          · obtain ⟨first, rest, rfl⟩ := pair
            exact ⟨_, .cdr⟩
          · exact ⟨_, .cdrOther pair⟩
  | cons =>
      match args with
      | [_, _] => exact ⟨_, .cons⟩
      | [] | [_] | _ :: _ :: _ :: _ => exact ⟨_, .consCount (by simp)⟩
  | equal =>
      match args with
      | [a, b] =>
          by_cases equals : a.Equals b
          · exact ⟨_, .same equals⟩
          · exact ⟨_, .different equals⟩
      | [] | [_] | _ :: _ :: _ :: _ => exact ⟨_, .equalCount (by simp)⟩

/-- Performing an operation gives the answer that is listed for it. -/
theorem run_eq_iff {operation : Primitive} {args : List Value}
    {answer : Except EvalError Value} :
    operation.run args = answer ↔ Performs operation args answer := by
  constructor
  · rintro rfl
    obtain ⟨answer, h⟩ := exists_performs operation args
    exact run_of_performs h ▸ h
  · exact run_of_performs

end Primitive

end PocketLisp
