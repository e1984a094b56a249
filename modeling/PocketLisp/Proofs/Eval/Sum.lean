import Mathlib.Algebra.BigOperators.Group.List.Basic
import Mathlib.Data.Int.ModEq
import PocketLisp.Proofs.Eval.Operation

/-!
# The sum

Addition wraps after every argument, and yet its answer is the exact sum wrapped once: of all
integers that are congruent to the exact sum, the one of the fixed width. So neither the order nor
the grouping of the arguments matters (`Primitive.run_add_perm`, `Primitive.run_add_flatten`). As
soon as there is an argument that is not an integer, the first of them is the error, and then the
grouping still does not matter, but the order does.
-/

namespace PocketLisp

/-- The integers of the fixed width represent all integers, each by the one congruent to it. -/
theorem wrap_eq_iff {n k : Int} : wrap n = k ↔ InWord k ∧ k ≡ n [ZMOD wordCount] := by
  constructor
  · rintro rfl
    exact ⟨inWord_wrap n, Int.bmod_emod⟩
  · rintro ⟨inWord, congruent⟩
    calc
      wrap n = wrap (n % wordCount) := (Int.emod_bmod n wordCount).symm
      _ = wrap (k % wordCount) := by rw [congruent]
      _ = wrap k := Int.emod_bmod k wordCount
      _ = k := wrap_of_inWord inWord

namespace Value

theorem isInt_iff {v : Value} : v.isInt = true ↔ v.IsInteger := by
  cases v <;> simp [isInt, IsInteger]

theorem find?_not_isInt_ints (ns : List Int) :
    (ns.map int).find? (fun arg => !arg.isInt) = none := by
  rw [List.find?_eq_none]
  intro arg mem
  obtain ⟨n, -, rfl⟩ := List.mem_map.mp mem
  exact Bool.noConfusion

end Value

namespace Primitive

theorem run_add_ints (ns : List Int) : add.run (ns.map .int) = .ok (.int (wrap ns.sum)) :=
  run_of_performs .sum

theorem run_add_other (ns : List Int) {other : Value} (rest : List Value)
    (other_ne : ¬ other.IsInteger) :
    add.run (ns.map .int ++ other :: rest) = .error (.mismatch other .number) :=
  run_of_performs (.sumOther other_ne)

/-- An answer of the addition is an integer of the fixed width, so it is its own sum. -/
theorem run_add_singleton {args : List Value} {v : Value} (sum : add.run args = .ok v) :
    add.run [v] = .ok v := by
  cases run_eq_iff.mp sum with
  | @sum ns =>
      have alone := run_add_ints [wrap ns.sum]
      rwa [List.sum_singleton, wrap_of_inWord (inWord_wrap _)] at alone

/-- The addition fails exactly if there is an argument that is not an integer, and names the
first. -/
theorem run_add_eq_error_iff {args : List Value} {e : EvalError} :
    add.run args = .error e ↔
      ∃ other, args.find? (fun arg => !arg.isInt) = some other ∧ e = .mismatch other .number := by
  obtain ⟨ns, rfl⟩ | ⟨ns, other, rest, rfl, other_ne⟩ := all_or_first .int args
  · rw [run_add_ints, Value.find?_not_isInt_ints]
    simp
  · have notInt : other.isInt = false := by
      rwa [← Bool.not_eq_true, Value.isInt_iff]
    have first : (ns.map Value.int ++ other :: rest).find? (fun arg => !arg.isInt) =
        some other := by
      rw [List.find?_append, Value.find?_not_isInt_ints, Option.none_or,
        List.find?_cons_of_pos (by simp [notInt])]
    rw [run_add_other ns rest other_ne, first]
    simp [eq_comm]

/-- The arguments may be added in two groups. -/
theorem run_add_append (xs ys : List Value) :
    add.run (xs ++ ys) =
      add.run xs >>= fun a => add.run ys >>= fun b => add.run [a, b] := by
  obtain ⟨ns, rfl⟩ | ⟨ns, other, rest, rfl, other_ne⟩ := all_or_first .int xs
  · obtain ⟨ms, rfl⟩ | ⟨ms, other, rest, rfl, other_ne⟩ := all_or_first .int ys
    · have parts := run_add_ints [wrap ns.sum, wrap ms.sum]
      have whole : wrap (ns ++ ms).sum = wrap [wrap ns.sum, wrap ms.sum].sum := by
        simp [wrap]
      rw [← List.map_append, run_add_ints, run_add_ints, run_add_ints, whole]
      exact parts.symm
    · rw [← List.append_assoc, ← List.map_append, run_add_other _ rest other_ne,
        run_add_other _ rest other_ne, run_add_ints]
      rfl
  · rw [List.append_assoc, List.cons_append, run_add_other _ _ other_ne,
      run_add_other _ _ other_ne]
    rfl

/-- The arguments may be added in any number of groups. -/
theorem run_add_flatten (groups : List (List Value)) :
    add.run groups.flatten = groups.mapM add.run >>= add.run := by
  induction groups with
  | nil => rfl
  | cons group groups ih =>
      rw [List.flatten_cons, run_add_append, List.mapM_cons, bind_assoc, ih]
      cases sum : add.run group with
      | error e => rfl
      | ok a =>
          have behind (sums : List Value) :
              add.run (a :: sums) = add.run sums >>= fun b => add.run [a, b] := by
            have split := run_add_append [a] sums
            rwa [run_add_singleton sum] at split
          cases groups.mapM add.run with
          | error e => rfl
          | ok sums => exact (behind sums).symm

theorem run_add_perm {ns ms : List Int} (perm : ns.Perm ms) :
    add.run (ns.map .int) = add.run (ms.map .int) := by
  rw [run_add_ints, run_add_ints, perm.sum_eq]

/-- The sum of integers is the one integer of the fixed width that is congruent to their exact sum,
whatever their order; the addition fails for the first argument that is not an integer, if there is
one; and arguments may be added in groups. -/
theorem add_wraps_exact_sum :
    (∀ ns : List Int, ∃ n, add.run (ns.map .int) = .ok (.int n) ∧
      ∀ k : Int, -2 ^ 63 ≤ k ∧ k ≤ 2 ^ 63 - 1 ∧ k ≡ ns.sum [ZMOD 2 ^ 64] ↔ k = n) ∧
    (∀ ns ms : List Int, ns.Perm ms → add.run (ns.map .int) = add.run (ms.map .int)) ∧
    (∀ xs ys : List Value, add.run (xs ++ ys) =
      add.run xs >>= fun a => add.run ys >>= fun b => add.run [a, b]) ∧
    (∀ groups : List (List Value),
      add.run groups.flatten = groups.mapM add.run >>= add.run) ∧
    ∀ (args : List Value) (e : EvalError), add.run args = .error e ↔
      ∃ other, args.find? (fun arg => !arg.isInt) = some other ∧ e = .mismatch other .number := by
  refine ⟨fun ns => ⟨wrap ns.sum, run_add_ints ns, fun k => ?_⟩, fun _ _ => run_add_perm,
    run_add_append, run_add_flatten, fun _ _ => run_add_eq_error_iff⟩
  rw [← and_assoc, eq_comm, wrap_eq_iff]
  rfl

/-- One more than the greatest integer is the least one, from either side. -/
theorem add_wraps_at_greatest :
    [maxInt, 1].Perm [1, maxInt] ∧
      add.run [.int maxInt, .int 1] = add.run [.int 1, .int maxInt] ∧
      add.run [.int 1, .int maxInt] = .ok (.int minInt) := by
  have swapped : [maxInt, 1].Perm [1, maxInt] := .swap 1 maxInt []
  exact ⟨swapped, add_wraps_exact_sum.2.1 _ _ swapped, rfl⟩

end Primitive

end PocketLisp
