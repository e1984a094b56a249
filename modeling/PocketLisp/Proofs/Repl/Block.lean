import Mathlib.Data.List.Induction
import PocketLisp.Proofs.Reader.Reach
import PocketLisp.Repl

/-!
# Blocks of lines

Lines split into blocks, each the shortest run of lines that does not end inside a datum, and the
incomplete lines that are left behind the last block. Every list of lines has such a split
(`Split.exists`) and no second one (`Split.unique`). Where a line ends inside a datum depends on the
limit of the reader, since a text that cannot be read within it does not end inside a datum.
-/

namespace PocketLisp.Repl

/-- The text is read up to its end, and ends inside a datum. -/
def EndsInside (limit : Nat) (text : String) : Prop :=
  (readAllWithin limit text).2 = some (.failed (.malformed .endOfText))

instance (limit : Nat) (text : String) : Decidable (EndsInside limit text) :=
  inferInstanceAs (Decidable (_ = _))

/-- Wherever the lines are cut, the lines before the cut end inside a datum. -/
def Incomplete (limit : Nat) (lines : List String) : Prop :=
  ∀ part, part <+: lines → part ≠ [] → EndsInside limit (String.join part)

/-- The lines do not end inside a datum, but do wherever they are cut. -/
structure IsBlock (limit : Nat) (lines : List String) : Prop where
  present : lines ≠ []
  ends : ¬ EndsInside limit (String.join lines)
  shortest : ∀ part, part <+: lines → part ≠ [] → ¬ EndsInside limit (String.join part) →
    part = lines

/-- A split of lines into blocks and the incomplete lines behind them. -/
@[ext]
structure Split (limit : Nat) (lines : List String) where
  blocks : List (List String)
  last : List String
  whole : blocks.flatten ++ last = lines
  isBlock : ∀ block ∈ blocks, IsBlock limit block
  incomplete : Incomplete limit last

variable {limit : Nat}

section Incomplete

variable {lines part : List String} {line : String}

theorem incomplete_nil : Incomplete limit [] :=
  fun _ cut present => absurd (List.prefix_nil.mp cut) present

theorem Incomplete.of_prefix (incomplete : Incomplete limit lines) (cut : part <+: lines) :
    Incomplete limit part :=
  fun _ cut' present => incomplete _ (cut'.trans cut) present

/-- One more line leaves the lines incomplete if it ends inside a datum. -/
theorem Incomplete.concat (incomplete : Incomplete limit lines)
    (inside : EndsInside limit (String.join (lines ++ [line]))) :
    Incomplete limit (lines ++ [line]) := by
  intro part cut present
  obtain rfl | cut := List.prefix_concat_iff.mp cut
  · exact inside
  · exact incomplete part cut present

/-- One more line makes the lines a block if it does not end inside a datum. -/
theorem Incomplete.isBlock (incomplete : Incomplete limit lines)
    (ends : ¬ EndsInside limit (String.join (lines ++ [line]))) :
    IsBlock limit (lines ++ [line]) := by
  refine ⟨by simp, ends, fun part cut present ends' => ?_⟩
  obtain whole | cut := List.prefix_concat_iff.mp cut
  · exact whole
  · exact absurd (incomplete part cut present) ends'

/-- If the text of incomplete lines is complete, there are none. -/
theorem Incomplete.eq_nil (incomplete : Incomplete limit lines)
    (complete : (readAllWithin limit (String.join lines)).2 = none) : lines = [] := by
  by_contra present
  have inside : (readAllWithin limit (String.join lines)).2 = some _ :=
    incomplete lines (List.prefix_refl _) present
  cases inside.symm.trans complete

/-- A block is an incomplete list of lines and one more line. -/
theorem IsBlock.exists_concat (block : IsBlock limit lines) :
    ∃ before line, lines = before ++ [line] ∧ Incomplete limit before := by
  refine ⟨lines.dropLast, lines.getLast block.present,
    (List.dropLast_concat_getLast block.present).symm, fun part cut present => ?_⟩
  by_contra ends
  obtain rfl := block.shortest part (cut.trans (List.dropLast_prefix lines)) present ends
  have fits := cut.length_le
  have nonempty := List.length_pos_iff.mpr present
  rw [List.length_dropLast] at fits
  omega

end Incomplete

/-- All lines can be split. -/
theorem Split.exists (limit : Nat) (lines : List String) : Nonempty (Split limit lines) := by
  -- The next line goes to the incomplete lines, which it completes or not.
  induction lines using List.reverseRecOn with
  | nil => exact ⟨[], [], rfl, List.forall_mem_nil _, incomplete_nil⟩
  | append_singleton lines line ih =>
      obtain ⟨blocks, last, whole, isBlock, incomplete⟩ := ih
      by_cases inside : EndsInside limit (String.join (last ++ [line]))
      · exact ⟨blocks, last ++ [line], by rw [← whole, List.append_assoc], isBlock,
          incomplete.concat inside⟩
      · refine ⟨blocks ++ [last ++ [line]], [], by simp [← whole], ?_, incomplete_nil⟩
        exact List.forall_mem_append.mpr
          ⟨isBlock, List.forall_mem_singleton.mpr (incomplete.isBlock inside)⟩

section Unique

variable {block block' rest rest' : List String}

/-- Two blocks at one place are the same. -/
theorem IsBlock.unique (h : IsBlock limit block) (h' : IsBlock limit block')
    (same : block ++ rest = block' ++ rest') : block = block' := by
  have cut : block <+: block' ++ rest' := ⟨rest, same⟩
  obtain shorter | shorter := List.prefix_or_prefix_of_prefix cut (List.prefix_append ..)
  · exact h'.shortest block shorter h.present h.ends
  · exact (h.shortest block' shorter h'.present h'.ends).symm

/-- Incomplete lines do not begin with a block. -/
theorem Incomplete.not_isBlock (incomplete : Incomplete limit (block ++ rest)) :
    ¬ IsBlock limit block :=
  fun h => h.ends (incomplete block (List.prefix_append ..) h.present)

theorem blocks_unique {blocks blocks' : List (List String)} {last last' : List String}
    (isBlock : ∀ block ∈ blocks, IsBlock limit block) (incomplete : Incomplete limit last)
    (isBlock' : ∀ block ∈ blocks', IsBlock limit block) (incomplete' : Incomplete limit last')
    (same : blocks.flatten ++ last = blocks'.flatten ++ last') :
    blocks = blocks' ∧ last = last' := by
  induction blocks generalizing blocks' with
  | nil =>
      cases blocks' with
      | nil => exact ⟨rfl, same⟩
      | cons block' blocks' =>
          obtain ⟨first', -⟩ := List.forall_mem_cons.mp isBlock'
          obtain rfl : last = block' ++ (blocks'.flatten ++ last') := by simpa using same
          exact absurd first' incomplete.not_isBlock
  | cons block blocks ih =>
      obtain ⟨first, others⟩ := List.forall_mem_cons.mp isBlock
      cases blocks' with
      | nil =>
          obtain rfl : block ++ (blocks.flatten ++ last) = last' := by simpa using same
          exact absurd first incomplete'.not_isBlock
      | cons block' blocks' =>
          obtain ⟨first', others'⟩ := List.forall_mem_cons.mp isBlock'
          simp only [List.flatten_cons, List.append_assoc] at same
          obtain rfl := first.unique first' same
          obtain ⟨rfl, rfl⟩ := ih others others' (List.append_cancel_left same)
          exact ⟨rfl, rfl⟩

/-- Lines are split in one way only. -/
theorem Split.unique {lines : List String} (split other : Split limit lines) : split = other := by
  obtain ⟨blocks, last⟩ := blocks_unique split.isBlock split.incomplete other.isBlock
    other.incomplete (split.whole.trans other.whole.symm)
  exact Split.ext blocks last

end Unique

end PocketLisp.Repl
