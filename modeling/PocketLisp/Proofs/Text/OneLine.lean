import Mathlib.Tactic.SplitIfs
import PocketLisp.Text.Decimal
import PocketLisp.Text.Quoted

/-!
# Texts of one line

A text of one line holds no newline. Numerals are such texts, and so is every quoted text, since a
newline is quoted with a letter.
-/

namespace PocketLisp.Text

/-- The text has no newline. -/
def OneLine (text : String) : Prop := '\n' ∉ text.toList

instance (text : String) : Decidable (OneLine text) :=
  inferInstanceAs (Decidable (¬ '\n' ∈ text.toList))

theorem OneLine.append {text more : String} (fine : OneLine text) (also : OneLine more) :
    OneLine (text ++ more) := by
  simpa [OneLine] using ⟨fine, also⟩

theorem oneLine_ofList {chars : List Char} (fine : ∀ c ∈ chars, c ≠ '\n') :
    OneLine (String.ofList chars) := by
  rw [OneLine, String.toList_ofList]
  exact fun mem => fine _ mem rfl

section Digits

theorem ne_newline_of_mem_toDigits {base n : Nat} (large : 1 < base) (hexadecimal : base ≤ 16)
    {c : Char} (mem : c ∈ Nat.toDigits base n) : c ≠ '\n' := by
  have digit : ∀ d < 16, Nat.digitChar d ≠ '\n' := by decide
  induction n using Nat.strongRecOn with
  | ind n ih =>
      rw [Nat.toDigits_eq_if large] at mem
      split at mem
      · next small =>
        rw [List.mem_singleton.mp mem]
        exact digit n (Nat.lt_of_lt_of_le small hexadecimal)
      · next wide =>
        obtain mem | mem := List.mem_append.mp mem
        · exact ih (n / base) (Nat.div_lt_self (by omega) large) mem
        · rw [List.mem_singleton.mp mem]
          exact digit _ (Nat.lt_of_lt_of_le (Nat.mod_lt n (by omega)) hexadecimal)

theorem oneLine_toString (n : Nat) : OneLine (toString n) := by
  intro mem
  have digits : (toString n).toList = Nat.toDigits 10 n := by simp
  exact ne_newline_of_mem_toDigits (by decide) (by decide) (digits ▸ mem) rfl

theorem oneLine_decimal (n : Int) : OneLine (String.ofList (decimal n)) := by
  refine oneLine_ofList fun c mem => ?_
  rw [decimal] at mem
  split_ifs at mem
  · obtain rfl | mem := List.mem_cons.mp mem
    · decide
    · exact ne_newline_of_mem_toDigits (by decide) (by decide) mem
  · exact ne_newline_of_mem_toDigits (by decide) (by decide) mem

end Digits

section Quoted

variable {quote c d : Char}

theorem ne_newline_of_mem_codeEscape (mem : d ∈ codeEscape c) : d ≠ '\n' := by
  have escape {letter : Char} {width : Nat} (fine : letter ≠ '\n')
      (mem : d ∈ '\\' :: letter :: hexDigits width c.toNat) : d ≠ '\n' := by
    obtain rfl | rfl | mem := by simpa only [List.mem_cons] using mem
    · decide
    · exact fine
    · obtain mem | mem := List.mem_append.mp mem
      · rw [List.eq_of_mem_replicate mem]
        decide
      · exact ne_newline_of_mem_toDigits (by decide) (by decide) mem
  rw [codeEscape] at mem
  split_ifs at mem
  · exact escape (by decide) mem
  · exact escape (by decide) mem
  · exact escape (by decide) mem

/-- A character is quoted without a newline, also the newline itself. -/
theorem ne_newline_of_mem_quotedChar (other : quote ≠ '\n') (mem : d ∈ quotedChar quote c) :
    d ≠ '\n' := by
  rintro rfl
  rw [quotedChar] at mem
  split_ifs at mem with special newline
  · obtain rfl : '\n' = c := by simpa using mem
    simp [Ne.symm other] at special
  · simp at mem
  · simp at mem
  · simp at mem
  · obtain rfl := List.mem_singleton.mp mem
    simp at newline
  · exact ne_newline_of_mem_codeEscape mem rfl

theorem oneLine_quoted (text : String) : OneLine (quoted text) := by
  have other : enclosingQuote text.toList ≠ '\n' := by
    rw [enclosingQuote]
    split_ifs <;> decide
  refine oneLine_ofList (List.forall_mem_append.mpr ⟨List.forall_mem_cons.mpr ⟨other, ?_⟩,
    List.forall_mem_singleton.mpr other⟩)
  intro c mem
  obtain ⟨_, -, mem⟩ := List.mem_flatMap.mp mem
  exact ne_newline_of_mem_quotedChar other mem

end Quoted

end PocketLisp.Text
