import PocketLisp.Text.Decimal

/-!
# How numerals are spelled

`Numeral.ofChars?` takes a numeral apart. Here its spellings are listed: digits with no sign, after
a plus sign, or after a minus sign. The two agree (`Numeral.ofChars?_eq_some_iff`), and the written
form of an integer is the spelling of a numeral with that value.
-/

namespace PocketLisp.Text

/-- The characters spell the numeral. -/
inductive Numeral.Spells : List Char → Numeral → Prop where
  | unsigned {digits} (present : digits ≠ []) (small : ∀ d ∈ digits, d < 10) :
      Spells (digits.map Nat.digitChar) ⟨false, digits⟩
  | plus {digits} (present : digits ≠ []) (small : ∀ d ∈ digits, d < 10) :
      Spells ('+' :: digits.map Nat.digitChar) ⟨false, digits⟩
  | minus {digits} (present : digits ≠ []) (small : ∀ d ∈ digits, d < 10) :
      Spells ('-' :: digits.map Nat.digitChar) ⟨true, digits⟩

theorem asciiDigit?_digitChar {d : Nat} (small : d < 10) : asciiDigit? d.digitChar = some d := by
  have value := Nat.toNat_digitChar_sub_48_of_lt_ten small
  simpa [asciiDigit?, small] using value

theorem asciiDigit?_eq_some_iff {c : Char} {d : Nat} :
    asciiDigit? c = some d ↔ d < 10 ∧ c = d.digitChar := by
  constructor
  · intro h
    obtain ⟨digit, rfl⟩ : c.isDigit = true ∧ c.toNat - 48 = d := by
      simpa [asciiDigit?] using h
    have bounds : 48 ≤ c.toNat ∧ c.toNat ≤ 57 := by
      simpa [Char.isDigit, UInt32.le_iff_toNat_le] using digit
    have small : c.toNat - 48 < 10 := by omega
    refine ⟨small, Char.toNat_inj.mp ?_⟩
    rw [Nat.toNat_digitChar_of_lt_ten small]
    omega
  · rintro ⟨small, rfl⟩
    exact asciiDigit?_digitChar small

theorem mapM_asciiDigit?_eq_some_iff {chars : List Char} {digits : List Nat} :
    chars.mapM asciiDigit? = some digits ↔
      (∀ d ∈ digits, d < 10) ∧ chars = digits.map Nat.digitChar := by
  induction chars generalizing digits with
  | nil =>
      cases digits <;> simp
  | cons c rest ih =>
      simp only [List.mapM_cons, Option.pure_def, Option.bind_eq_bind, Option.bind_eq_some_iff,
        Option.some.injEq]
      constructor
      · rintro ⟨d, hd, digits, hdigits, rfl⟩
        obtain ⟨small, rfl⟩ := asciiDigit?_eq_some_iff.mp hd
        obtain ⟨smalls, rfl⟩ := ih.mp hdigits
        exact ⟨by simpa using ⟨small, smalls⟩, rfl⟩
      · rintro ⟨small, spelled⟩
        cases digits with
        | nil => contradiction
        | cons d digits =>
            obtain ⟨rfl, rfl⟩ := List.cons.inj spelled
            have smalls := ih.mpr ⟨fun d hd => small d (by simp [hd]), rfl⟩
            exact ⟨d, asciiDigit?_digitChar (small d (by simp)), digits, smalls, rfl⟩

/-- A sign is taken off only if there is one. -/
theorem splitSign_cases (chars : List Char) :
    (∃ rest, chars = '+' :: rest ∧ Numeral.splitSign chars = (false, rest)) ∨
    (∃ rest, chars = '-' :: rest ∧ Numeral.splitSign chars = (true, rest)) ∨
    Numeral.splitSign chars = (false, chars) := by
  rw [Numeral.splitSign.eq_def]
  split
  · exact .inl ⟨_, rfl, rfl⟩
  · exact .inr (.inl ⟨_, rfl, rfl⟩)
  · exact .inr (.inr rfl)

theorem isDigit_of_mem_digits {digits : List Nat} (small : ∀ d ∈ digits, d < 10) {c : Char}
    (h : c ∈ digits.map Nat.digitChar) : c.isDigit = true := by
  obtain ⟨d, hd, rfl⟩ := List.mem_map.mp h
  simpa using small d hd

/-- Digits carry no sign. -/
theorem splitSign_digits {digits : List Nat} (small : ∀ d ∈ digits, d < 10) :
    Numeral.splitSign (digits.map Nat.digitChar) = (false, digits.map Nat.digitChar) := by
  have digit := @isDigit_of_mem_digits digits small
  obtain ⟨rest, signed, -⟩ | ⟨rest, signed, -⟩ | unsigned :=
    splitSign_cases (digits.map Nat.digitChar)
  · exact absurd (digit (signed ▸ List.mem_cons_self)) (by decide : '+'.isDigit ≠ true)
  · exact absurd (digit (signed ▸ List.mem_cons_self)) (by decide : '-'.isDigit ≠ true)
  · exact unsigned

/-- Taking a numeral apart finds its sign and its digits, whichever way it is spelled. -/
theorem Numeral.ofChars?_eq_some_iff {chars : List Char} {n : Numeral} :
    ofChars? chars = some n ↔ Spells chars n := by
  constructor
  · intro h
    rw [ofChars?] at h
    cases hrest : (splitSign chars).2.mapM asciiDigit? with
    | none => simp [hrest] at h
    | some digits =>
        obtain ⟨present, rfl⟩ : digits ≠ [] ∧ ⟨(splitSign chars).1, digits⟩ = n := by
          simpa [hrest] using h
        obtain ⟨small, spelled⟩ := mapM_asciiDigit?_eq_some_iff.mp hrest
        obtain ⟨rest, rfl, split⟩ | ⟨rest, rfl, split⟩ | split := splitSign_cases chars
        · simp only [split] at spelled ⊢
          exact spelled ▸ .plus present small
        · simp only [split] at spelled ⊢
          exact spelled ▸ .minus present small
        · simp only [split] at spelled ⊢
          exact spelled ▸ .unsigned present small
  · intro h
    cases h with
    | unsigned present small =>
        simp [ofChars?, splitSign_digits small, mapM_asciiDigit?_eq_some_iff.mpr ⟨small, rfl⟩,
          present]
    | plus present small =>
        simp [ofChars?, splitSign, mapM_asciiDigit?_eq_some_iff.mpr ⟨small, rfl⟩, present]
    | minus present small =>
        simp [ofChars?, splitSign, mapM_asciiDigit?_eq_some_iff.mpr ⟨small, rfl⟩, present]

/-- The digits of a number, read from the left, give the number back. -/
theorem exists_toDigits (n : Nat) :
    ∃ digits, (∀ d ∈ digits, d < 10) ∧ Nat.toDigits 10 n = digits.map Nat.digitChar ∧
      digitsValue digits = n := by
  induction n using Nat.strongRecOn with
  | ind n ih =>
      rw [Nat.toDigits_eq_if (by decide)]
      split
      · next small => exact ⟨[n], by simpa using small, rfl, by simp [digitsValue]⟩
      · next large =>
        obtain ⟨digits, small, spelled, value⟩ := ih (n / 10) (by omega)
        refine ⟨digits ++ [n % 10], ?_, by simp [spelled], ?_⟩
        · intro d hd
          obtain hd | hd := List.mem_append.mp hd
          · exact small d hd
          · rw [List.mem_singleton.mp hd]
            exact Nat.mod_lt n (by decide)
        · rw [digitsValue_concat, value]
          omega

/-- The written form of an integer is a numeral with that value and no leading zeros. -/
theorem spells_decimal (n : Int) :
    ∃ numeral, Numeral.Spells (decimal n) numeral ∧ numeral.value = n ∧
      numeral.digits.length = (Nat.toDigits 10 n.natAbs).length := by
  obtain ⟨digits, small, spelled, value⟩ := exists_toDigits n.natAbs
  have present : digits ≠ [] := by
    rintro rfl
    exact Nat.toDigits_ne_nil spelled
  have count : digits.length = (Nat.toDigits 10 n.natAbs).length := by simp [spelled]
  rw [decimal, spelled]
  split
  · refine ⟨_, .minus present small, ?_, by simp⟩
    simp only [Numeral.value, if_true, value]
    omega
  · refine ⟨_, .unsigned present small, ?_, by simp⟩
    simp only [Numeral.value, value]
    simp
    omega

end PocketLisp.Text
