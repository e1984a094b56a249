import PocketLisp.Proofs.Value.Plain
import PocketLisp.Reader.Atom

/-!
# What atoms denote

A legal name is read as the symbol of that name, and the written form of an integer of the fixed
width as that integer. Conversely an atom denotes plain data or is refused.
-/

namespace PocketLisp

open Text

theorem atomChar_of_isDigit {c : Char} (h : c.isDigit = true) : AtomChar c := by
  have bounds : 48 ≤ c.toNat ∧ c.toNat ≤ 57 := by
    simpa [Char.isDigit, UInt32.le_iff_toNat_le] using h
  refine ⟨?_, ?_, ?_, ?_⟩
  · simp [isBlank]
    omega
  all_goals
    rintro rfl
    contradiction

/-- A numeral is an atom. -/
theorem Text.Numeral.Spells.atomText {chars : List Char} {numeral : Numeral}
    (h : Numeral.Spells chars numeral) : AtomText chars := by
  have legal {digits : List Nat} (small : ∀ d ∈ digits, d < 10) :
      ∀ c ∈ digits.map Nat.digitChar, AtomChar c :=
    fun c hc => atomChar_of_isDigit (isDigit_of_mem_digits small hc)
  cases h with
  | unsigned present small => exact ⟨by simpa using present, legal small⟩
  | plus present small =>
      exact ⟨by simp, List.forall_mem_cons.mpr ⟨by decide, legal small⟩⟩
  | minus present small =>
      exact ⟨by simp, List.forall_mem_cons.mpr ⟨by decide, legal small⟩⟩

theorem atomText_decimal (n : Int) : AtomText (decimal n) := by
  obtain ⟨numeral, spells, -⟩ := spells_decimal n
  exact spells.atomText

/-- The written form of an integer is read as the integer. -/
theorem readAtom_decimal {n : Int} (h : InWord n) :
    readAtom (String.ofList (decimal n)) = .ok (.int n) := by
  obtain ⟨numeral, spells, value, count⟩ := spells_decimal n
  have short : numeral.digits.length ≤ 19 := by
    rw [count, Nat.length_toDigits_le_iff (by decide) (by decide)]
    simp only [InWord, minInt, maxInt] at h
    omega
  have allowed : ¬ digitLimit < numeral.digits.length := by
    simp only [digitLimit]
    omega
  rw [readAtom, String.toList_ofList, Numeral.ofChars?_eq_some_iff.mpr spells]
  simp only [if_neg allowed, value, if_pos h]

/-- A legal name is read as the symbol of that name. -/
theorem readAtom_of_legal {name : String} (legal : LegalName name) :
    readAtom name = .ok (.symbol name) := by
  have symbol : Value.ofName name = .symbol name := if_neg legal.notNil
  unfold readAtom
  split
  · next numeral found =>
    obtain ⟨allowed, wide⟩ :=
      legal.notInteger numeral (Numeral.ofChars?_eq_some_iff.mp found)
    rw [if_neg (Nat.not_lt.mpr allowed), if_neg wide, symbol]
  · rw [symbol]

/-- A numeral of too many digits is refused, whatever its value. -/
theorem readAtom_of_long {text : String} {numeral : Numeral}
    (spells : Numeral.Spells text.toList numeral) (long : digitLimit < numeral.digits.length) :
    readAtom text = .error (.numeralTooLong numeral.digits.length) := by
  rw [readAtom, Numeral.ofChars?_eq_some_iff.mpr spells]
  exact if_pos long

/-- An atom is refused only for the number of its digits. -/
theorem readAtom_error {text : String} {failure : ReadFailure}
    (h : readAtom text = .error failure) : ∃ digits, failure = .numeralTooLong digits := by
  unfold readAtom at h
  split at h
  · split at h
    · cases h
      exact ⟨_, rfl⟩
    · split at h <;> contradiction
  · contradiction

/-- An atom denotes plain data. -/
theorem plain_of_readAtom {text : String} {v : Value} (atom : AtomText text.toList)
    (h : readAtom text = .ok v) : v.Plain := by
  have named (notInteger : ∀ numeral, Numeral.ofChars? text.toList = some numeral →
      numeral.digits.length ≤ digitLimit ∧ ¬ InWord numeral.value) :
      (Value.ofName text).Plain := by
    unfold Value.ofName
    split
    · trivial
    · next notNil => exact legalName_iff.mpr ⟨atom, notNil, notInteger⟩
  unfold readAtom at h
  split at h
  · next numeral found =>
    split at h
    · contradiction
    · next allowed =>
      split at h
      · next inWord =>
        cases h
        exact inWord
      · next wide =>
        cases h
        apply named
        intro other hother
        cases found.symm.trans hother
        exact ⟨Nat.not_lt.mp allowed, wide⟩
  · next none =>
    cases h
    apply named
    intro numeral found
    simp [none] at found

end PocketLisp
