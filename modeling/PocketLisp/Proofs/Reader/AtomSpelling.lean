import Mathlib.Data.List.Induction
import Mathlib.Data.Nat.Digits.Defs
import PocketLisp.Proofs.Reader.Atom

/-!
# The spelling of atoms

What an atom denotes is decided by its spelling alone: `AtomDenotes` lists the cases, and reading an
atom gives exactly these (`readAtom_eq_iff`). A numeral may be an integer of the fixed width, too
wide for it, or too long to be converted; all other spellings but one are names. The value of a
numeral is that of its decimal digits, so an integer may be written with leading zeros and, unless
it is negative, with a plus sign (`Text.written`).
-/

namespace PocketLisp

open Text

/-- What a text denotes as an atom, by its spelling. -/
inductive AtomDenotes (text : String) : Except ReadFailure Value → Prop where
  | integer {numeral} (spelled : Numeral.Spells text.toList numeral)
      (allowed : numeral.digits.length ≤ digitLimit) (inWord : InWord numeral.value) :
      AtomDenotes text (.ok (.int numeral.value))
  | tooLong {numeral} (spelled : Numeral.Spells text.toList numeral)
      (long : digitLimit < numeral.digits.length) :
      AtomDenotes text (.error (.numeralTooLong numeral.digits.length))
  | emptyList (same : text = "nil") : AtomDenotes text (.ok .nil)
  | tooWide {numeral} (spelled : Numeral.Spells text.toList numeral)
      (allowed : numeral.digits.length ≤ digitLimit) (wide : ¬ InWord numeral.value) :
      AtomDenotes text (.ok (.symbol text))
  | name (notNil : text ≠ "nil") (noNumeral : ∀ numeral, ¬ Numeral.Spells text.toList numeral) :
      AtomDenotes text (.ok (.symbol text))

section Cases

variable {text : String}

/-- A numeral is not the spelling of the empty list. -/
theorem Text.Numeral.Spells.ne_nil {numeral : Numeral}
    (spelled : Numeral.Spells text.toList numeral) : text ≠ "nil" := by
  rintro rfl
  have none : Numeral.ofChars? "nil".toList = none := by decide
  cases none.symm.trans (Numeral.ofChars?_eq_some_iff.mpr spelled)

theorem readAtom_of_spells {numeral : Numeral} (spelled : Numeral.Spells text.toList numeral)
    (allowed : numeral.digits.length ≤ digitLimit) :
    readAtom text =
      .ok (if InWord numeral.value then .int numeral.value else .symbol text) := by
  rw [readAtom, Numeral.ofChars?_eq_some_iff.mpr spelled]
  simp only [if_neg (Nat.not_lt.mpr allowed), Value.ofName, if_neg spelled.ne_nil]
  split <;> rfl

theorem readAtom_of_no_numeral (noNumeral : ∀ numeral, ¬ Numeral.Spells text.toList numeral) :
    readAtom text = .ok (.ofName text) := by
  have none : Numeral.ofChars? text.toList = none :=
    Option.eq_none_iff_forall_ne_some.mpr fun numeral found =>
      noNumeral numeral (Numeral.ofChars?_eq_some_iff.mp found)
  rw [readAtom, none]

theorem AtomDenotes.readAtom_eq {answer : Except ReadFailure Value}
    (h : AtomDenotes text answer) : readAtom text = answer := by
  cases h with
  | integer spelled allowed inWord => rw [readAtom_of_spells spelled allowed, if_pos inWord]
  | tooLong spelled long => exact readAtom_of_long spelled long
  | emptyList same => rw [same]; rfl
  | tooWide spelled allowed wide => rw [readAtom_of_spells spelled allowed, if_neg wide]
  | name notNil noNumeral =>
      rw [readAtom_of_no_numeral noNumeral, Value.ofName, if_neg notNil]

/-- Each text denotes something or is refused. -/
theorem exists_atomDenotes (text : String) : ∃ answer, AtomDenotes text answer := by
  by_cases spelled : ∃ numeral, Numeral.Spells text.toList numeral
  · obtain ⟨numeral, spelled⟩ := spelled
    by_cases long : digitLimit < numeral.digits.length
    · exact ⟨_, .tooLong spelled long⟩
    · by_cases inWord : InWord numeral.value
      · exact ⟨_, .integer spelled (Nat.not_lt.mp long) inWord⟩
      · exact ⟨_, .tooWide spelled (Nat.not_lt.mp long) inWord⟩
  · by_cases same : text = "nil"
    · exact ⟨_, .emptyList same⟩
    · exact ⟨_, .name same (not_exists.mp spelled)⟩

/-- Reading an atom gives what its spelling says, and nothing else. -/
theorem readAtom_eq_iff {answer : Except ReadFailure Value} :
    readAtom text = answer ↔ AtomDenotes text answer := by
  constructor
  · rintro rfl
    obtain ⟨answer, h⟩ := exists_atomDenotes text
    exact h.readAtom_eq ▸ h
  · exact AtomDenotes.readAtom_eq

theorem readAtom_int_iff {n : Int} :
    readAtom text = .ok (.int n) ↔ ∃ numeral, Numeral.Spells text.toList numeral ∧
      numeral.digits.length ≤ digitLimit ∧ numeral.value = n ∧ InWord n := by
  rw [readAtom_eq_iff]
  constructor
  · rintro (⟨spelled, allowed, inWord⟩)
    exact ⟨_, spelled, allowed, rfl, inWord⟩
  · rintro ⟨numeral, spelled, allowed, rfl, inWord⟩
    exact .integer spelled allowed inWord

theorem readAtom_nil_iff : readAtom text = .ok .nil ↔ text = "nil" := by
  rw [readAtom_eq_iff]
  constructor
  · rintro (- | - | same)
    exact same
  · exact .emptyList

theorem readAtom_error_iff {failure : ReadFailure} :
    readAtom text = .error failure ↔ ∃ numeral, Numeral.Spells text.toList numeral ∧
      digitLimit < numeral.digits.length ∧ failure = .numeralTooLong numeral.digits.length := by
  rw [readAtom_eq_iff]
  constructor
  · rintro (- | ⟨spelled, long⟩)
    exact ⟨_, spelled, long, rfl⟩
  · rintro ⟨numeral, spelled, long, rfl⟩
    exact .tooLong spelled long

/-- A text that denotes a symbol is its name. -/
theorem eq_of_readAtom_symbol {name : String} (h : readAtom text = .ok (.symbol name)) :
    name = text := by
  cases readAtom_eq_iff.mp h with
  | tooWide | name => rfl

/-- What is no integer, not the empty list and not refused is a name. -/
theorem readAtom_symbol_iff :
    readAtom text = .ok (.symbol text) ↔ (∀ n, readAtom text ≠ .ok (.int n)) ∧
      readAtom text ≠ .ok .nil ∧ ∀ failure, readAtom text ≠ .error failure := by
  constructor
  · intro h
    simp [h]
  · rintro ⟨notInt, notNil, notRefused⟩
    obtain ⟨answer, h⟩ := exists_atomDenotes text
    have read := h.readAtom_eq
    cases h with
    | integer => exact absurd read (notInt _)
    | tooLong => exact absurd read (notRefused _)
    | emptyList => exact absurd read notNil
    | tooWide | name => exact read

end Cases

namespace Text

/-- The number of a run of decimal digits, the last of which counts once. -/
theorem digitsValue_eq_ofDigits (digits : List Nat) :
    digitsValue digits = Nat.ofDigits 10 digits.reverse := by
  induction digits using List.reverseRecOn with
  | nil => rfl
  | append_singleton digits digit ih =>
      rw [digitsValue_concat, List.reverse_concat, Nat.ofDigits_cons, ih]
      simp [Nat.add_comm]

/-- A numeral denotes the number of its digits, with its sign. -/
theorem Numeral.value_eq_ofDigits (numeral : Numeral) :
    numeral.value =
      (if numeral.negative then -1 else 1) * (Nat.ofDigits 10 numeral.digits.reverse : Nat) := by
  rw [value, digitsValue_eq_ofDigits]
  split <;> simp

theorem digitsValue_leading_zeros (zeros : Nat) (digits : List Nat) :
    digitsValue (List.replicate zeros 0 ++ digits) = digitsValue digits := by
  induction zeros with
  | zero => rfl
  | succ zeros ih => exact ih

/-- The signs that an integer may be written with. -/
def signs (n : Int) : List (List Char) :=
  if n < 0 then [['-']] else [[], ['+']]

/-- The ways to write an integer with the given number of leading zeros. -/
def written (n : Int) (zeros : Nat) : List (List Char) :=
  (signs n).map (· ++ List.replicate zeros '0' ++ Nat.toDigits 10 n.natAbs)

/-- The written form is one of these ways. -/
theorem decimal_mem_written (n : Int) : decimal n ∈ written n 0 := by
  by_cases negative : n < 0 <;> simp [decimal, written, signs, negative]

/-- Each way to write an integer is a numeral of this value. -/
theorem spells_written {n : Int} {zeros : Nat} {chars : List Char} (mem : chars ∈ written n zeros) :
    ∃ numeral, Numeral.Spells chars numeral ∧ numeral.value = n ∧
      numeral.digits.length = zeros + (Nat.toDigits 10 n.natAbs).length := by
  obtain ⟨digits, small, spelled, value⟩ := exists_toDigits n.natAbs
  have present : List.replicate zeros 0 ++ digits ≠ [] := by
    rintro empty
    obtain ⟨-, rfl⟩ := List.append_eq_nil_iff.mp empty
    exact Nat.toDigits_ne_nil spelled
  have padded : ∀ d ∈ List.replicate zeros 0 ++ digits, d < 10 := by
    intro d mem
    obtain mem | mem := List.mem_append.mp mem
    · rw [List.eq_of_mem_replicate mem]
      decide
    · exact small d mem
  have value' : digitsValue (List.replicate zeros 0 ++ digits) = n.natAbs := by
    rw [digitsValue_leading_zeros, value]
  have count : (List.replicate zeros 0 ++ digits).length =
      zeros + (Nat.toDigits 10 n.natAbs).length := by
    simp [spelled]
  have text : List.replicate zeros '0' ++ Nat.toDigits 10 n.natAbs =
      (List.replicate zeros 0 ++ digits).map Nat.digitChar := by
    rw [spelled, List.map_append, List.map_replicate]
    rfl
  obtain ⟨sign, signed, rfl⟩ := List.mem_map.mp mem
  rw [List.append_assoc, text]
  by_cases negative : n < 0
  · obtain rfl : sign = ['-'] := by simpa [signs, negative] using signed
    refine ⟨_, .minus present padded, ?_, count⟩
    simp only [Numeral.value, if_true, value']
    omega
  · have value'' : (digitsValue (List.replicate zeros 0 ++ digits) : Int) = n := by
      rw [value']
      omega
    obtain rfl | rfl : sign = [] ∨ sign = ['+'] := by simpa [signs, negative] using signed
    · exact ⟨_, .unsigned present padded, value'', count⟩
    · exact ⟨_, .plus present padded, value'', count⟩

end Text

theorem readAtom_written {n : Int} {zeros : Nat} (inWord : InWord n)
    (short : zeros + (Nat.toDigits 10 n.natAbs).length ≤ digitLimit) {chars : List Char}
    (mem : chars ∈ written n zeros) : readAtom (String.ofList chars) = .ok (.int n) := by
  obtain ⟨numeral, spelled, value, count⟩ := spells_written mem
  refine readAtom_int_iff.mpr ⟨numeral, ?_, ?_, value, inWord⟩
  · rwa [String.toList_ofList]
  · rwa [count]

/-- Atoms are read exactly. A text denotes an integer if and only if it is an optional sign and one
or more decimal digits, not more than 4300, for this integer, and the integer is of the fixed width;
the empty list if and only if it is `nil`; it is refused if and only if it is an optional sign and
more than 4300 digits; and it is a symbol of exactly this name in all other cases, among them
integers out of the range. So an integer may be written with leading zeros and with the signs that
suit it, and different texts that denote symbols denote different ones. -/
theorem readAtom_exact :
    (∀ (text : String) (n : Int), readAtom text = .ok (.int n) ↔
      ∃ numeral, Numeral.Spells text.toList numeral ∧ numeral.digits.length ≤ 4300 ∧
        n = (if numeral.negative then -1 else 1) * (Nat.ofDigits 10 numeral.digits.reverse : Nat) ∧
        -2 ^ 63 ≤ n ∧ n ≤ 2 ^ 63 - 1) ∧
    (∀ text, readAtom text = .ok .nil ↔ text = "nil") ∧
    (∀ text failure, readAtom text = .error failure ↔
      ∃ numeral, Numeral.Spells text.toList numeral ∧ 4300 < numeral.digits.length ∧
        failure = .numeralTooLong numeral.digits.length) ∧
    (∀ text, readAtom text = .ok (.symbol text) ↔ (∀ n, readAtom text ≠ .ok (.int n)) ∧
      readAtom text ≠ .ok .nil ∧ ∀ failure, readAtom text ≠ .error failure) ∧
    (∀ n, InWord n → decimal n ∈ written n 0 ∧
      ∀ zeros, zeros + (Nat.toDigits 10 n.natAbs).length ≤ 4300 →
        ∀ chars ∈ written n zeros, readAtom (String.ofList chars) = .ok (.int n)) ∧
    ∀ text text' name name', readAtom text = .ok (.symbol name) →
      readAtom text' = .ok (.symbol name') → text ≠ text' → name ≠ name' := by
  refine ⟨fun text n => ?_, fun _ => readAtom_nil_iff, fun _ _ => readAtom_error_iff,
    fun _ => readAtom_symbol_iff, fun n inWord => ⟨decimal_mem_written n, fun zeros short _ =>
      readAtom_written inWord short⟩, fun text text' name name' h h' different => ?_⟩
  · simp only [readAtom_int_iff, ← Numeral.value_eq_ofDigits, eq_comm (a := n)]
    rfl
  · rwa [eq_of_readAtom_symbol h, eq_of_readAtom_symbol h']

/-- Seven may be written with a plus sign and two leading zeros. The first numeral beyond the
greatest integer is a symbol, and another one than the same numeral with a plus sign. -/
theorem readAtom_exact_limits :
    (InWord 7 ∧ 2 + (Nat.toDigits 10 7).length ≤ 4300 ∧ "+007".toList ∈ written 7 2 ∧
      readAtom "+007" = .ok (.int 7)) ∧
    (readAtom "9223372036854775808" = .ok (.symbol "9223372036854775808") ∧
      readAtom "+9223372036854775808" = .ok (.symbol "+9223372036854775808") ∧
      "9223372036854775808" ≠ "+9223372036854775808") := by
  have inWord : InWord 7 := by decide
  have short : 2 + (Nat.toDigits 10 7).length ≤ 4300 := by decide
  have way : "+007".toList ∈ written 7 2 := by decide
  have unsigned : readAtom "9223372036854775808" = .ok (.symbol "9223372036854775808") := by
    decide
  have signed : readAtom "+9223372036854775808" = .ok (.symbol "+9223372036854775808") := by
    decide
  obtain ⟨-, -, -, -, integers, symbols⟩ := readAtom_exact
  refine ⟨⟨inWord, short, way, (integers 7 inWord).2 2 short _ way⟩, unsigned, signed, ?_⟩
  exact symbols _ _ _ _ unsigned signed (by decide)

end PocketLisp
