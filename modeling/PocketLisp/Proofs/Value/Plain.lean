import PocketLisp.Proofs.Reader.Lexeme
import PocketLisp.Proofs.Text.Numeral
import PocketLisp.Value.Equal

/-!
# Plain data

Plain data can be written down: they are built from the empty list, integers of the fixed width,
symbols with legal names, and pairs. A name is legal if it is an atom that reads as nothing else,
so it is not `nil` and not a numeral that is taken for an integer or refused.

The atom `.` is a legal name, but in a list it can be taken for the point before a tail.
`NoInnerPoint` excludes the places where that happens.
-/

namespace PocketLisp

instance (c : Char) : Decidable (AtomChar c) :=
  inferInstanceAs (Decidable (_ ∧ _ ∧ _ ∧ _))

instance (chars : List Char) : Decidable (AtomText chars) :=
  decidable_of_iff (chars ≠ [] ∧ chars.all fun c => decide (AtomChar c)) (by simp [AtomText])

/-- A name that a text can spell: one atom, which is not the empty list, nor a numeral for an
integer of the fixed width, nor a numeral with too many digits. -/
structure LegalName (name : String) : Prop where
  atom : AtomText name.toList
  notNil : name ≠ "nil"
  notInteger : ∀ numeral, Text.Numeral.Spells name.toList numeral →
    numeral.digits.length ≤ Text.digitLimit ∧ ¬ InWord numeral.value

theorem legalName_iff {name : String} :
    LegalName name ↔ AtomText name.toList ∧ name ≠ "nil" ∧
      ∀ numeral ∈ Text.Numeral.ofChars? name.toList,
        numeral.digits.length ≤ Text.digitLimit ∧ ¬ InWord numeral.value := by
  simp only [Option.mem_def, Text.Numeral.ofChars?_eq_some_iff]
  exact ⟨fun h => ⟨h.atom, h.notNil, h.notInteger⟩, fun h => ⟨h.1, h.2.1, h.2.2⟩⟩

instance (name : String) : Decidable (LegalName name) :=
  decidable_of_iff' _ legalName_iff

namespace Value

/-- Data that a text can spell. -/
def Plain : Value → Prop
  | nil => True
  | int n => InWord n
  | symbol name => LegalName name
  | pair first rest => first.Plain ∧ rest.Plain
  | procedure .. | closure .. => False

theorem plain_nil : nil.Plain := trivial

instance decidablePlain : (v : Value) → Decidable v.Plain
  | nil => inferInstanceAs (Decidable True)
  | int n => inferInstanceAs (Decidable (InWord n))
  | symbol name => inferInstanceAs (Decidable (LegalName name))
  | pair first rest =>
      have := decidablePlain first
      have := decidablePlain rest
      inferInstanceAs (Decidable (first.Plain ∧ rest.Plain))
  | procedure .. | closure .. => inferInstanceAs (Decidable False)

/-- The symbol that is spelled like the point before a tail. -/
def point : Value := symbol "."

/-- The value is a pair that starts with the point. -/
def StartsWithPoint (v : Value) : Prop :=
  ∃ rest, v = pair point rest

instance (v : Value) : Decidable v.StartsWithPoint :=
  match v with
  | pair first rest =>
      decidable_of_iff (first = point) (by simp [StartsWithPoint])
  | nil | int _ | symbol _ | procedure .. | closure .. => .isFalse (by simp [StartsWithPoint])

/-- No pair that is the rest of another pair starts with the point. -/
def NoInnerPoint : Value → Prop
  | pair first rest => first.NoInnerPoint ∧ rest.NoInnerPoint ∧ ¬ rest.StartsWithPoint
  | _ => True

instance decidableNoInnerPoint : (v : Value) → Decidable v.NoInnerPoint
  | pair first rest =>
      have := decidableNoInnerPoint first
      have := decidableNoInnerPoint rest
      inferInstanceAs
        (Decidable (first.NoInnerPoint ∧ rest.NoInnerPoint ∧ ¬ rest.StartsWithPoint))
  | nil | int _ | symbol _ | procedure .. | closure .. => inferInstanceAs (Decidable True)

/-- How many pairs a value is built from, each counted where it occurs. -/
def pairs : Value → Nat
  | pair first rest => first.pairs + rest.pairs + 1
  | _ => 0

theorem pairs_of_equal {v w : Value} (h : v.equal w = true) : v.pairs = w.pairs := by
  induction v generalizing w with
  | pair first rest ihFirst ihRest =>
      cases w with
      | pair first' rest' =>
          obtain ⟨hfirst, hrest⟩ := Bool.and_eq_true_iff.mp h
          rw [pairs, pairs, ihFirst hfirst, ihRest hrest]
      | _ => contradiction
  | _ => cases w <;> first | rfl | contradiction

theorem plain_ofList {items : List Value} {tail : Value} (plain : ∀ v ∈ items, v.Plain)
    (plainTail : tail.Plain) : (ofList items tail).Plain := by
  induction items with
  | nil => exact plainTail
  | cons item items ih =>
      exact ⟨plain item (by simp), ih fun v hv => plain v (by simp [hv])⟩

end Value

end PocketLisp
