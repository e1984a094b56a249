import PocketLisp.Reader.Token

/-!
# Cutting a text between two atoms

The lexemes of a text are those of its two parts when the second part does not go on with an atom
of the first (`lexemes_append`). A blank or a character that is a lexeme of its own always makes
such a cut, so the spellings of lexemes can be put together from left to right.

Offsets play no part in this: `lexemes` forgets them. The one fact about offsets that reading needs
is that the last token stops at the end of a text which does not end in a blank
(`exists_last_token`).
-/

namespace PocketLisp

open Text

/-- A character that can stand in an atom. -/
def AtomChar (c : Char) : Prop :=
  isBlank c = false ∧ c ≠ '(' ∧ c ≠ ')' ∧ c ≠ '\''

/-- A run of characters that is one atom when nothing joins it. -/
def AtomText (chars : List Char) : Prop :=
  chars ≠ [] ∧ ∀ c ∈ chars, AtomChar c

/-- A text that does not go on with an atom begun before it. -/
def Delimited (chars : List Char) : Prop :=
  ∀ c ∈ chars.head?, ¬ AtomChar c

theorem Delimited.nil : Delimited [] := by
  simp [Delimited]

theorem Delimited.blank {c : Char} (blank : isBlank c = true) (rest : List Char) :
    Delimited (c :: rest) := by
  simp [Delimited, AtomChar, blank]

theorem Delimited.closing (rest : List Char) : Delimited (')' :: rest) := by
  simp [Delimited, AtomChar]

theorem Lexeme.ofChar?_eq_none_iff {c : Char} :
    ofChar? c = none ↔ c ≠ '(' ∧ c ≠ ')' ∧ c ≠ '\'' := by
  unfold ofChar?
  split <;> simp_all

/-- No blank is a lexeme. -/
theorem Lexeme.isBlank_of_ofChar? {c : Char} {lexeme : Lexeme} (h : ofChar? c = some lexeme) :
    isBlank c = false := by
  unfold ofChar? at h
  split at h
  · decide
  · decide
  · decide
  · contradiction

theorem AtomChar.ofChar? {c : Char} (h : AtomChar c) : Lexeme.ofChar? c = none :=
  Lexeme.ofChar?_eq_none_iff.mpr h.2

theorem atomChar_of_ofChar? {c : Char} (present : isBlank c = false)
    (h : Lexeme.ofChar? c = none) : AtomChar c :=
  ⟨present, Lexeme.ofChar?_eq_none_iff.mp h⟩

namespace Token

section Scan

variable (offset : Nat) (openAtom : List Char) (found : List Token)

theorem scan_blank {c : Char} (blank : isBlank c = true) (rest : List Char) :
    scan offset openAtom found (c :: rest) =
      scan (offset + 1) [] (endAtom openAtom offset found) rest := by
  rw [scan, if_pos blank]

theorem scan_single {c : Char} {lexeme : Lexeme} (h : Lexeme.ofChar? c = some lexeme)
    (rest : List Char) :
    scan offset openAtom found (c :: rest) =
      scan (offset + 1) [] (⟨lexeme, offset + 1⟩ :: endAtom openAtom offset found) rest := by
  rw [scan, if_neg (by simp [Lexeme.isBlank_of_ofChar? h]), h]

theorem scan_atomChar {c : Char} (h : AtomChar c) (rest : List Char) :
    scan offset openAtom found (c :: rest) =
      scan (offset + 1) (c :: openAtom) found rest := by
  rw [scan, if_neg (by simp [h.1]), h.ofChar?]

end Scan

/-- Every character is blank, a lexeme of its own, or part of an atom. -/
theorem char_cases (c : Char) :
    isBlank c = true ∨ (∃ lexeme, Lexeme.ofChar? c = some lexeme) ∨ AtomChar c := by
  cases blank : isBlank c with
  | true => exact .inl rfl
  | false =>
      cases single : Lexeme.ofChar? c with
      | some lexeme => exact .inr (.inl ⟨lexeme, rfl⟩)
      | none => exact .inr (.inr (atomChar_of_ofChar? blank single))

/-- The tokens of a text are cut where its second part does not go on with an atom. -/
theorem scan_append {rest : List Char} (delimited : Delimited rest) (offset : Nat)
    (openAtom : List Char) (found : List Token) (chars : List Char) :
    scan offset openAtom found (chars ++ rest) =
      scan offset openAtom found chars ++ scan (offset + chars.length) [] [] rest := by
  induction chars generalizing offset openAtom found with
  | nil =>
      cases rest with
      | nil => simp [scan, endAtom]
      | cons c rest =>
          obtain blank | ⟨lexeme, single⟩ | atom := char_cases c
          · rw [List.nil_append, scan_blank _ _ _ blank, scan_blank _ _ _ blank, scan_eq_append]
            rfl
          · rw [List.nil_append, scan_single _ _ _ single, scan_single _ _ _ single,
              scan_eq_append, scan_eq_append _ _ _ (_ :: endAtom [] _ _)]
            simp [scan, endAtom]
          · exact absurd atom (delimited c rfl)
  | cons c chars ih =>
      have count : offset + (c :: chars).length = offset + 1 + chars.length := by
        rw [List.length_cons]
        omega
      rw [List.cons_append, count]
      obtain blank | ⟨lexeme, single⟩ | atom := char_cases c
      · simp only [scan_blank _ _ _ blank, ih]
      · simp only [scan_single _ _ _ single, ih]
      · simp only [scan_atomChar _ _ _ atom, ih]

/-- The offset of the first character and the stops found before it decide no lexeme. -/
theorem map_lexeme_scan {offset offset' : Nat} {openAtom : List Char} {found found' : List Token}
    (same : found.map lexeme = found'.map lexeme) (chars : List Char) :
    (scan offset openAtom found chars).map lexeme =
      (scan offset' openAtom found' chars).map lexeme := by
  have same_end (offset offset' : Nat) (openAtom : List Char) {found found' : List Token}
      (same : found.map lexeme = found'.map lexeme) :
      (endAtom openAtom offset found).map lexeme =
        (endAtom openAtom offset' found').map lexeme := by
    cases openAtom <;> simp [endAtom, same]
  induction chars generalizing offset offset' openAtom found found' with
  | nil => simp only [scan, List.map_reverse, same_end offset offset' openAtom same]
  | cons c rest ih =>
      obtain blank | ⟨lexeme, single⟩ | atom := char_cases c
      · simp only [scan_blank _ _ _ blank]
        exact ih (same_end _ _ _ same)
      · simp only [scan_single _ _ _ single]
        exact ih (by simp [same_end offset offset' openAtom same])
      · simp only [scan_atomChar _ _ _ atom]
        exact ih same

/-- Blanks in front of a text are passed. -/
theorem scan_blanks (offset : Nat) {gap : List Char} (blank : ∀ c ∈ gap, isBlank c = true)
    (rest : List Char) :
    scan offset [] [] (gap ++ rest) = scan (offset + gap.length) [] [] rest := by
  induction gap generalizing offset with
  | nil => rfl
  | cons c gap ih =>
      obtain ⟨first, others⟩ := List.forall_mem_cons.mp blank
      rw [List.cons_append, scan_blank _ _ _ first, endAtom, ih _ others, List.length_cons,
        Nat.add_right_comm, Nat.add_assoc]

/-- An atom in front of a text is one token. -/
theorem scan_atom (offset : Nat) {chars rest : List Char} (atom : AtomText chars)
    (delimited : Delimited rest) :
    scan offset [] [] (chars ++ rest) =
      ⟨.atom (String.ofList chars), offset + chars.length⟩ ::
        scan (offset + chars.length) [] [] rest := by
  have grows (openAtom chars : List Char) (legal : ∀ c ∈ chars, AtomChar c) (offset : Nat) :
      scan offset openAtom [] chars =
        scan (offset + chars.length) (chars.reverse ++ openAtom) [] [] := by
    induction chars generalizing openAtom offset with
    | nil => rfl
    | cons c chars ih =>
        obtain ⟨first, others⟩ := List.forall_mem_cons.mp legal
        rw [scan_atomChar _ _ _ first, ih _ others]
        simp [Nat.add_comm, Nat.add_left_comm]
  obtain ⟨c, init, spelled⟩ := List.exists_cons_of_ne_nil (List.reverse_ne_nil_iff.mpr atom.1)
  rw [scan_append delimited, grows [] chars atom.2]
  simp [scan, endAtom, spelled, ← List.reverse_eq_iff.mp spelled]

/-- In a text that does not end in a blank, the last token stops where the text ends. -/
theorem exists_last_token {c : Char} (present : isBlank c = false) (offset : Nat)
    (openAtom : List Char) (found : List Token) (chars : List Char) :
    ∃ tokens token, scan offset openAtom found (chars ++ [c]) = tokens ++ [token] ∧
      token.stop = offset + (chars ++ [c]).length := by
  induction chars generalizing offset openAtom found with
  | nil =>
      obtain blank | ⟨lexeme, single⟩ | atom := char_cases c
      · simp [present] at blank
      · refine ⟨(endAtom openAtom offset found).reverse, ⟨lexeme, offset + 1⟩, ?_, rfl⟩
        rw [List.nil_append, scan_single _ _ _ single, scan, endAtom, List.reverse_cons]
      · refine ⟨found.reverse, ⟨.atom (String.ofList (c :: openAtom).reverse), offset + 1⟩, ?_, rfl⟩
        rw [List.nil_append, scan_atomChar _ _ _ atom, scan, endAtom, List.reverse_cons]
  | cons c' chars ih =>
      have count : offset + (c' :: chars ++ [c]).length = offset + 1 + (chars ++ [c]).length := by
        simp only [List.cons_append, List.length_cons]
        omega
      rw [count]
      obtain blank | ⟨lexeme, single⟩ | atom := char_cases c'
      · simpa only [List.cons_append, scan_blank _ _ _ blank] using ih ..
      · simpa only [List.cons_append, scan_single _ _ _ single] using ih ..
      · simpa only [List.cons_append, scan_atomChar _ _ _ atom] using ih ..

/-- An atom that is found is the spelling of one. -/
theorem atomText_of_mem_scan {offset : Nat} {openAtom : List Char} {chars : List Char}
    (legal : ∀ c ∈ openAtom, AtomChar c) {token : Token} {text : String}
    (h : token ∈ scan offset openAtom [] chars) (atom : token.lexeme = .atom text) :
    AtomText text.toList := by
  have ended (offset : Nat) (openAtom : List Char) (legal : ∀ c ∈ openAtom, AtomChar c)
      (h : token ∈ endAtom openAtom offset []) : AtomText text.toList := by
    cases openAtom with
    | nil => simp [endAtom] at h
    | cons c rest =>
        obtain rfl : token = ⟨.atom (String.ofList (c :: rest).reverse), offset⟩ := by
          simpa [endAtom] using h
        obtain rfl := Lexeme.atom.inj atom
        simp only [String.toList_ofList]
        exact ⟨by simp, fun c hc => legal c (List.mem_reverse.mp hc)⟩
  induction chars generalizing offset openAtom with
  | nil =>
      rw [scan, List.mem_reverse] at h
      exact ended offset openAtom legal h
  | cons c rest ih =>
      obtain blank | ⟨lexeme, single⟩ | atomChar := char_cases c
      · rw [scan_blank _ _ _ blank, scan_eq_append, List.mem_append, List.mem_reverse] at h
        exact h.elim (ended offset openAtom legal) (ih (by simp))
      · rw [scan_single _ _ _ single, scan_eq_append, List.mem_append, List.mem_reverse,
          List.mem_cons] at h
        obtain (rfl | h) | h := h
        · unfold Lexeme.ofChar? at single
          split at single <;> simp_all
        · exact ended offset openAtom legal h
        · exact ih (by simp) h
      · rw [scan_atomChar _ _ _ atomChar] at h
        exact ih (by simpa using ⟨atomChar, legal⟩) h

end Token

/-- The lexemes of a text. -/
def lexemes (chars : List Char) : List Lexeme :=
  (Token.scan 0 [] [] chars).map Token.lexeme

theorem lexemes_nil : lexemes [] = [] := rfl

/-- The lexemes of a text are cut where its second part does not go on with an atom. -/
theorem lexemes_append (chars : List Char) {rest : List Char} (delimited : Delimited rest) :
    lexemes (chars ++ rest) = lexemes chars ++ lexemes rest := by
  rw [lexemes, Token.scan_append delimited, List.map_append]
  exact congrArg _ (Token.map_lexeme_scan rfl rest)

theorem lexemes_blank {c : Char} (blank : isBlank c = true) (rest : List Char) :
    lexemes (c :: rest) = lexemes rest := by
  rw [lexemes, Token.scan_blank _ _ _ blank]
  exact Token.map_lexeme_scan rfl rest

theorem lexemes_single {c : Char} {lexeme : Lexeme} (h : Lexeme.ofChar? c = some lexeme)
    (rest : List Char) : lexemes (c :: rest) = lexeme :: lexemes rest := by
  rw [lexemes, Token.scan_single _ _ _ h, Token.scan_eq_append, List.map_append]
  exact congrArg _ (Token.map_lexeme_scan rfl rest)

theorem lexemes_blanks {gap : List Char} (blank : ∀ c ∈ gap, isBlank c = true)
    (rest : List Char) : lexemes (gap ++ rest) = lexemes rest := by
  rw [lexemes, Token.scan_blanks 0 blank]
  exact Token.map_lexeme_scan rfl rest

/-- An atom is read whole. -/
theorem lexemes_atom {chars rest : List Char} (atom : AtomText chars)
    (delimited : Delimited rest) :
    lexemes (chars ++ rest) = .atom (String.ofList chars) :: lexemes rest := by
  rw [lexemes, Token.scan_atom 0 atom delimited, List.map_cons]
  exact congrArg _ (Token.map_lexeme_scan rfl rest)

/-- A blank cuts a text. -/
theorem lexemes_append_blank (chars : List Char) {c : Char} (blank : isBlank c = true)
    (rest : List Char) : lexemes (chars ++ c :: rest) = lexemes chars ++ lexemes rest := by
  rw [lexemes_append _ (.blank blank rest), lexemes_blank blank]

/-- The atoms of a text are spellings of atoms. -/
theorem atomText_of_mem_lexemes {chars : List Char} {text : String}
    (h : .atom text ∈ lexemes chars) : AtomText text.toList := by
  obtain ⟨token, mem, atom⟩ := List.mem_map.mp h
  exact Token.atomText_of_mem_scan (by simp) mem atom

end PocketLisp
