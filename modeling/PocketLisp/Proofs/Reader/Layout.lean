import Mathlib.Data.List.Chain
import Mathlib.Logic.ExistsUnique
import PocketLisp.Proofs.Reader.Lexeme

/-!
# The layout of a text

A text consists of tokens with gaps of blanks in front of, between and behind them. A gap may be
empty, except between two atoms, which would be one atom otherwise. A `Layout` is such a
decomposition, and every text has exactly one (`existsUnique_layout`): of the first character it is
determined whether it belongs to a gap, is a token, or continues the atom behind it, so a layout is
found and recognized character by character, from the end of the text (`Layout.prepend`).

The tokens of a text are those of its layout. Each stops where its spelling ends, and they stop one
behind the other.
-/

namespace PocketLisp

open Text

/-- The lexeme is an atom. -/
def Lexeme.IsAtom (lexeme : Lexeme) : Prop := ∃ text, lexeme = .atom text

/-- The text of an atom is a run of atom characters. -/
def Lexeme.WellSpelled (lexeme : Lexeme) : Prop :=
  ∀ text, lexeme = .atom text → AtomText text.toList

/-- A gap, and lexemes that are each followed by a gap. -/
structure Layout where
  lead : List Char
  parts : List (Lexeme × List Char)
  deriving Repr, DecidableEq

namespace Layout

/-- The characters of lexemes and of the gaps behind them. -/
def partChars (parts : List (Lexeme × List Char)) : List Char :=
  parts.flatMap fun part => part.1.text.toList ++ part.2

/-- The text that is laid out. -/
def chars (l : Layout) : List Char :=
  l.lead ++ partChars l.parts

/-- The tokens of lexemes and gaps that begin at the given offset. -/
def tokensFrom (offset : Nat) : List (Lexeme × List Char) → List Token
  | [] => []
  | (lexeme, gap) :: parts =>
    ⟨lexeme, offset + lexeme.text.length⟩ ::
      tokensFrom (offset + lexeme.text.length + gap.length) parts

/-- The tokens of a layout. -/
def tokens (l : Layout) : List Token :=
  tokensFrom l.lead.length l.parts

/-- Two atoms have a blank between them. -/
def Apart (part next : Lexeme × List Char) : Prop :=
  part.1.IsAtom → next.1.IsAtom → part.2 ≠ []

/-- The layout does not begin with an atom. -/
def NoAtomInFront (l : Layout) : Prop :=
  l.lead = [] → ∀ part ∈ l.parts.head?, ¬ part.1.IsAtom

/-- Gaps hold blanks only, atoms are runs of atom characters, and no two of them touch. -/
structure Valid (l : Layout) : Prop where
  lead : ∀ c ∈ l.lead, isBlank c = true
  gaps : ∀ part ∈ l.parts, ∀ c ∈ part.2, isBlank c = true
  spelled : ∀ part ∈ l.parts, part.1.WellSpelled
  apart : l.parts.IsChain Apart

/-- The layout is a decomposition of the text. -/
def Decomposes (l : Layout) (text : List Char) : Prop :=
  l.Valid ∧ l.chars = text

/-- Puts an atom character in front of a layout: it joins the atom there, or is one itself. -/
def prependAtom (c : Char) : Layout → Layout
  | ⟨[], (.atom text, gap) :: parts⟩ =>
    ⟨[], (.atom (String.ofList (c :: text.toList)), gap) :: parts⟩
  | ⟨lead, parts⟩ => ⟨[], (.atom (String.ofList [c]), lead) :: parts⟩

/-- The layout of a text with one more character in front. -/
def prepend (c : Char) (l : Layout) : Layout :=
  if isBlank c then ⟨c :: l.lead, l.parts⟩
  else
    match Lexeme.ofChar? c with
    | some lexeme => ⟨[], (lexeme, l.lead) :: l.parts⟩
    | none => prependAtom c l

section Characters

variable {c : Char} {l : Layout} {lead gap : List Char} {parts : List (Lexeme × List Char)}

@[simp] theorem partChars_nil : partChars [] = [] := rfl

@[simp] theorem partChars_cons (lexeme : Lexeme) (gap : List Char)
    (parts : List (Lexeme × List Char)) :
    partChars ((lexeme, gap) :: parts) = lexeme.text.toList ++ gap ++ partChars parts := by
  simp [partChars]

theorem prepend_blank (blank : isBlank c = true) (l : Layout) :
    prepend c l = ⟨c :: l.lead, l.parts⟩ := by
  rw [prepend, if_pos blank]

theorem prepend_single {lexeme : Lexeme} (single : Lexeme.ofChar? c = some lexeme) (l : Layout) :
    prepend c l = ⟨[], (lexeme, l.lead) :: l.parts⟩ := by
  rw [prepend, if_neg (by simp [Lexeme.isBlank_of_ofChar? single]), single]

theorem prepend_atomChar (atom : AtomChar c) (l : Layout) : prepend c l = prependAtom c l := by
  rw [prepend, if_neg (by simp [atom.1]), atom.ofChar?]

theorem prepend_joined (atom : AtomChar c) (text : String) :
    prepend c ⟨[], (.atom text, gap) :: parts⟩ =
      ⟨[], (.atom (String.ofList (c :: text.toList)), gap) :: parts⟩ := by
  rw [prepend_atomChar atom]
  rfl

/-- An atom character stands alone in front of a blank, of another token, and of nothing. -/
theorem prepend_alone (atom : AtomChar c) (alone : l.NoAtomInFront) :
    prepend c l = ⟨[], (.atom (String.ofList [c]), l.lead) :: l.parts⟩ := by
  rw [prepend_atomChar atom]
  unfold prependAtom
  split
  · next text gap parts =>
    exact absurd ⟨text, rfl⟩ (alone rfl _ rfl)
  · rfl

theorem atom_or_noAtomInFront (l : Layout) :
    (∃ text gap parts, l = ⟨[], (.atom text, gap) :: parts⟩) ∨ l.NoAtomInFront := by
  obtain ⟨lead, parts⟩ := l
  by_cases touches : lead = [] ∧ ∃ text gap rest, parts = (.atom text, gap) :: rest
  · obtain ⟨rfl, text, gap, rest, rfl⟩ := touches
    exact .inl ⟨text, gap, rest, rfl⟩
  · refine .inr fun empty part first isAtom => touches ⟨empty, ?_⟩
    obtain ⟨text, spelled⟩ := isAtom
    obtain ⟨rest, rfl⟩ := List.head?_eq_some_iff.mp first
    exact ⟨text, part.2, rest, by rw [← spelled]⟩

theorem text_of_ofChar? {lexeme : Lexeme} (single : Lexeme.ofChar? c = some lexeme) :
    lexeme.text.toList = [c] ∧ ¬ lexeme.IsAtom := by
  unfold Lexeme.ofChar? at single
  split at single
  · cases single
    exact ⟨rfl, by rintro ⟨_, ⟨⟩⟩⟩
  · cases single
    exact ⟨rfl, by rintro ⟨_, ⟨⟩⟩⟩
  · cases single
    exact ⟨rfl, by rintro ⟨_, ⟨⟩⟩⟩
  · cases single

/-- A lexeme that is no atom is spelled by one character. -/
theorem exists_single {lexeme : Lexeme} (other : ¬ lexeme.IsAtom) :
    ∃ c, lexeme.text.toList = [c] ∧ Lexeme.ofChar? c = some lexeme := by
  cases lexeme with
  | atom text => exact absurd ⟨text, rfl⟩ other
  | opening => exact ⟨'(', rfl, rfl⟩
  | closing => exact ⟨')', rfl, rfl⟩
  | quote => exact ⟨'\'', rfl, rfl⟩

theorem chars_prepend (c : Char) (l : Layout) : (prepend c l).chars = c :: l.chars := by
  obtain blank | ⟨lexeme, single⟩ | atom := Token.char_cases c
  · rw [prepend_blank blank]
    rfl
  · rw [prepend_single single]
    simp [chars, (text_of_ofChar? single).1]
  · obtain ⟨text, gap, parts, rfl⟩ | alone := atom_or_noAtomInFront l
    · rw [prepend_joined atom]
      simp [chars, Lexeme.text]
    · rw [prepend_alone atom alone]
      simp [chars, Lexeme.text]

end Characters

section Valid

variable {c : Char} {l l' : Layout} {lead gap text rest : List Char} {lexeme : Lexeme}
variable {parts : List (Lexeme × List Char)}

theorem valid_blank_iff : Valid ⟨c :: lead, parts⟩ ↔ isBlank c = true ∧ Valid ⟨lead, parts⟩ := by
  constructor
  · rintro ⟨blanks, gaps, spelled, apart⟩
    obtain ⟨blank, blanks⟩ := List.forall_mem_cons.mp blanks
    exact ⟨blank, blanks, gaps, spelled, apart⟩
  · rintro ⟨blank, blanks, gaps, spelled, apart⟩
    exact ⟨List.forall_mem_cons.mpr ⟨blank, blanks⟩, gaps, spelled, apart⟩

/-- What is behind the first token is laid out with the gap there as its first one. -/
theorem valid_token_iff : Valid ⟨[], (lexeme, gap) :: parts⟩ ↔
    lexeme.WellSpelled ∧ Valid ⟨gap, parts⟩ ∧
      (lexeme.IsAtom → NoAtomInFront ⟨gap, parts⟩) := by
  constructor
  · rintro ⟨-, gaps, spelled, apart⟩
    obtain ⟨blanks, gaps⟩ := List.forall_mem_cons.mp gaps
    obtain ⟨first, spelled⟩ := List.forall_mem_cons.mp spelled
    obtain ⟨here, apart⟩ := List.isChain_cons.mp apart
    exact ⟨first, ⟨blanks, gaps, spelled, apart⟩, fun isAtom empty part next isAtom' =>
      here part next isAtom isAtom' empty⟩
  · rintro ⟨first, ⟨blanks, gaps, spelled, apart⟩, here⟩
    refine ⟨List.forall_mem_nil _, List.forall_mem_cons.mpr ⟨blanks, gaps⟩,
      List.forall_mem_cons.mpr ⟨first, spelled⟩, List.isChain_cons.mpr ⟨?_, apart⟩⟩
    exact fun part next isAtom isAtom' empty => here isAtom empty part next isAtom'

theorem wellSpelled_of_not_isAtom (other : ¬ lexeme.IsAtom) : lexeme.WellSpelled :=
  fun text same => absurd ⟨text, same⟩ other

theorem wellSpelled_atom (atom : AtomText text) :
    (Lexeme.atom (String.ofList text)).WellSpelled := by
  rintro _ ⟨⟩
  rwa [String.toList_ofList]

theorem Valid.prepend (valid : l.Valid) (c : Char) : (l.prepend c).Valid := by
  obtain blank | ⟨lexeme, single⟩ | atom := Token.char_cases c
  · rw [prepend_blank blank]
    exact valid_blank_iff.mpr ⟨blank, valid⟩
  · rw [prepend_single single]
    have other := (text_of_ofChar? single).2
    exact valid_token_iff.mpr ⟨wellSpelled_of_not_isAtom other, valid, fun isAtom =>
      absurd isAtom other⟩
  · obtain ⟨text, gap, parts, rfl⟩ | alone := atom_or_noAtomInFront l
    · obtain ⟨spelled, valid, apart⟩ := valid_token_iff.mp valid
      rw [prepend_joined atom]
      refine valid_token_iff.mpr ⟨wellSpelled_atom ⟨by simp, ?_⟩, valid, fun _ => apart ⟨text, rfl⟩⟩
      exact List.forall_mem_cons.mpr ⟨atom, (spelled text rfl).2⟩
    · rw [prepend_alone atom alone]
      exact valid_token_iff.mpr ⟨wellSpelled_atom ⟨by simp, by simpa using atom⟩, valid,
        fun _ => alone⟩

/-- A layout of a text is a layout of the text behind its first character, with that character in
front. -/
theorem Valid.exists_prepend (valid : l.Valid) (begins : l.chars = c :: rest) :
    ∃ l' : Layout, l'.Decomposes rest ∧ l = l'.prepend c := by
  obtain ⟨lead, parts⟩ := l
  match lead, parts with
  | b :: lead, parts =>
      obtain ⟨blank, valid⟩ := valid_blank_iff.mp valid
      obtain ⟨rfl, rfl⟩ := List.cons_eq_cons.mp begins
      exact ⟨⟨lead, parts⟩, ⟨valid, rfl⟩, (prepend_blank blank ⟨lead, parts⟩).symm⟩
  | [], [] => cases begins
  | [], (lexeme, gap) :: parts =>
      obtain ⟨spelled, behind, apart⟩ := valid_token_iff.mp valid
      by_cases isAtom : lexeme.IsAtom
      · obtain ⟨text, rfl⟩ := isAtom
        obtain ⟨present, legal⟩ := spelled text rfl
        obtain ⟨b, more, characters⟩ := List.exists_cons_of_ne_nil present
        obtain ⟨atom, legal⟩ := List.forall_mem_cons.mp (characters ▸ legal)
        simp only [chars, List.nil_append, partChars_cons, Lexeme.text, characters,
          List.cons_append, List.append_assoc] at begins
        obtain ⟨rfl, rfl⟩ := List.cons_eq_cons.mp begins
        have whole : text = String.ofList (b :: more) := by rw [← characters, String.ofList_toList]
        -- One character is an atom by itself; of several the first joins the others.
        cases more with
        | nil =>
            refine ⟨⟨gap, parts⟩, ⟨behind, by simp [chars]⟩, ?_⟩
            rw [prepend_alone atom (apart ⟨text, rfl⟩), whole]
        | cons b' more =>
            refine ⟨⟨[], (.atom (String.ofList (b' :: more)), gap) :: parts⟩, ⟨?_, ?_⟩, ?_⟩
            · exact valid_token_iff.mpr ⟨wellSpelled_atom ⟨by simp, legal⟩, behind,
                fun _ => apart ⟨text, rfl⟩⟩
            · simp [chars, Lexeme.text]
            · rw [prepend_joined atom, whole, String.toList_ofList]
      · obtain ⟨b, characters, single⟩ := exists_single isAtom
        simp only [chars, List.nil_append, partChars_cons, characters,
          List.cons_append] at begins
        obtain ⟨rfl, rfl⟩ := List.cons_eq_cons.mp begins
        exact ⟨⟨gap, parts⟩, ⟨behind, rfl⟩, (prepend_single single ⟨gap, parts⟩).symm⟩

/-- Only the layout without tokens and blanks is empty. -/
theorem Valid.eq_of_chars_eq_nil (valid : l.Valid) (empty : l.chars = []) : l = ⟨[], []⟩ := by
  obtain ⟨lead, parts⟩ := l
  obtain ⟨rfl, none⟩ := List.append_eq_nil_iff.mp empty
  cases parts with
  | nil => rfl
  | cons part parts =>
      obtain ⟨lexeme, gap⟩ := part
      obtain ⟨spelled, -, -⟩ := valid_token_iff.mp valid
      simp only [partChars_cons, List.append_eq_nil_iff] at none
      by_cases isAtom : lexeme.IsAtom
      · obtain ⟨text, rfl⟩ := isAtom
        exact absurd none.1.1 (spelled text rfl).1
      · obtain ⟨b, characters, -⟩ := exists_single isAtom
        rw [characters] at none
        cases none.1.1

theorem exists_decomposes (text : List Char) : ∃ l : Layout, l.Decomposes text := by
  induction text with
  | nil =>
      exact ⟨⟨[], []⟩, ⟨List.forall_mem_nil _, List.forall_mem_nil _, List.forall_mem_nil _, .nil⟩,
        rfl⟩
  | cons c text ih =>
      obtain ⟨l, valid, rfl⟩ := ih
      exact ⟨l.prepend c, valid.prepend c, chars_prepend c l⟩

theorem Decomposes.unique (h : l.Decomposes text) (h' : l'.Decomposes text) : l = l' := by
  induction text generalizing l l' with
  | nil => rw [h.1.eq_of_chars_eq_nil h.2, h'.1.eq_of_chars_eq_nil h'.2]
  | cons c text ih =>
      obtain ⟨tail, decomposes, rfl⟩ := h.1.exists_prepend h.2
      obtain ⟨tail', decomposes', rfl⟩ := h'.1.exists_prepend h'.2
      rw [ih decomposes decomposes']

end Valid

end Layout

namespace Token

/-- The same token in a text that has so many more characters in front. -/
def shift (count : Nat) (token : Token) : Token :=
  ⟨token.lexeme, count + token.stop⟩

/-- The stops of tokens count from where the text begins. -/
theorem scan_add (count offset : Nat) (openAtom : List Char) (found : List Token)
    (chars : List Char) :
    scan (count + offset) openAtom (found.map (shift count)) chars =
      (scan offset openAtom found chars).map (shift count) := by
  have ended (offset : Nat) (openAtom : List Char) (found : List Token) :
      endAtom openAtom (count + offset) (found.map (shift count)) =
        (endAtom openAtom offset found).map (shift count) := by
    cases openAtom <;> rfl
  induction chars generalizing offset openAtom found with
  | nil => simp only [scan, ended, List.map_reverse]
  | cons c rest ih =>
      obtain blank | ⟨lexeme, single⟩ | atom := char_cases c
      · simp only [scan_blank _ _ _ blank, ended, Nat.add_assoc, ih]
      · simp only [scan_single _ _ _ single, ended, Nat.add_assoc]
        exact ih (offset + 1) [] (⟨lexeme, offset + 1⟩ :: _)
      · simp only [scan_atomChar _ _ _ atom, Nat.add_assoc, ih]

end Token

namespace Layout

open Token

variable {l : Layout} {lexeme : Lexeme} {text : List Char}

/-- A lexeme in front of a text is one token, if the text does not go on with it. -/
theorem scan_lexeme (offset : Nat) (spelled : lexeme.WellSpelled)
    (delimited : lexeme.IsAtom → Delimited text) :
    scan offset [] [] (lexeme.text.toList ++ text) =
      ⟨lexeme, offset + lexeme.text.length⟩ :: scan (offset + lexeme.text.length) [] [] text := by
  by_cases isAtom : lexeme.IsAtom
  · have apart := delimited isAtom
    obtain ⟨name, rfl⟩ := isAtom
    rw [Lexeme.text, scan_atom offset (spelled name rfl) apart, String.ofList_toList,
      String.length_toList]
  · obtain ⟨c, characters, single⟩ := exists_single isAtom
    have one : lexeme.text.length = 1 := by rw [← String.length_toList, characters]; rfl
    rw [characters, one, List.singleton_append, scan_single _ _ _ single, endAtom, scan_eq_append]
    rfl

/-- A layout that does not begin with an atom does not go on with an atom before it. -/
theorem Valid.delimited (valid : l.Valid) (front : l.NoAtomInFront) : Delimited l.chars := by
  obtain ⟨lead, parts⟩ := l
  match lead, parts with
  | b :: lead, parts => exact .blank (valid_blank_iff.mp valid).1 _
  | [], [] => exact .nil
  | [], (lexeme, gap) :: parts =>
      obtain ⟨c, characters, single⟩ := exists_single (front rfl _ rfl)
      intro c' first atom
      rw [chars, List.nil_append, partChars_cons, characters] at first
      cases first
      simp [atom.ofChar?] at single

/-- The tokens of a text that is laid out are those of the layout. -/
theorem Valid.scan_chars (valid : l.Valid) (offset : Nat) :
    scan offset [] [] l.chars = tokensFrom (offset + l.lead.length) l.parts := by
  obtain ⟨lead, parts⟩ := l
  induction parts generalizing lead offset with
  | nil =>
      rw [chars, scan_blanks offset valid.lead]
      rfl
  | cons part parts ih =>
      obtain ⟨lexeme, gap⟩ := part
      have tail : Valid ⟨[], (lexeme, gap) :: parts⟩ := ⟨List.forall_mem_nil _, valid.gaps,
        valid.spelled, valid.apart⟩
      obtain ⟨spelled, rest, apart⟩ := valid_token_iff.mp tail
      have behind : gap ++ partChars parts = chars ⟨gap, parts⟩ := rfl
      rw [chars, scan_blanks offset valid.lead, partChars_cons, List.append_assoc, behind,
        scan_lexeme _ spelled fun isAtom => rest.delimited (apart isAtom), ih _ gap rest]
      rfl

theorem Decomposes.lex_eq {text : String} (h : l.Decomposes text.toList) :
    Token.lex text = l.tokens := by
  obtain ⟨valid, spelled⟩ := h
  rw [Token.lex, Token.lexFrom, List.drop_zero, ← spelled, valid.scan_chars, Nat.zero_add, tokens]

end Layout

/-- Every text has exactly one layout, and its tokens are those of the layout: each is where the
layout has it, and stops just past its spelling. The tokens from an offset on, which stands for the
end of the text when it is past it, are those of the text that begins there, with all stops moved by
the offset. -/
theorem existsUnique_layout (text : String) :
    (∃! l : Layout, l.Decomposes text.toList) ∧
    (∀ l : Layout, l.Decomposes text.toList → Token.lex text = l.tokens) ∧
    ∀ start, Token.lexFrom start text.toList =
      (Token.lex (String.ofList (text.toList.drop start))).map
        (Token.shift (min start text.length)) := by
  refine ⟨?_, fun l decomposes => decomposes.lex_eq, fun start => ?_⟩
  · obtain ⟨l, decomposes⟩ := Layout.exists_decomposes text.toList
    exact ⟨l, decomposes, fun l' decomposes' => decomposes'.unique decomposes⟩
  · have moved := Token.scan_add (min start text.length) 0 [] [] (text.toList.drop start)
    rw [Token.lex, Token.lexFrom, Token.lexFrom, String.toList_ofList, List.drop_zero, ← moved]
    obtain inside | past := Nat.le_total start text.length
    · rw [Nat.min_eq_left inside]
      rfl
    · rw [List.drop_eq_nil_of_le (by rwa [String.length_toList])]
      rfl

end PocketLisp
