import PocketLisp.Proofs.Reader.Grammar
import PocketLisp.Proofs.Reader.Layout

/-!
# The extent of a datum

The offset that is reported with the first datum of a text is the offset just past it. The text up
to there is all that the datum depends on, whatever follows, as long as what follows does not go on
with the last atom (`Extent.alone`, `Extent.continued`); and the text from there on is all that the
other data depend on (`Extent.others`). This holds because a text can be cut where a token stops:
its tokens are then those of the two parts (`Layout.Valid.exists_cut`).
-/

namespace PocketLisp

open Text Token Reader

theorem Delimited.of_append {chars rest : List Char} (delimited : Delimited (chars ++ rest)) :
    Delimited chars := by
  cases chars with
  | nil => exact .nil
  | cons c chars => exact delimited

/-- A text that is laid out can be cut where one of its tokens stops. -/
theorem Layout.Valid.exists_cut {lead : List Char} {parts : List (Lexeme × List Char)}
    (valid : Layout.Valid ⟨lead, parts⟩) {offset : Nat} {before after : List Token} {token : Token}
    (tokens : scan offset [] [] (Layout.chars ⟨lead, parts⟩) = before ++ token :: after) :
    ∃ chars rest, Layout.chars ⟨lead, parts⟩ = chars ++ rest ∧
      scan offset [] [] chars = before ++ [token] ∧ token.stop = offset + chars.length ∧
      scan token.stop [] [] rest = after := by
  induction parts generalizing lead offset before with
  | nil =>
      rw [valid.scan_chars] at tokens
      simp [tokensFrom] at tokens
  | cons part parts ih =>
      obtain ⟨lexeme, gap⟩ := part
      have tail : Valid ⟨[], (lexeme, gap) :: parts⟩ :=
        ⟨List.forall_mem_nil _, valid.gaps, valid.spelled, valid.apart⟩
      obtain ⟨spelled, behind, apart⟩ := valid_token_iff.mp tail
      have spelling : Layout.chars ⟨lead, (lexeme, gap) :: parts⟩ =
          lead ++ (lexeme.text.toList ++ Layout.chars ⟨gap, parts⟩) := by
        simp [Layout.chars]
      have first (text : List Char) (delimited : lexeme.IsAtom → Delimited text) :=
        (scan_blanks offset valid.lead (lexeme.text.toList ++ text)).trans
          (scan_lexeme (offset + lead.length) spelled delimited)
      rw [spelling, first _ fun isAtom => behind.delimited (apart isAtom)] at tokens
      rw [spelling]
      cases before with
      | nil =>
          obtain ⟨rfl, rest⟩ := List.cons_eq_cons.mp tokens
          refine ⟨lead ++ lexeme.text.toList, _, (List.append_assoc ..).symm, ?_, ?_, rest⟩
          · simpa [scan, endAtom] using first [] fun _ => .nil
          · rw [List.length_append, String.length_toList, Nat.add_assoc]
      | cons token' before =>
          obtain ⟨rfl, rest⟩ := List.cons_eq_cons.mp tokens
          obtain ⟨chars, others, cut, taken, stop, left⟩ := ih behind rest
          rw [cut]
          refine ⟨lead ++ (lexeme.text.toList ++ chars), others, by simp, ?_, ?_, left⟩
          · rw [first chars fun isAtom => (cut ▸ behind.delimited (apart isAtom)).of_append, taken]
            rfl
          · simp only [stop, List.length_append, String.length_toList, Nat.add_assoc]

namespace Token

variable {text : String} {before after : List Token} {token : Token}

/-- A token stops inside its text and not at the start of it. The tokens up to it are those of the
text up to where it stops, whatever else is written there, and the others are those of the rest. -/
theorem lex_cut (tokens : lex text = before ++ token :: after) :
    (0 < token.stop ∧ token.stop ≤ text.length) ∧
      (∀ more, Delimited more → lex (String.ofList (text.toList.take token.stop ++ more)) =
        before ++ [token] ++ scan token.stop [] [] more) ∧
      scan token.stop [] [] (text.toList.drop token.stop) = after := by
  obtain ⟨⟨lead, parts⟩, valid, spelled⟩ := Layout.exists_decomposes text.toList
  rw [lex, lexFrom, List.drop_zero, ← spelled] at tokens
  obtain ⟨chars, rest, cut, taken, stop, left⟩ := valid.exists_cut tokens
  rw [Nat.zero_add] at stop
  rw [spelled] at cut
  refine ⟨⟨?_, ?_⟩, fun more delimited => ?_, ?_⟩
  · rw [stop, List.length_pos_iff]
    rintro rfl
    simp [scan, endAtom] at taken
  · rw [stop, ← String.length_toList, cut, List.length_append]
    exact Nat.le_add_right ..
  · rw [lex, lexFrom, List.drop_zero, String.toList_ofList, stop, cut, List.take_left,
      scan_append delimited, taken, Nat.zero_add]
  · rwa [stop, cut, List.drop_left, ← stop]

/-- Only blanks spell no token. -/
theorem lex_eq_nil_iff : lex text = [] ↔ ∀ c ∈ text.toList, isBlank c = true := by
  obtain ⟨l, valid, spelled⟩ := Layout.exists_decomposes text.toList
  constructor
  · intro none
    rw [Layout.Decomposes.lex_eq ⟨valid, spelled⟩] at none
    obtain ⟨lead, _ | _⟩ := l
    · rw [← spelled]
      simpa [Layout.chars] using valid.lead
    · cases none
  · intro blank
    have passed := scan_blanks 0 blank []
    rw [List.append_nil] at passed
    rw [lex, lexFrom, List.drop_zero, passed]
    rfl

end Token

/-- The datum is the first one of the text and reaches up to `stop`: it is read from the text up to
there, also when more is written there that does not go on with it, and the other data of the text
are those of the text from there on. -/
structure Extent (text : String) (datum : Value) (stop : Nat) : Prop where
  positive : 0 < stop
  inside : stop ≤ text.length
  alone : readFirst (String.ofList (text.toList.take stop)) = .ok (datum, stop)
  continued (more : List Char) : Delimited more →
    readFirst (String.ofList (text.toList.take stop ++ more)) = .ok (datum, stop)
  others : readAll text =
    (datum :: (readAll (String.ofList (text.toList.drop stop))).1,
      (readAll (String.ofList (text.toList.drop stop))).2)

theorem FirstDatum.extent {text : String} {taken : List Token} {datum : Value} {stop : Nat}
    (first : FirstDatum text taken datum stop) : Extent text datum stop := by
  obtain ⟨⟨rest, tokens⟩, denotes, stops⟩ := first
  obtain ⟨last, lastTaken, rfl⟩ := Option.map_eq_some_iff.mp stops
  obtain ⟨before, rfl⟩ := List.getLast?_eq_some_iff.mp lastTaken
  rw [List.append_assoc] at tokens
  obtain ⟨⟨positive, inside⟩, kept, left⟩ := lex_cut tokens.symm
  have continued (more : List Char) (delimited : Delimited more) :
      readFirst (String.ofList (text.toList.take last.stop ++ more)) = .ok (datum, last.stop) :=
    readFirst_eq_ok_iff.mpr ⟨_, ⟨⟨_, (kept more delimited).symm⟩, denotes, stops⟩⟩
  refine ⟨positive, inside, ?_, continued, ?_⟩
  · simpa using continued [] .nil
  · have behind : lexemes (text.toList.drop last.stop) = rest.map lexeme :=
      (map_lexeme_scan rfl _).trans (congrArg (List.map lexeme) left)
    have cut : lexemes text.toList =
        (before ++ [last]).map lexeme ++ lexemes (text.toList.drop last.stop) := by
      change (lex text).map lexeme = _
      rw [behind, ← List.map_append, List.append_assoc, tokens]
    have read : feed .idle (lexemes text.toList) =
        (feed .idle (lexemes (text.toList.drop last.stop))).after datum := by
      rw [cut]
      exact feed_denotes denotes [] _ (by simp [NoPointHere])
    simp only [readAll_eq_feed, String.toList_ofList, read, Reading.data_after,
      Reading.failure_after]

section NoDatum

variable {text : String}

/-- A text of blanks holds no datum, and nothing is missing in it. -/
theorem readFirst_blank (blank : ∀ c ∈ text.toList, isBlank c = true) :
    readFirst text = .error (.malformed .endOfText) ∧ readAll text = ([], none) := by
  have none : Cursor.ofText text = Cursor.start [] :=
    congrArg Cursor.start (lex_eq_nil_iff.mpr blank)
  have ended : (Cursor.start []).atEnd = true := rfl
  constructor
  · rw [readFirst, none]
    rfl
  · rw [readAll, none, Cursor.readAll, Cursor.readAllAfter_ended ended]
    rfl

/-- Where a text begins with a fault, it holds no data. -/
theorem readAll_of_readFirst_error {failure : ReadFailure}
    (failed : readFirst text = .error failure) (present : ∃ c ∈ text.toList, isBlank c = false) :
    readAll text = ([], some failure) := by
  have pending : ¬ (Cursor.ofText text).atEnd = true := by
    intro ended
    obtain ⟨c, mem, other⟩ := present
    have blank := lex_eq_nil_iff.mp (List.isEmpty_iff.mp ended) c mem
    exact absurd (blank.symm.trans other) (by decide)
  rcases read : (Cursor.ofText text).readDatum with ⟨result, rest⟩
  rw [readFirst, read] at failed
  cases result with
  | ok datum => cases failed
  | error failure' =>
      cases failed
      rw [readAll, Cursor.readAll, Cursor.readAllAfter_error pending read]
      rfl

end NoDatum

/-- The offset that is reported with the first datum of a text is the end of its extent. If no datum
is read, the text holds none at all and has the same fault, unless it is nothing but blanks: then it
has no fault. -/
theorem readFirst_extent (text : String) :
    (∀ datum stop, readFirst text = .ok (datum, stop) → Extent text datum stop) ∧
    ∀ failure, readFirst text = .error failure →
      ((∀ c ∈ text.toList, isBlank c = true) →
        failure = .malformed .endOfText ∧ readAll text = ([], none)) ∧
      ((∃ c ∈ text.toList, isBlank c = false) → readAll text = ([], some failure)) := by
  refine ⟨fun datum stop read => ?_, fun failure failed => ⟨fun blank => ?_, fun present => ?_⟩⟩
  · obtain ⟨taken, first⟩ := firstDatum_of_readFirst read
    exact first.extent
  · obtain ⟨read, none⟩ := readFirst_blank blank
    exact ⟨Except.error.inj (failed.symm.trans read), none⟩
  · exact readAll_of_readFirst_error failed present

/-- What stands behind the offset is not looked at. -/
example : readFirst "  'ab) . (" = .ok (.quote (.symbol "ab"), 5) ∧
    readFirst "  'ab" = .ok (.quote (.symbol "ab"), 5) := by
  decide

end PocketLisp
