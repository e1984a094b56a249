import Mathlib.Data.List.Induction
import PocketLisp.Proofs.Reader.Feed
import PocketLisp.Proofs.Text.Numeral

/-!
# The grammar of data

`Denotes` says which lexemes denote which value, without a reader: an atom, a quote mark before a
datum, a list, and a list with a point before its last datum. The atom `.` is an item only where a
list begins. The reader accepts the grammar exactly: the lexemes that it takes for a datum denote
the datum (`denotes_of_readTowards`), and lexemes that denote a value are taken for it
(`feed_denotes`). So no text begins with two data, and a text that begins with none is malformed.

The invariant of the first direction is on what has been taken so far: `Open` lists the lexemes
behind each open construct. The second is an induction on the derivation, for every stack of open
constructs and whatever follows.
-/

namespace PocketLisp

/-- A datum in a list: its lexemes and its value. -/
abbrev Item := List Lexeme × Value

/-- The atom `.` on its own is at most the first of the items. -/
def OnlyFirstPoint (items : List Item) : Prop :=
  ∀ item ∈ items.tail, item.1 ≠ [.atom "."]

/-- The lexemes denote the value. -/
inductive Denotes : List Lexeme → Value → Prop where
  | atom {text v} (read : readAtom text = .ok v) : Denotes [.atom text] v
  | quote {ls v} (datum : Denotes ls v) : Denotes (.quote :: ls) v.quote
  | list {items : List Item} (data : ∀ item ∈ items, Denotes item.1 item.2)
      (points : OnlyFirstPoint items) :
      Denotes (.opening :: (items.flatMap Prod.fst ++ [.closing]))
        (.ofList (items.map Prod.snd))
  | dotted {items : List Item} {ls tail} (present : items ≠ [])
      (data : ∀ item ∈ items, Denotes item.1 item.2) (points : OnlyFirstPoint items)
      (last : Denotes ls tail) :
      Denotes (.opening :: (items.flatMap Prod.fst ++ .atom "." :: (ls ++ [.closing])))
        (.ofList (items.map Prod.snd) tail)

theorem onlyFirstPoint_concat {items : List Item} {item : Item} :
    OnlyFirstPoint (items ++ [item]) ↔
      OnlyFirstPoint items ∧ (item.1 = [.atom "."] → items = []) := by
  cases items with
  | nil => simp [OnlyFirstPoint]
  | cons first items =>
      simp only [OnlyFirstPoint, List.cons_append, List.tail_cons, List.forall_mem_append,
        List.forall_mem_singleton, reduceCtorEq, imp_false]

namespace Reader

/-- What has been taken for the constructs that are open. -/
inductive Open : List Frame → List Lexeme → Prop where
  | nothing : Open [] []
  | quote {frames before} (outer : Open frames before) :
      Open (.quote :: frames) (before ++ [.quote])
  | list {frames before} {items : List Item} (outer : Open frames before)
      (data : ∀ item ∈ items, Denotes item.1 item.2) (points : OnlyFirstPoint items) :
      Open (.list (items.map Prod.snd).reverse :: frames)
        (before ++ .opening :: items.flatMap Prod.fst)
  | dotted {frames before} {items : List Item} (outer : Open frames before) (present : items ≠ [])
      (data : ∀ item ∈ items, Denotes item.1 item.2) (points : OnlyFirstPoint items) :
      Open (.dotted (items.map Prod.snd).reverse :: frames)
        (before ++ .opening :: (items.flatMap Prod.fst ++ [.atom "."]))

/-- What has been taken when the reader is in a state. -/
inductive Taken : Goal → List Frame → List Lexeme → Prop where
  | datum {frames before} (opened : Open frames before) : Taken .datum frames before
  | close {frames before} {items : List Item} {ls tail} (outer : Open frames before)
      (present : items ≠ []) (data : ∀ item ∈ items, Denotes item.1 item.2)
      (points : OnlyFirstPoint items) (last : Denotes ls tail) :
      Taken (.close (items.map Prod.snd).reverse tail) frames
        (before ++ .opening :: (items.flatMap Prod.fst ++ .atom "." :: ls))

/-- A step is right for what has been taken: a datum is completed only by lexemes that denote
it. -/
def Step.RightAfter (taken : List Lexeme) : Step → Prop
  | more goal frames => Taken goal frames taken
  | complete datum => Denotes taken datum
  | failed _ | refused _ => True

theorem noPointHere_list {items : List Value} {frames : List Frame} :
    NoPointHere (.list items :: frames) ↔ items = [] := by
  cases items <;> simp [NoPointHere]

/-- Handing over a datum is right after its lexemes. -/
theorem deliver_rightAfter {frames : List Frame} {before ls : List Lexeme} {v : Value}
    (opened : Open frames before) (datum : Denotes ls v)
    (here : ls = [.atom "."] → NoPointHere frames) :
    (deliver v frames).RightAfter (before ++ ls) := by
  induction opened generalizing ls v with
  | nothing => exact datum
  | @quote frames before _ ih =>
      rw [List.append_assoc]
      exact ih (.quote datum) (by simp)
  | @list frames before items outer data points =>
      have points' : OnlyFirstPoint (items ++ [(ls, v)]) :=
        onlyFirstPoint_concat.mpr
          ⟨points, fun point => by simpa using noPointHere_list.mp (here point)⟩
      have data' : ∀ item ∈ items ++ [(ls, v)], Denotes item.1 item.2 :=
        List.forall_mem_append.mpr ⟨data, List.forall_mem_singleton.mpr datum⟩
      simpa [deliver, Step.RightAfter] using Taken.datum (.list outer data' points')
  | dotted outer present data points _ =>
      simpa [deliver, Step.RightAfter] using Taken.close outer present data points datum

theorem listOf_values (items : List Item) (tail : Value) :
    listOf (items.map Prod.snd).reverse tail = .ofList (items.map Prod.snd) tail := by
  rw [listOf, List.reverse_reverse]

/-- An atom is the point before a tail, or else it is read. -/
theorem acceptAtom_rightAfter {frames : List Frame} {before : List Lexeme}
    (opened : Open frames before) (text : String) :
    (acceptDatum (.atom text) frames).RightAfter (before ++ [.atom text]) := by
  by_cases here : text = "." → NoPointHere frames
  · rw [accept_atom here]
    cases read : readAtom text with
    | ok v => exact deliver_rightAfter opened (.atom read) (by simpa using here)
    | error failure => trivial
  · obtain ⟨rfl, point⟩ : text = "." ∧ ¬ NoPointHere frames := by simpa using here
    cases opened with
    | @list frames before items outer data points =>
        have present : items ≠ [] := by simpa [noPointHere_list] using point
        obtain ⟨v, vs, values⟩ := List.exists_cons_of_ne_nil
          (mt List.reverse_eq_nil_iff.mp (mt List.map_eq_nil_iff.mp present))
        have dotted := Taken.datum (.dotted outer present data points)
        rw [values] at dotted ⊢
        rw [List.append_assoc]
        exact dotted
    | _ => exact absurd (by simp [NoPointHere]) point

/-- Taking a lexeme is right after it. -/
theorem accept_rightAfter {goal : Goal} {frames : List Frame} {before : List Lexeme}
    (taken : Taken goal frames before) (lexeme : Lexeme) :
    (goal.accept lexeme frames).RightAfter (before ++ [lexeme]) := by
  cases taken with
  | datum opened =>
      cases lexeme with
      | atom text => exact acceptAtom_rightAfter opened text
      | quote => exact .datum (.quote opened)
      | opening => exact .datum (@Open.list _ _ [] opened (by simp) (by simp [OnlyFirstPoint]))
      | closing =>
          cases opened with
          | list outer data points =>
              have ended := deliver_rightAfter outer (.list data points) (by simp)
              rw [← listOf_values] at ended
              rw [List.append_assoc]
              exact ended
          | _ => trivial
  | close outer present data points last =>
      cases lexeme with
      | closing =>
          have ended := deliver_rightAfter outer (.dotted present data points last) (by simp)
          rw [← listOf_values] at ended
          simp only [List.append_assoc, List.cons_append]
          exact ended
      | _ => trivial

/-- The items of a list are read one after the other. -/
theorem feed_items {items : List Item} (points : OnlyFirstPoint items)
    (reads : ∀ item ∈ items, ∀ frames more, (item.1 = [.atom "."] → NoPointHere frames) →
      feed ⟨.datum, frames⟩ (item.1 ++ more) = (deliver item.2 frames).andThen more)
    (frames : List Frame) (more : List Lexeme) :
    feed ⟨.datum, .list [] :: frames⟩ (items.flatMap Prod.fst ++ more) =
      feed ⟨.datum, .list (items.map Prod.snd).reverse :: frames⟩ more := by
  -- The items that the frame holds are those that were read, so the induction is from the end.
  induction items using List.reverseRecOn generalizing more with
  | nil => rfl
  | append_singleton items item ih =>
      obtain ⟨pointsBefore, here⟩ := onlyFirstPoint_concat.mp points
      obtain ⟨readsBefore, readsLast⟩ := List.forall_mem_append.mp reads
      have last : feed ⟨.datum, .list (items.map Prod.snd).reverse :: frames⟩ (item.1 ++ more) =
          feed ⟨.datum, .list (item.2 :: (items.map Prod.snd).reverse) :: frames⟩ more :=
        readsLast item (by simp) _ more fun point => noPointHere_list.mpr (by simp [here point])
      simpa using (ih pointsBefore readsBefore (item.1 ++ more)).trans last

/-- Lexemes that denote a value are taken for it, whatever is open and whatever follows. -/
theorem feed_denotes {ls : List Lexeme} {v : Value} (datum : Denotes ls v) (frames : List Frame)
    (more : List Lexeme) (here : ls = [.atom "."] → NoPointHere frames) :
    feed ⟨.datum, frames⟩ (ls ++ more) = (deliver v frames).andThen more := by
  induction datum generalizing frames more with
  | @atom text v read =>
      have step : acceptDatum (.atom text) frames = deliver v frames := by
        rw [accept_atom (by simpa using here), read, handOver]
      exact congrArg (Step.andThen · more) step
  | quote _ ih => exact ih (.quote :: frames) more fun _ => by simp [NoPointHere]
  | @list items _ points ih =>
      have run := feed_items points ih frames (.closing :: more)
      rw [List.cons_append, List.append_assoc, ← listOf_values]
      exact run
  | @dotted items ls tail present _ points _ ih ihLast =>
      have run := feed_items points ih frames (.atom "." :: (ls ++ .closing :: more))
      obtain ⟨v, vs, values⟩ := List.exists_cons_of_ne_nil
        (mt List.reverse_eq_nil_iff.mp (mt List.map_eq_nil_iff.mp present))
      have last := ihLast (.dotted (v :: vs) :: frames) (.closing :: more) (by simp [NoPointHere])
      rw [List.cons_append, List.append_assoc, List.cons_append, List.append_assoc,
        ← listOf_values]
      rw [values] at run ⊢
      exact run.trans last

/-- No two data begin with the same lexemes. -/
theorem denotes_unique {ls ls' more more' : List Lexeme} {v v' : Value} (datum : Denotes ls v)
    (datum' : Denotes ls' v') (same : ls ++ more = ls' ++ more') : ls = ls' ∧ v = v' := by
  -- The longer one would be read on after the end of the shorter one, without reading a datum.
  have shorter {ls rest : List Lexeme} {v v' : Value} (datum : Denotes ls v)
      (datum' : Denotes (ls ++ rest) v') : rest = [] ∧ v = v' := by
    have run := feed_denotes datum [] rest (by simp [NoPointHere])
    have run' := feed_denotes datum' [] [] (by simp [NoPointHere])
    rw [List.append_nil, run] at run'
    obtain ⟨⟨rfl, data⟩, stand⟩ : (v = v' ∧ (feed .idle rest).data = []) ∧
        (feed .idle rest).stand = .ok .idle := by
      simpa [deliver, feed_nil, Reading.after] using run'
    have idle : feed .idle rest = ⟨[], .ok .idle⟩ := by rw [← data, ← stand]
    exact ⟨(nil_of_feed_idle idle).2, rfl⟩
  obtain ⟨rest, rfl, -⟩ | ⟨rest, rfl, -⟩ := List.append_eq_append_iff.mp same
  · obtain ⟨rfl, rfl⟩ := shorter datum datum'
    exact ⟨(List.append_nil ls).symm, rfl⟩
  · obtain ⟨rfl, rfl⟩ := shorter datum' datum
    exact ⟨List.append_nil ls', rfl⟩

/-- A step fails at most for a fault of the text: a parenthesis that closes nothing, which is taken,
or a token that stands where a parenthesis must close, which is not taken. -/
def Step.FaultsOnly (lexeme : Lexeme) : Step → Prop
  | more _ _ | complete _ => True
  | failed failure => lexeme = .closing ∧ failure = .malformed .unmatchedClose
  | refused failure => lexeme ≠ .closing ∧
      failure = .malformed (.unexpected (lexeme.text.take 1).toString ")")

theorem deliver_faultsOnly (lexeme : Lexeme) (v : Value) (frames : List Frame) :
    (deliver v frames).FaultsOnly lexeme := by
  induction frames generalizing v with
  | nil => trivial
  | cons frame frames ih =>
      cases frame with
      | quote => exact ih v.quote
      | _ => trivial

theorem accept_faultsOnly (goal : Goal) {lexeme : Lexeme} (frames : List Frame)
    (readable : ∀ text, lexeme = .atom text → ∃ v, readAtom text = .ok v) :
    (goal.accept lexeme frames).FaultsOnly lexeme := by
  have taken := takes_accept goal lexeme frames
  generalize goal.accept lexeme frames = step at taken
  cases taken with
  | atom | endList | endDotted => exact deliver_faultsOnly _ _ _
  | @refusedAtom text _ _ refused =>
      obtain ⟨v, read⟩ := readable text rfl
      cases refused.symm.trans read
  | unmatched => exact ⟨rfl, rfl⟩
  | unexpected other => exact ⟨other, rfl⟩
  | _ => trivial

end Reader

namespace Cursor

open Reader

/-- The tokens that are taken for a datum denote it, together with what was taken before. -/
theorem denotes_of_readTowards {goal : Goal} {frames : List Frame} {before : List Lexeme}
    (taken : Taken goal frames before) {position : Nat} {tokens : List Token} {datum : Value}
    {rest : Cursor} (h : readTowards goal frames position tokens = (.ok datum, rest)) :
    ∃ used last, tokens = used ++ last :: rest.tokens ∧ rest.position = last.stop ∧
      Denotes (before ++ (used ++ [last]).map Token.lexeme) datum := by
  induction tokens generalizing goal frames before position with
  | nil => simp [readTowards] at h
  | cons token tokens ih =>
      have right := accept_rightAfter taken token.lexeme
      rw [readTowards] at h
      split at h
      · next more =>
        rw [more] at right
        obtain ⟨used, last, rfl, stop, denotes⟩ := ih right h
        exact ⟨token :: used, last, rfl, stop, by simpa using denotes⟩
      · next complete =>
        rw [complete] at right
        cases h
        exact ⟨[], token, rfl, rfl, right⟩
      · simp at h
      · simp at h

/-- How a fault shows between the tokens that are taken for a datum and those that are left: the
text ends, the last one taken closes nothing, or the first one left is not the parenthesis that must
stand there. -/
inductive Fault : ReadError → (taken left : List Token) → Prop where
  | endOfText {taken} : Fault .endOfText taken []
  | unmatchedClose {taken token left} (closing : token.lexeme = .closing) :
      Fault .unmatchedClose (taken ++ [token]) left
  | unexpected {taken token left} (other : token.lexeme ≠ .closing) :
      Fault (.unexpected (token.lexeme.text.take 1).toString ")") taken (token :: left)

theorem Fault.cons {error : ReadError} {taken left : List Token} (fault : Fault error taken left)
    (token : Token) : Fault error (token :: taken) left := by
  cases fault with
  | endOfText => exact .endOfText
  | @unmatchedClose taken last left closing =>
      exact @Fault.unmatchedClose (token :: taken) last left closing
  | unexpected other => exact .unexpected other

/-- If all atoms can be read, only a fault of the text keeps a datum from being read. The cursor
stands where it shows. -/
theorem fault_of_readTowards {goal : Goal} {frames : List Frame} {position : Nat}
    {tokens : List Token} {failure : ReadFailure} {rest : Cursor}
    (readable : ∀ token ∈ tokens, ∀ text, token.lexeme = .atom text → ∃ v, readAtom text = .ok v)
    (h : readTowards goal frames position tokens = (.error failure, rest)) :
    ∃ error taken, failure = .malformed error ∧ tokens = taken ++ rest.tokens ∧
      Fault error taken rest.tokens := by
  induction tokens generalizing goal frames position with
  | nil =>
      cases h
      exact ⟨_, [], rfl, rfl, .endOfText⟩
  | cons token tokens ih =>
      obtain ⟨first, others⟩ := List.forall_mem_cons.mp readable
      have faults := accept_faultsOnly goal frames first
      rw [readTowards] at h
      split at h
      · obtain ⟨error, taken, rfl, rfl, fault⟩ := ih others h
        exact ⟨error, token :: taken, rfl, rfl, fault.cons token⟩
      · simp at h
      · next failed =>
        rw [failed] at faults
        cases h
        exact ⟨_, [token], faults.2, rfl, @Fault.unmatchedClose [] token _ faults.1⟩
      · next refused =>
        rw [refused] at faults
        cases h
        exact ⟨_, [], faults.2, rfl, .unexpected faults.1⟩

end Cursor

open Reader

/-- The tokens with which a text begins denote `v`, and the last of them stops at `stop`. -/
structure FirstDatum (text : String) (taken : List Token) (v : Value) (stop : Nat) : Prop where
  begins : taken <+: Token.lex text
  denotes : Denotes (taken.map Token.lexeme) v
  stops : taken.getLast?.map Token.stop = some stop

theorem FirstDatum.unique {text : String} {taken taken' : List Token} {v v' : Value}
    {stop stop' : Nat} (h : FirstDatum text taken v stop) (h' : FirstDatum text taken' v' stop') :
    taken = taken' ∧ v = v' ∧ stop = stop' := by
  obtain ⟨rest, spelled⟩ := h.begins
  obtain ⟨rest', spelled'⟩ := h'.begins
  have same : taken ++ rest = taken' ++ rest' := spelled.trans spelled'.symm
  obtain ⟨lexemes, rfl⟩ := denotes_unique h.denotes h'.denotes
    (by simpa only [List.map_append] using congrArg (List.map Token.lexeme) same)
  obtain ⟨rfl, -⟩ := List.append_inj same (by simpa using congrArg List.length lexemes)
  exact ⟨rfl, rfl, Option.some.inj (h.stops.symm.trans h'.stops)⟩

theorem firstDatum_of_readFirst {text : String} {v : Value} {stop : Nat}
    (h : readFirst text = .ok (v, stop)) : ∃ taken, FirstDatum text taken v stop := by
  unfold readFirst Cursor.readDatum at h
  split at h
  next result rest taken =>
    cases result with
    | error failure => simp [Except.map] at h
    | ok found =>
        obtain ⟨rfl, rfl⟩ : found = v ∧ rest.position = stop := by simpa [Except.map] using h
        obtain ⟨used, last, tokens, stop, denotes⟩ :=
          Cursor.denotes_of_readTowards (.datum .nothing) taken
        refine ⟨used ++ [last], ⟨rest.tokens, ?_⟩, denotes, by simp [stop]⟩
        rw [List.append_assoc]
        exact tokens.symm

/-- A text that begins with a datum is read. -/
theorem FirstDatum.exists_readFirst {text : String} {taken : List Token} {v : Value} {stop : Nat}
    (h : FirstDatum text taken v stop) : ∃ read, readFirst text = .ok read := by
  unfold readFirst Cursor.readDatum
  split
  next result rest read =>
    cases result with
    | ok found => exact ⟨_, rfl⟩
    | error failure =>
        obtain ⟨more, spelled⟩ := h.begins
        have run : feed .idle ((Token.lex text).map Token.lexeme) =
            (feed .idle (more.map Token.lexeme)).after v := by
          rw [← spelled, List.map_append]
          exact feed_denotes h.denotes [] _ (by simp [NoPointHere])
        obtain ⟨data, -⟩ := Cursor.feed_of_readTowards_error read fun empty => by
          have none : Token.lex text = [] := empty
          simp [none, feed_nil, Reading.after] at run
        have found : (feed .idle ((Token.lex text).map Token.lexeme)).data = [] := data
        simp [run] at found

/-- A datum is read exactly where the grammar has one. -/
theorem readFirst_eq_ok_iff {text : String} {v : Value} {stop : Nat} :
    readFirst text = .ok (v, stop) ↔ ∃ taken, FirstDatum text taken v stop := by
  constructor
  · exact firstDatum_of_readFirst
  · rintro ⟨taken, h⟩
    obtain ⟨⟨v', stop'⟩, read⟩ := h.exists_readFirst
    obtain ⟨taken', h'⟩ := firstDatum_of_readFirst read
    obtain ⟨-, rfl, rfl⟩ := h.unique h'
    exact read

/-- The lexeme is not a numeral with more digits than are converted. -/
def Lexeme.Convertible : Lexeme → Prop
  | .atom text => ∀ numeral, Text.Numeral.Spells text.toList numeral →
      numeral.digits.length ≤ Text.digitLimit
  | _ => True

instance : (lexeme : Lexeme) → Decidable lexeme.Convertible
  | .atom text =>
      decidable_of_iff (∀ numeral ∈ Text.Numeral.ofChars? text.toList,
        numeral.digits.length ≤ Text.digitLimit)
        (by simp [Lexeme.Convertible, Text.Numeral.ofChars?_eq_some_iff])
  | .opening | .closing | .quote => .isTrue trivial

/-- No numeral of the text has more digits than are converted. -/
def ShortNumerals (text : String) : Prop :=
  ∀ token ∈ Token.lex text, token.lexeme.Convertible

instance (text : String) : Decidable (ShortNumerals text) :=
  inferInstanceAs (Decidable (∀ token ∈ Token.lex text, token.lexeme.Convertible))

theorem readAtom_of_convertible {text : String} (short : (Lexeme.atom text).Convertible) :
    ∃ v, readAtom text = .ok v := by
  unfold readAtom
  split
  · next numeral found =>
    rw [if_neg (Nat.not_lt.mpr (short numeral (Text.Numeral.ofChars?_eq_some_iff.mp found)))]
    split <;> exact ⟨_, rfl⟩
  · exact ⟨_, rfl⟩

/-- Where no numeral is too long, a text that is not read is malformed. -/
theorem malformed_of_readFirst {text : String} (short : ShortNumerals text)
    {failure : ReadFailure} (h : readFirst text = .error failure) :
    ∃ error, failure = .malformed error := by
  unfold readFirst Cursor.readDatum at h
  split at h
  next result rest taken =>
    cases result with
    | ok found => simp [Except.map] at h
    | error failure' =>
        obtain rfl : failure' = failure := by simpa [Except.map] using h
        obtain ⟨error, -, malformed, -⟩ :=
          Cursor.fault_of_readTowards (fun token mem atom spelled =>
            readAtom_of_convertible (spelled ▸ short token mem)) taken
        exact ⟨error, malformed⟩

/-- The reader accepts the grammar: it gives a datum and an offset exactly if the tokens with which
the text begins denote the datum and stop there, which no other tokens do for another datum; and it
explains every text that begins with no datum by one of the three faults. -/
theorem readFirst_accepts_grammar {text : String} (short : ShortNumerals text) :
    (∀ v stop, readFirst text = .ok (v, stop) ↔ ∃ taken, FirstDatum text taken v stop) ∧
    (∀ taken taken' v v' stop stop', FirstDatum text taken v stop →
      FirstDatum text taken' v' stop' → taken = taken' ∧ v = v') ∧
    ((∃ v stop, readFirst text = .ok (v, stop)) ∨
      readFirst text = .error (.malformed .endOfText) ∨
      readFirst text = .error (.malformed .unmatchedClose) ∨
      ∃ actual expected, readFirst text = .error (.malformed (.unexpected actual expected))) := by
  refine ⟨fun v stop => readFirst_eq_ok_iff, fun taken taken' v v' stop stop' h h' => ?_, ?_⟩
  · obtain ⟨sameTokens, sameValue, -⟩ := h.unique h'
    exact ⟨sameTokens, sameValue⟩
  · cases read : readFirst text with
    | ok found => exact .inl ⟨found.1, found.2, rfl⟩
    | error failure =>
        obtain ⟨error, rfl⟩ := malformed_of_readFirst short read
        cases error with
        | endOfText => exact .inr (.inl rfl)
        | unmatchedClose => exact .inr (.inr (.inl rfl))
        | unexpected actual expected => exact .inr (.inr (.inr ⟨actual, expected, rfl⟩))

theorem readFirst_accepts_grammar_points :
    (ShortNumerals "(+12 '. . b) c" ∧
      ∃ taken, FirstDatum "(+12 '. . b) c" taken
        (.pair (.int 12) (.pair (.quote (.symbol ".")) (.symbol "b"))) 12) ∧
    ShortNumerals "(a .)" ∧ ∀ taken v stop, ¬ FirstDatum "(a .)" taken v stop := by
  have short : ShortNumerals "(+12 '. . b) c" := by decide
  have short' : ShortNumerals "(a .)" := by decide
  refine ⟨⟨short, ((readFirst_accepts_grammar short).1 _ _).mp rfl⟩, short', ?_⟩
  intro taken v stop h
  have read := ((readFirst_accepts_grammar short').1 v stop).mpr ⟨taken, h⟩
  contradiction

end PocketLisp
