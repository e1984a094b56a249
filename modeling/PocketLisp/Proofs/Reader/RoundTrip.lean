import PocketLisp.Proofs.Reader.Plain
import PocketLisp.Proofs.Value.Printed

/-!
# Reading printed data

Printed data are read back except for one ambiguity: in a list that has an item already, the atom
`.` is taken for the point before a tail. So the printed form of plain data denotes the data exactly
when no rest of a list starts with that symbol. In the other case the text may still be read, but
the point takes the place of pairs, and what is read has fewer pairs than what was printed.

The main lemma follows the reader through the lexemes of a value in three places: where a datum is
expected, in an open list, and behind a point.
-/

namespace PocketLisp

namespace Reader

/-- What reading the printed form of `v` may give: the value itself if its printed form is faithful,
and otherwise nothing but smaller values. -/
def Rereads (faithful : Prop) (v : Value) (read : Except ReadFailure Value) : Prop :=
  (faithful ∧ read = .ok v) ∨ (¬ faithful ∧ ∀ w, read = .ok w → w.pairs < v.pairs)

theorem Rereads.pairs_le {faithful : Prop} {v w : Value} {read : Except ReadFailure Value}
    (h : Rereads faithful v read) (given : read = .ok w) : w.pairs ≤ v.pairs := by
  obtain ⟨-, same⟩ | ⟨-, smaller⟩ := h
  · cases same.symm.trans given
    exact Nat.le_refl _
  · exact Nat.le_of_lt (smaller w given)

/-- Reads two values one after the other and joins them in a pair. -/
def readPair (first rest : Except ReadFailure Value) : Except ReadFailure Value :=
  first.bind fun v => rest.map (.pair v)

theorem readPair_eq_ok {first rest : Except ReadFailure Value} {w : Value}
    (h : readPair first rest = .ok w) :
    ∃ v v', first = .ok v ∧ rest = .ok v' ∧ w = .pair v v' := by
  cases first with
  | error failure => contradiction
  | ok v =>
      cases rest with
      | error failure => contradiction
      | ok v' =>
          cases h
          exact ⟨v, v', rfl, rfl, rfl⟩

theorem Rereads.pair {first rest : Value} {readFirst readRest : Except ReadFailure Value}
    (hfirst : Rereads first.NoInnerPoint first readFirst)
    (hrest : Rereads (rest.NoInnerPoint ∧ ¬ rest.StartsWithPoint) rest readRest) :
    Rereads (Value.pair first rest).NoInnerPoint (.pair first rest)
      (readPair readFirst readRest) := by
  by_cases faithful : (Value.pair first rest).NoInnerPoint
  · obtain ⟨faithfulFirst, faithfulRest⟩ := faithful
    obtain ⟨-, rfl⟩ := hfirst.resolve_right fun h => h.1 faithfulFirst
    obtain ⟨-, rfl⟩ := hrest.resolve_right fun h => h.1 faithfulRest
    exact .inl ⟨⟨faithfulFirst, faithfulRest⟩, rfl⟩
  · refine .inr ⟨faithful, ?_⟩
    intro w given
    obtain ⟨v, v', givenFirst, givenRest, rfl⟩ := readPair_eq_ok given
    have leFirst := hfirst.pairs_le givenFirst
    have leRest := hrest.pairs_le givenRest
    simp only [Value.pairs]
    by_cases faithfulFirst : first.NoInnerPoint
    · have unfaithfulRest := fun h => faithful ⟨faithfulFirst, h⟩
      have lt := (hrest.resolve_left fun h => unfaithfulRest h.1).2 v' givenRest
      omega
    · have lt := (hfirst.resolve_left fun h => faithfulFirst h.1).2 v givenFirst
      omega

theorem listOf_cons (item : Value) (items : List Value) (tail : Value) :
    listOf (item :: items) tail = listOf items (.pair item tail) := by
  simp [listOf, Value.ofList]

/-- Behind the tail of a dotted list, anything but the closing parenthesis is refused. -/
theorem accept_close {lexeme : Lexeme} (other : lexeme ≠ .closing) :
    ∃ failure, ∀ items tail frames, acceptClose lexeme items tail frames = .refused failure := by
  cases lexeme with
  | closing => exact absurd rfl other
  | _ => exact ⟨_, fun _ _ _ => rfl⟩

/-- Only the end of a list starts with the closing parenthesis. -/
theorem restLexemes_eq_cons {v : Value} (notNil : v ≠ .nil) :
    ∃ lexeme ls, v.restLexemes = lexeme :: ls ∧ lexeme ≠ .closing := by
  cases v with
  | nil => exact absurd rfl notNil
  | pair first rest =>
      cases first with
      | pair first' rest' => exact ⟨_, _, rfl, by simp⟩
      | _ => exact ⟨_, _, rfl, by simp⟩
  | _ => exact ⟨_, _, rfl, by simp⟩

theorem andThen_handOver_error (failure : ReadFailure) (frames : List Frame)
    (more : List Lexeme) :
    (handOver (.error failure) frames).andThen more = ⟨[], .error failure⟩ := rfl

/-- The reader over the lexemes of a value on its own. -/
def ReadsAlone (v : Value) : Prop :=
  ∃ read : Except ReadFailure Value, Rereads v.NoInnerPoint v read ∧
    ∀ frames, (v = .point → NoPointHere frames) → ∀ more,
      feed ⟨.datum, frames⟩ (v.printLexemes ++ more) = (handOver read frames).andThen more

/-- The reader over the lexemes of the rest of a list that has an item. -/
def ReadsRest (v : Value) : Prop :=
  ∃ read : Except ReadFailure Value, Rereads (v.NoInnerPoint ∧ ¬ v.StartsWithPoint) v read ∧
    ∀ item items frames more,
      feed ⟨.datum, .list (item :: items) :: frames⟩ (v.restLexemes ++ more) =
        (handOver (read.map (listOf (item :: items))) frames).andThen more

/-- The reader over the lexemes of the rest of a list whose item was taken for a point. -/
def ReadsBehindPoint (v : Value) : Prop :=
  ∃ read : Except ReadFailure Value, (∀ w, read = .ok w → w.pairs ≤ v.pairs) ∧
    ∀ items frames more,
      feed ⟨.datum, .dotted items :: frames⟩ (v.restLexemes ++ more) =
        (handOver (read.map (listOf items)) frames).andThen more

section Atoms

variable {v : Value} (atom : ∀ first rest, v ≠ .pair first rest)
include atom

theorem faithful_atom : v.NoInnerPoint ∧ ¬ v.StartsWithPoint := by
  cases v with
  | pair first rest => exact absurd rfl (atom first rest)
  | _ => exact ⟨trivial, by simp [Value.StartsWithPoint]⟩

theorem printLexemes_atom : v.printLexemes = [.atom v.print] := by
  cases v with
  | pair first rest => exact absurd rfl (atom first rest)
  | _ => rfl

theorem restLexemes_atom (notNil : v ≠ .nil) :
    v.restLexemes = [.atom ".", .atom v.print, .closing] := by
  cases v with
  | nil => exact absurd rfl notNil
  | pair first rest => exact absurd rfl (atom first rest)
  | _ => rfl

/-- A second point behind the first leaves no room for what follows it. -/
theorem readsBehindPoint_atom (notNil : v ≠ .nil) : ReadsBehindPoint v := by
  obtain ⟨failure, refused⟩ := accept_close (show Lexeme.atom v.print ≠ .closing by simp)
  refine ⟨.error failure, by simp, ?_⟩
  intro items frames more
  rw [restLexemes_atom atom notNil]
  change (acceptClose (.atom v.print) items .point frames).andThen (.closing :: more) = _
  rw [refused]
  rfl

variable (plain : v.Plain)
include plain

/-- The lexeme of an atom is read where the atom is not taken for a point. -/
theorem accept_print {frames : List Frame} (here : v = .point → NoPointHere frames) :
    acceptDatum (.atom v.print) frames = deliver v frames := by
  have read := (plain.print_atom atom).2
  have here' (spelled : v.print = ".") : NoPointHere frames := by
    rw [spelled] at read
    exact here (Except.ok.inj read).symm
  rw [accept_atom here', read, handOver]

theorem readsAlone_atom : ReadsAlone v := by
  refine ⟨.ok v, .inl ⟨(faithful_atom atom).1, rfl⟩, ?_⟩
  intro frames here more
  rw [printLexemes_atom atom, List.singleton_append, feed_cons]
  exact congrArg (Step.andThen · more) (accept_print atom plain here)

theorem readsRest_atom (notNil : v ≠ .nil) : ReadsRest v := by
  refine ⟨.ok v, .inl ⟨faithful_atom atom, rfl⟩, ?_⟩
  intro item items frames more
  have tail : acceptDatum (.atom v.print) (.dotted (item :: items) :: frames) =
      .more (.close (item :: items) v) frames :=
    accept_print atom plain fun _ _ _ _ => by simp
  rw [restLexemes_atom atom notNil]
  change (acceptDatum (.atom v.print) (.dotted (item :: items) :: frames)).andThen
    (.closing :: more) = _
  rw [tail]
  rfl

end Atoms

section Pairs

variable {first rest : Value}

theorem readsAlone_pair (hfirst : ReadsAlone first) (hrest : ReadsRest rest) :
    ReadsAlone (.pair first rest) := by
  obtain ⟨readFirst, rereadsFirst, runFirst⟩ := hfirst
  obtain ⟨readRest, rereadsRest, runRest⟩ := hrest
  refine ⟨readPair readFirst readRest, rereadsFirst.pair rereadsRest, ?_⟩
  intro frames _ more
  have opened : feed ⟨.datum, frames⟩ ((Value.pair first rest).printLexemes ++ more) =
      feed ⟨.datum, .list [] :: frames⟩
        (first.printLexemes ++ (rest.restLexemes ++ more)) := by
    rw [Value.printLexemes, List.cons_append, List.append_assoc]
    rfl
  rw [opened, runFirst _ fun _ => by simp [NoPointHere]]
  cases readFirst with
  | error failure => rfl
  | ok v =>
      rw [handOver, deliver, Step.andThen_more, runRest]
      cases readRest with
      | error failure => rfl
      | ok v' => rfl

/-- An item `.` of an open list sends the reader behind a point. Any other item is read on its
own. -/
theorem readsRest_pair (hfirst : ReadsAlone first) (hrest : ReadsRest rest)
    (behind : ReadsBehindPoint rest) : ReadsRest (.pair first rest) := by
  by_cases point : first = .point
  · obtain ⟨read, bound, run⟩ := behind
    have unfaithful : ¬ ((Value.pair first rest).NoInnerPoint ∧
        ¬ (Value.pair first rest).StartsWithPoint) :=
      fun faithful => faithful.2 ⟨rest, point ▸ rfl⟩
    refine ⟨read, .inr ⟨unfaithful, ?_⟩, ?_⟩
    · intro w given
      have le := bound w given
      simp only [Value.pairs]
      omega
    · intro item items frames more
      rw [Value.restLexemes, point, List.append_assoc]
      exact run (item :: items) frames more
  · obtain ⟨readFirst, rereadsFirst, runFirst⟩ := hfirst
    obtain ⟨readRest, rereadsRest, runRest⟩ := hrest
    have starts : ¬ (Value.pair first rest).StartsWithPoint := by
      rintro ⟨rest', same⟩
      exact point (Value.pair.inj same).1
    refine ⟨readPair readFirst readRest, ?_, ?_⟩
    · simpa only [starts, not_false_eq_true, and_true] using rereadsFirst.pair rereadsRest
    · intro item items frames more
      rw [Value.restLexemes, List.append_assoc, runFirst _ fun h => absurd h point]
      cases readFirst with
      | error failure => rfl
      | ok v =>
          rw [handOver, deliver, Step.andThen_more, runRest]
          cases readRest with
          | error failure => rfl
          | ok v' => simp [handOver, readPair, Except.map, Except.bind, listOf_cons]

/-- Behind a point the first item is the tail, and the list must end after it. -/
theorem readsBehindPoint_pair (hfirst : ReadsAlone first) :
    ReadsBehindPoint (.pair first rest) := by
  obtain ⟨read, rereads, run⟩ := hfirst
  have bound (w : Value) (given : read = .ok w) : w.pairs ≤ (Value.pair first rest).pairs := by
    have le := rereads.pairs_le given
    simp only [Value.pairs]
    omega
  have tail (items : List Value) (frames : List Frame) (more : List Lexeme) :
      feed ⟨.datum, .dotted items :: frames⟩ ((Value.pair first rest).restLexemes ++ more) =
        (handOver read (.dotted items :: frames)).andThen (rest.restLexemes ++ more) := by
    rw [Value.restLexemes, List.append_assoc, run _ fun _ => by simp [NoPointHere]]
  by_cases ended : rest = .nil
  · refine ⟨read, bound, ?_⟩
    intro items frames more
    rw [tail, ended]
    cases read <;> rfl
  · obtain ⟨lexeme, ls, spelled, other⟩ := restLexemes_eq_cons ended
    obtain ⟨failure, refused⟩ := accept_close other
    refine ⟨read.bind fun _ => .error failure, ?_, ?_⟩
    · cases read <;> simp [Except.bind]
    · intro items frames more
      rw [tail, spelled]
      cases read with
      | error failure => rfl
      | ok v =>
          change (acceptClose lexeme items v frames).andThen (ls ++ more) = _
          rw [refused]
          rfl

end Pairs

/-- The reader over the lexemes of plain data, in each place where they can stand. -/
theorem reads_plain {v : Value} (plain : v.Plain) :
    ReadsAlone v ∧ ReadsRest v ∧ ReadsBehindPoint v := by
  -- A list reads its items on their own, and an item may send it behind a point, so the three
  -- places are followed together.
  induction v with
  | nil =>
      have closes : ReadsRest .nil :=
        ⟨.ok .nil, .inl ⟨faithful_atom (by simp), rfl⟩, fun _ _ _ _ => rfl⟩
      have unmatched : ReadsBehindPoint .nil :=
        ⟨.error (.malformed .unmatchedClose), by simp, fun _ _ _ => rfl⟩
      exact ⟨readsAlone_atom (by simp) plain, closes, unmatched⟩
  | pair first rest ihFirst ihRest =>
      obtain ⟨aloneFirst, -, -⟩ := ihFirst plain.1
      obtain ⟨-, restRest, behindRest⟩ := ihRest plain.2
      exact ⟨readsAlone_pair aloneFirst restRest,
        readsRest_pair aloneFirst restRest behindRest, readsBehindPoint_pair aloneFirst⟩
  | procedure id name operation => exact plain.elim
  | closure id params body captured => exact plain.elim
  | _ =>
      exact ⟨readsAlone_atom (by simp) plain, readsRest_atom (by simp) plain (by simp),
        readsBehindPoint_atom (by simp) (by simp)⟩

/-- Data whose printed form is faithful are found by the reader, whatever follows them. -/
theorem feed_faithful {v : Value} (plain : v.Plain) (faithful : v.NoInnerPoint)
    (more : List Lexeme) : feed .idle (v.printLexemes ++ more) = (feed .idle more).after v := by
  obtain ⟨⟨read, rereads, run⟩, -, -⟩ := reads_plain plain
  obtain ⟨-, rfl⟩ := rereads.resolve_right fun h => h.1 faithful
  exact run [] (fun _ => by simp [NoPointHere]) more

/-- If the reader finds an equal value first, the printed form is faithful. -/
theorem faithful_of_feed {v w : Value} (plain : v.Plain) (same : w.equal v = true)
    {reading : Reading} (run : feed .idle v.printLexemes = reading.after w) :
    v.NoInnerPoint := by
  obtain ⟨⟨read, rereads, reads⟩, -, -⟩ := reads_plain plain
  have run' : feed .idle (v.printLexemes ++ []) = (handOver read []).andThen [] :=
    reads [] (fun _ => by simp [NoPointHere]) []
  rw [List.append_nil, run] at run'
  obtain ⟨faithful, -⟩ | ⟨-, smaller⟩ := rereads
  · exact faithful
  · cases read with
    | error failure => exact absurd (congrArg Reading.data run') (by simp [andThen_handOver_error])
    | ok v' =>
        obtain ⟨rfl, -⟩ := List.cons.inj (congrArg Reading.data run')
        -- Equal values have equally many pairs, so no smaller value can pass for `v`.
        have lt := smaller w rfl
        rw [Value.pairs_of_equal same] at lt
        exact absurd lt (Nat.lt_irrefl _)

end Reader

open Reader

/-- Plain data are read back from their printed form exactly when no rest of a list in them starts
with the point. -/
theorem readFirst_print_iff {v : Value} (plain : v.Plain) :
    (∃ w, readFirst v.print = .ok (w, v.print.length) ∧ w.equal v = true) ↔ v.NoInnerPoint := by
  have printed : lexemes v.print.toList = v.printLexemes := by
    simpa [lexemes_nil] using plain.lexemes_print Delimited.nil
  constructor
  · rintro ⟨w, read, same⟩
    obtain ⟨rest, run⟩ := feed_of_readFirst read
    rw [printed] at run
    exact faithful_of_feed plain same run
  · intro faithful
    obtain ⟨chars, c, spelled, present⟩ := plain.exists_last_char
    refine ⟨v, readFirst_of_feed spelled present ?_, v.equal_refl⟩
    rw [printed]
    simpa [feed_nil, Reading.after] using feed_faithful plain faithful []

/-- The text consists of the printed forms of the values with blanks between them. -/
inductive Joined : List Value → String → Prop where
  | nil : Joined [] ""
  | last (v : Value) : Joined [v] v.print
  | gap {v gap vs text} (present : gap ≠ "") (blank : ∀ c ∈ gap.toList, Text.isBlank c = true)
      (others : Joined vs text) : Joined (v :: vs) (v.print ++ gap ++ text)

theorem joined_intercalate {gap : String} (present : gap ≠ "")
    (blank : ∀ c ∈ gap.toList, Text.isBlank c = true) (vs : List Value) :
    Joined vs (gap.intercalate (vs.map Value.print)) := by
  induction vs with
  | nil => exact .nil
  | cons v vs ih =>
      cases vs with
      | nil =>
          rw [List.map_singleton, String.intercalate_singleton]
          exact .last v
      | cons w vs =>
          rw [List.map_cons, List.map_cons, String.intercalate_cons_cons]
          exact .gap present blank ih

/-- All printed data of a text are read back, however they are kept apart. -/
theorem readAll_joined {vs : List Value} {text : String} (joined : Joined vs text)
    (faithful : ∀ v ∈ vs, v.Plain ∧ v.NoInnerPoint) : readAll text = (vs, none) := by
  have run : feed .idle (lexemes text.toList) = ⟨vs, .ok .idle⟩ := by
    induction joined with
    | nil => rfl
    | last v =>
        obtain ⟨plain, good⟩ := faithful v (by simp)
        have printed := plain.lexemes_print Delimited.nil
        rw [List.append_nil] at printed
        rw [printed, lexemes_nil, feed_faithful plain good]
        rfl
    | @gap v gap vs text present blank others ih =>
        obtain ⟨plain, good⟩ := faithful v (by simp)
        have delimited : Delimited (gap.toList ++ text.toList) := by
          have present : gap.toList ≠ [] := mt String.toList_eq_nil_iff.mp present
          obtain ⟨c, rest, spelled⟩ := List.exists_cons_of_ne_nil present
          rw [spelled] at blank ⊢
          exact .blank (blank c List.mem_cons_self) _
        rw [String.toList_append, String.toList_append, List.append_assoc,
          plain.lexemes_print delimited, lexemes_blanks blank, feed_faithful plain good,
          ih fun w hw => faithful w (by simp [hw])]
        rfl
  simp [readAll_eq_feed, run, Reading.failure]

/-- Printing and reading agree on plain data as far as the point allows: a single datum is read
back exactly when no rest of a list in it starts with the point, and then so are any number of
data, whatever blanks stand between them. -/
theorem plain_data_reread :
    (∀ v : Value, v.Plain →
      ((∃ w, readFirst v.print = .ok (w, v.print.length) ∧ w.equal v = true) ↔
        v.NoInnerPoint)) ∧
    ∀ (vs : List Value) (text : String), Joined vs text →
      (∀ v ∈ vs, v.Plain ∧ v.NoInnerPoint) → readAll text = (vs, none) :=
  ⟨fun _ => readFirst_print_iff, fun _ _ => readAll_joined⟩

theorem plain_data_reread_points :
    (∃ w, readFirst "(. a . .)" = .ok (w, 9) ∧
      w.equal (.pair .point (.pair (.symbol "a") .point)) = true) ∧
    readAll "(. a . .) 12" = ([.pair .point (.pair (.symbol "a") .point), .int 12], none) := by
  have faithful : ∀ v ∈ [Value.pair .point (.pair (.symbol "a") .point), .int 12],
      v.Plain ∧ v.NoInnerPoint := by decide
  obtain ⟨plain, good⟩ := faithful (.pair .point (.pair (.symbol "a") .point)) (by simp)
  have joined := joined_intercalate (show " " ≠ "" by decide) (by simp)
    [Value.pair .point (.pair (.symbol "a") .point), .int 12]
  exact ⟨(plain_data_reread.1 _ plain).mpr good, plain_data_reread.2 _ _ joined faithful⟩

/-- The first datum of a text is read back from its printed form exactly when no rest of a list in
it starts with the point. -/
theorem reread_of_readFirst {text : String} {v : Value} {stop : Nat}
    (read : readFirst text = .ok (v, stop)) :
    (∃ w, readFirst v.print = .ok (w, v.print.length) ∧ w.equal v = true) ↔ v.NoInnerPoint :=
  readFirst_print_iff (plain_of_readFirst read)

theorem reread_dotted :
    readFirst "(a . 'b)" = .ok (.pair (.symbol "a") (Value.quote (.symbol "b")), 8) ∧
      ∃ w, readFirst "(a quote b)" = .ok (w, 11) ∧
        w.equal (.pair (.symbol "a") (Value.quote (.symbol "b"))) = true :=
  ⟨rfl, (reread_of_readFirst (show readFirst "(a . 'b)" = _ from rfl)).mpr (by decide)⟩

/-- A quoted point is printed as a list that cannot be read. -/
theorem quoted_point_not_reread :
    readFirst "'." = .ok (Value.quote .point, 2) ∧ (Value.quote .point).print = "(quote .)" ∧
      readFirst "(quote .)" = .error (.malformed .unmatchedClose) :=
  ⟨rfl, rfl, rfl⟩

end PocketLisp
