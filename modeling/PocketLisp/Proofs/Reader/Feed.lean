import PocketLisp.Proofs.Reader.Lexeme
import PocketLisp.Reader.Cursor

/-!
# Reading as a machine over lexemes

`feed` takes all lexemes of a text from any state of the reader, also from the middle of a datum,
and keeps the data found on the way. Since its state is explicit, a text can be cut anywhere
(`feed_append`). A cursor reads what the machine finds: one datum at a time
(`feed_of_readDatum`), and so all of them (`readAll_eq_feed`).

The reader is idle before the first datum and after each datum, and nowhere else. A text that ends
in any other state ended too early.
-/

namespace PocketLisp

namespace Reader

/-- Where the reader stands between two lexemes. -/
structure State where
  goal : Goal
  frames : List Frame
  deriving Repr, DecidableEq

/-- Nothing is open. -/
def State.idle : State := ⟨.datum, []⟩

/-- The data found, and where the reader stands unless it failed. -/
structure Reading where
  data : List Value
  stand : Except ReadFailure State

namespace Reading

/-- The same reading with a datum found before it. -/
def after (datum : Value) (reading : Reading) : Reading :=
  ⟨datum :: reading.data, reading.stand⟩

/-- What keeps a text that is read to its end from being complete. -/
def failure (reading : Reading) : Option ReadFailure :=
  match reading.stand with
  | .ok s => if s = .idle then none else some (.malformed .endOfText)
  | .error failure => some failure

@[simp] theorem data_after (datum : Value) (reading : Reading) :
    (reading.after datum).data = datum :: reading.data := rfl

@[simp] theorem stand_after (datum : Value) (reading : Reading) :
    (reading.after datum).stand = reading.stand := rfl

@[simp] theorem failure_after (datum : Value) (reading : Reading) :
    (reading.after datum).failure = reading.failure := rfl

end Reading

/-- What a lexeme can do to the reader. -/
inductive Takes : Goal → Lexeme → List Frame → Step → Prop where
  | atom {text datum frames} (read : readAtom text = .ok datum) :
      Takes .datum (.atom text) frames (deliver datum frames)
  | refusedAtom {text failure frames} (read : readAtom text = .error failure) :
      Takes .datum (.atom text) frames (.failed failure)
  | dot {item items frames} :
      Takes .datum (.atom ".") (.list (item :: items) :: frames)
        (.more .datum (.dotted (item :: items) :: frames))
  | quote {frames} : Takes .datum .quote frames (.more .datum (.quote :: frames))
  | opening {frames} : Takes .datum .opening frames (.more .datum (.list [] :: frames))
  | endList {items frames} :
      Takes .datum .closing (.list items :: frames) (deliver (listOf items .nil) frames)
  | unmatched {frames} : Takes .datum .closing frames (.failed (.malformed .unmatchedClose))
  | endDotted {items tail frames} :
      Takes (.close items tail) .closing frames (deliver (listOf items tail) frames)
  | unexpected {lexeme items tail frames} (other : lexeme ≠ .closing) :
      Takes (.close items tail) lexeme frames
        (.refused (.malformed (.unexpected (lexeme.text.take 1).toString ")")))

theorem takes_accept (goal : Goal) (lexeme : Lexeme) (frames : List Frame) :
    Takes goal lexeme frames (goal.accept lexeme frames) := by
  cases goal with
  | close items tail =>
      rw [Goal.accept]
      unfold acceptClose
      split
      · exact .endDotted
      · next other => exact .unexpected other
  | datum =>
      rw [Goal.accept]
      unfold acceptDatum
      split
      · exact .dot
      · unfold acceptAtom
        split
        · next read => exact .atom read
        · next read => exact .refusedAtom read
      · exact .quote
      · exact .opening
      · exact .endList
      · exact .unmatched

/-- Hands over what was read, if anything was. -/
def handOver (read : Except ReadFailure Value) (frames : List Frame) : Step :=
  match read with
  | .ok datum => deliver datum frames
  | .error failure => .failed failure

/-- The atom `.` is not taken for a point here. -/
def NoPointHere (frames : List Frame) : Prop :=
  ∀ item items outer, frames ≠ .list (item :: items) :: outer

/-- Where it is not taken for a point, an atom is read. -/
theorem accept_atom {text : String} {frames : List Frame}
    (here : text = "." → NoPointHere frames) :
    acceptDatum (.atom text) frames = handOver (readAtom text) frames := by
  unfold acceptDatum
  split
  · next item items frames h =>
    exact absurd rfl (here (Lexeme.atom.inj h) item items frames)
  · next spelled _ =>
    obtain rfl := Lexeme.atom.inj spelled
    rw [acceptAtom]
    cases readAtom text <;> rfl
  all_goals contradiction

/-- Takes lexemes until they end or the reading fails. -/
def feed (s : State) : List Lexeme → Reading
  | [] => ⟨[], .ok s⟩
  | lexeme :: rest =>
    match s.goal.accept lexeme s.frames with
    | .more goal frames => feed ⟨goal, frames⟩ rest
    | .complete datum => (feed .idle rest).after datum
    | .failed failure | .refused failure => ⟨[], .error failure⟩

/-- Takes the lexemes that follow a step. -/
def Step.andThen (step : Step) (rest : List Lexeme) : Reading :=
  match step with
  | .more goal frames => feed ⟨goal, frames⟩ rest
  | .complete datum => (feed .idle rest).after datum
  | .failed failure | .refused failure => ⟨[], .error failure⟩

theorem feed_nil (s : State) : feed s [] = ⟨[], .ok s⟩ := rfl

theorem feed_cons (s : State) (lexeme : Lexeme) (rest : List Lexeme) :
    feed s (lexeme :: rest) = (s.goal.accept lexeme s.frames).andThen rest := rfl

@[simp] theorem Step.andThen_more (goal : Goal) (frames : List Frame) (rest : List Lexeme) :
    (Step.more goal frames).andThen rest = feed ⟨goal, frames⟩ rest := rfl

@[simp] theorem Step.andThen_complete (datum : Value) (rest : List Lexeme) :
    (Step.complete datum).andThen rest = (feed .idle rest).after datum := rfl

@[simp] theorem Step.andThen_failed (failure : ReadFailure) (rest : List Lexeme) :
    (Step.failed failure).andThen rest = ⟨[], .error failure⟩ := rfl

@[simp] theorem Step.andThen_refused (failure : ReadFailure) (rest : List Lexeme) :
    (Step.refused failure).andThen rest = ⟨[], .error failure⟩ := rfl

/-- Goes on with a reading. One that failed stays as it is. -/
def Reading.resume (reading : Reading) (rest : List Lexeme) : Reading :=
  match reading.stand with
  | .ok s => ⟨reading.data ++ (feed s rest).data, (feed s rest).stand⟩
  | .error _ => reading

theorem Reading.resume_after (datum : Value) (reading : Reading) (rest : List Lexeme) :
    (reading.after datum).resume rest = (reading.resume rest).after datum := by
  unfold resume
  cases hstand : reading.stand <;> simp [after, hstand]

/-- Lexemes can be taken in two parts. -/
theorem feed_append (s : State) (first rest : List Lexeme) :
    feed s (first ++ rest) = (feed s first).resume rest := by
  induction first generalizing s with
  | nil => simp [feed_nil, Reading.resume]
  | cons lexeme first ih =>
      rw [List.cons_append, feed_cons, feed_cons]
      cases s.goal.accept lexeme s.frames with
      | more goal frames => exact ih ⟨goal, frames⟩
      | complete datum =>
          rw [Step.andThen_complete, Step.andThen_complete, ih, Reading.resume_after]
      | failed failure => rfl
      | refused failure => rfl

section Idle

/-- Handing over a datum that does not complete the outermost one leaves something open. -/
theorem deliver_ne_idle (datum : Value) (frames : List Frame) :
    deliver datum frames ≠ .more .datum [] := by
  induction frames generalizing datum with
  | nil => simp [deliver]
  | cons frame frames ih => cases frame <;> simp [deliver, ih]

/-- A lexeme that does not complete a datum leaves something open. -/
theorem accept_ne_idle (goal : Goal) (lexeme : Lexeme) (frames : List Frame) :
    goal.accept lexeme frames ≠ .more .datum [] := by
  intro h
  have taken := takes_accept goal lexeme frames
  rw [h] at taken
  generalize hstep : Step.more .datum [] = step at taken
  cases taken with
  | atom read => exact deliver_ne_idle _ _ hstep.symm
  | endList => exact deliver_ne_idle _ _ hstep.symm
  | endDotted => exact deliver_ne_idle _ _ hstep.symm
  | _ => simp at hstep

/-- Only a reader that takes no lexeme is idle at the end without having found a datum. -/
theorem nil_of_feed_idle {s : State} {ls : List Lexeme} (h : feed s ls = ⟨[], .ok .idle⟩) :
    s = .idle ∧ ls = [] := by
  induction ls generalizing s with
  | nil =>
      rw [feed_nil, Reading.mk.injEq, Except.ok.injEq] at h
      exact ⟨h.2, rfl⟩
  | cons lexeme rest ih =>
      rw [feed_cons] at h
      cases step : s.goal.accept lexeme s.frames with
      | more goal frames =>
          rw [step] at h
          obtain ⟨idle, rfl⟩ := ih h
          rw [State.idle, State.mk.injEq] at idle
          exact absurd (idle.1 ▸ idle.2 ▸ step) (accept_ne_idle _ _ _)
      | complete datum => simp [step, Reading.after] at h
      | failed failure => simp [step] at h
      | refused failure => simp [step] at h

end Idle

end Reader

namespace Cursor

open Reader

/-- The lexemes not yet taken. -/
def remaining (s : Cursor) : List Lexeme :=
  s.tokens.map Token.lexeme

/-- A datum that is read is the first one that the machine finds, and the rest of its run is over
what the cursor has left. -/
theorem feed_of_readTowards {goal : Goal} {frames : List Frame} {position : Nat}
    {tokens : List Token} {datum : Value} {rest : Cursor}
    (h : readTowards goal frames position tokens = (.ok datum, rest)) :
    feed ⟨goal, frames⟩ (tokens.map Token.lexeme) = (feed .idle rest.remaining).after datum := by
  induction tokens generalizing goal frames position with
  | nil => simp [readTowards] at h
  | cons token tokens ih =>
      rw [List.map_cons, feed_cons]
      rw [readTowards] at h
      split at h
      · next more => simpa only [more, Step.andThen_more] using ih h
      · next complete =>
        cases h
        rw [complete, Step.andThen_complete]
        rfl
      · simp at h
      · simp at h

/-- A failure to read a datum is where the machine fails, or the end of the text before the datum
is complete. -/
theorem feed_of_readTowards_error {goal : Goal} {frames : List Frame} {position : Nat}
    {tokens : List Token} {failure : ReadFailure} {rest : Cursor}
    (h : readTowards goal frames position tokens = (.error failure, rest))
    (pending : tokens = [] → State.mk goal frames ≠ .idle) :
    (feed ⟨goal, frames⟩ (tokens.map Token.lexeme)).data = [] ∧
      (feed ⟨goal, frames⟩ (tokens.map Token.lexeme)).failure = some failure := by
  induction tokens generalizing goal frames position with
  | nil =>
      obtain ⟨rfl, -⟩ : ReadFailure.malformed .endOfText = failure ∧ _ := by
        simpa [readTowards] using h
      exact ⟨rfl, by simp [feed_nil, Reading.failure, pending rfl]⟩
  | cons token tokens ih =>
      rw [List.map_cons, feed_cons]
      rw [readTowards] at h
      split at h
      · next more =>
        rw [more, Step.andThen_more]
        apply ih h
        intro _ idle
        obtain ⟨rfl, rfl⟩ := State.mk.inj idle
        exact accept_ne_idle _ _ _ more
      · simp at h
      · next failed =>
        cases h
        exact ⟨by rw [failed]; rfl, by rw [failed]; rfl⟩
      · next refused =>
        cases h
        exact ⟨by rw [refused]; rfl, by rw [refused]; rfl⟩

/-- A datum ends where the last token that was taken for it stops. -/
theorem position_of_readTowards {goal : Goal} {frames : List Frame} {position : Nat}
    {tokens : List Token} {datum : Value} {rest : Cursor}
    (h : readTowards goal frames position tokens = (.ok datum, rest)) :
    ∃ taken last, tokens = taken ++ last :: rest.tokens ∧ rest.position = last.stop := by
  induction tokens generalizing goal frames position with
  | nil => simp [readTowards] at h
  | cons token tokens ih =>
      rw [readTowards] at h
      split at h
      · obtain ⟨taken, last, rfl, stop⟩ := ih h
        exact ⟨token :: taken, last, rfl, stop⟩
      · cases h
        exact ⟨[], token, rfl, rfl⟩
      · simp at h
      · simp at h

/-- Reading on to the end finds what the machine finds. -/
theorem readAllAfter_eq_feed (found : List Value) (s : Cursor) :
    (s.readAllAfter found).1 = found.reverse ++ (feed .idle s.remaining).data ∧
      (s.readAllAfter found).2.1 = (feed .idle s.remaining).failure := by
  induction found, s using readAllAfter.induct with
  | case1 found s ended =>
      have empty : s.remaining = [] := by simpa [remaining, atEnd] using ended
      rw [readAllAfter_ended ended, empty]
      simp [feed_nil, Reading.failure]
  | case2 found s pending datum rest taken ih =>
      have run : feed .idle s.remaining = (feed .idle rest.remaining).after datum :=
        feed_of_readTowards taken
      rw [readAllAfter_ok pending taken, run]
      simpa using ih
  | case3 found s pending failure rest taken =>
      have present : s.tokens ≠ [] := by simpa [atEnd] using pending
      obtain ⟨data, fails⟩ := feed_of_readTowards_error taken (fun empty => absurd empty present)
      rw [readAllAfter_error pending taken]
      exact ⟨by simp [remaining, State.idle, data], fails.symm⟩

end Cursor

open Reader

/-- The data of a text are those that the machine finds, and a text is complete when the machine
ends idle. -/
theorem readAll_eq_feed (text : String) :
    readAll text =
      ((feed .idle (lexemes text.toList)).data, (feed .idle (lexemes text.toList)).failure) := by
  obtain ⟨data, failure⟩ := Cursor.readAllAfter_eq_feed [] (Cursor.ofText text)
  exact Prod.ext data failure

/-- The first datum of a text is the first that the machine finds. -/
theorem feed_of_readFirst {text : String} {datum : Value} {stop : Nat}
    (h : readFirst text = .ok (datum, stop)) :
    ∃ rest, feed .idle (lexemes text.toList) = (feed .idle rest).after datum := by
  unfold readFirst Cursor.readDatum at h
  split at h
  next result rest taken =>
    cases result with
    | error failure => simp [Except.map] at h
    | ok found =>
        obtain ⟨rfl, -⟩ : found = datum ∧ rest.position = stop := by simpa [Except.map] using h
        exact ⟨_, Cursor.feed_of_readTowards taken⟩

/-- A text of one datum, with no blank behind it, is read whole. -/
theorem readFirst_of_feed {text : String} {datum : Value} {chars : List Char} {c : Char}
    (spelled : text.toList = chars ++ [c]) (present : Text.isBlank c = false)
    (run : feed .idle (lexemes text.toList) = ⟨[datum], .ok .idle⟩) :
    readFirst text = .ok (datum, text.length) := by
  unfold readFirst Cursor.readDatum
  split
  next result rest taken =>
    cases result with
    | error failure =>
        obtain ⟨data, -⟩ := Cursor.feed_of_readTowards_error taken fun empty => by
          have none : lexemes text.toList = [] := congrArg (List.map Token.lexeme) empty
          simp [none, feed_nil] at run
        have found : (feed .idle (lexemes text.toList)).data = [] := data
        simp [run] at found
    | ok found =>
        obtain ⟨before, last, tokens, stop⟩ := Cursor.position_of_readTowards taken
        have run' : feed .idle (lexemes text.toList) = (feed .idle rest.remaining).after found :=
          Cursor.feed_of_readTowards taken
        obtain ⟨⟨rfl, data⟩, stand⟩ : (datum = found ∧ [] = (feed .idle rest.remaining).data) ∧
            .ok .idle = (feed .idle rest.remaining).stand := by
          simpa [run, Reading.after] using run'
        have idle : feed .idle rest.remaining = ⟨[], .ok .idle⟩ := by rw [data, stand]
        obtain ⟨-, ended⟩ := nil_of_feed_idle idle
        rw [List.map_eq_nil_iff.mp ended] at tokens
        obtain ⟨before', last', tokens', stop'⟩ := Token.exists_last_token present 0 [] [] chars
        have same : before ++ [last] = before' ++ [last'] := by
          rw [← tokens, ← tokens', ← spelled]
          rfl
        obtain rfl := List.singleton_inj.mp (List.append_inj' same rfl).2
        have position : rest.position = text.length := by
          rw [stop, stop', ← spelled, Nat.zero_add, String.length_toList]
        rw [position]
        rfl

end PocketLisp
