import PocketLisp.Proofs.Reader.Atom
import PocketLisp.Proofs.Reader.Feed

/-!
# What is read is plain

A text spells nothing but plain data. The invariant is on the state of the reader: everything that
is held in an open construct is plain, and a lexeme keeps it so.
-/

namespace PocketLisp

namespace Reader

/-- The items held in an open construct are plain. -/
def Frame.Plain : Frame → Prop
  | quote => True
  | list items | dotted items => ∀ v ∈ items, v.Plain

/-- What a dotted list is closed with is plain. -/
def Goal.Plain : Goal → Prop
  | datum => True
  | close items tail => (∀ v ∈ items, v.Plain) ∧ tail.Plain

/-- Everything that the reader holds is plain. -/
structure State.Plain (s : State) : Prop where
  goal : s.goal.Plain
  frames : ∀ frame ∈ s.frames, frame.Plain

/-- A step leaves or completes plain data, or fails. -/
def Step.Plain : Step → Prop
  | more goal frames => (State.mk goal frames).Plain
  | complete datum => datum.Plain
  | failed _ | refused _ => True

theorem State.plain_idle : State.idle.Plain :=
  ⟨trivial, by simp [idle]⟩

theorem State.plain_open {frame : Frame} {frames : List Frame} (plainFrame : frame.Plain)
    (plain : ∀ frame ∈ frames, frame.Plain) : (State.mk .datum (frame :: frames)).Plain :=
  ⟨trivial, List.forall_mem_cons.mpr ⟨plainFrame, plain⟩⟩

theorem plain_quote {v : Value} (plain : v.Plain) : v.quote.Plain :=
  ⟨by decide, plain, trivial⟩

theorem plain_listOf {items : List Value} {tail : Value} (plain : ∀ v ∈ items, v.Plain)
    (plainTail : tail.Plain) : (listOf items tail).Plain :=
  Value.plain_ofList (fun v hv => plain v (List.mem_reverse.mp hv)) plainTail

/-- Handing over a plain datum keeps what the reader holds plain. -/
theorem plain_deliver {datum : Value} (plain : datum.Plain) {frames : List Frame}
    (plainFrames : ∀ frame ∈ frames, frame.Plain) : (deliver datum frames).Plain := by
  induction frames generalizing datum with
  | nil => exact plain
  | cons frame frames ih =>
      obtain ⟨plainFrame, plainOthers⟩ := List.forall_mem_cons.mp plainFrames
      cases frame with
      | quote => exact ih (plain_quote plain) plainOthers
      | list items =>
          exact State.plain_open (List.forall_mem_cons.mpr ⟨plain, plainFrame⟩) plainOthers
      | dotted items => exact ⟨⟨plainFrame, plain⟩, plainOthers⟩

/-- A lexeme keeps what the reader holds plain. -/
theorem plain_accept {goal : Goal} {frames : List Frame} (plain : (State.mk goal frames).Plain)
    {lexeme : Lexeme} (atoms : ∀ text, lexeme = .atom text → AtomText text.toList) :
    (goal.accept lexeme frames).Plain := by
  obtain ⟨plainGoal, plainFrames⟩ := plain
  have taken := takes_accept goal lexeme frames
  generalize goal.accept lexeme frames = step at taken
  cases taken with
  | atom read => exact plain_deliver (plain_of_readAtom (atoms _ rfl) read) plainFrames
  | refusedAtom read => trivial
  | dot =>
      obtain ⟨plainFrame, plainOthers⟩ := List.forall_mem_cons.mp plainFrames
      exact State.plain_open plainFrame plainOthers
  | quote => exact State.plain_open trivial plainFrames
  | opening => exact State.plain_open (List.forall_mem_nil _) plainFrames
  | endList =>
      obtain ⟨plainFrame, plainOthers⟩ := List.forall_mem_cons.mp plainFrames
      exact plain_deliver (plain_listOf plainFrame Value.plain_nil) plainOthers
  | unmatched => trivial
  | endDotted => exact plain_deliver (plain_listOf plainGoal.1 plainGoal.2) plainFrames
  | unexpected => trivial

/-- The data found are plain. -/
theorem plain_feed {s : State} (plain : s.Plain) {ls : List Lexeme}
    (atoms : ∀ text, .atom text ∈ ls → AtomText text.toList) :
    ∀ v ∈ (feed s ls).data, v.Plain := by
  induction ls generalizing s with
  | nil => simp [feed_nil]
  | cons lexeme rest ih =>
      have first (text : String) (h : lexeme = .atom text) : AtomText text.toList :=
        atoms text (h ▸ List.mem_cons_self)
      have others (text : String) (h : .atom text ∈ rest) : AtomText text.toList :=
        atoms text (List.mem_cons_of_mem _ h)
      have plainStep := plain_accept plain first
      rw [feed_cons]
      cases step : s.goal.accept lexeme s.frames with
      | more goal frames =>
          rw [step] at plainStep
          exact ih plainStep others
      | complete datum =>
          rw [step] at plainStep
          exact List.forall_mem_cons.mpr ⟨plainStep, ih State.plain_idle others⟩
      | failed failure => simp
      | refused failure => simp

end Reader

open Reader

/-- The data that a text spells are plain. -/
theorem plain_of_lexemes (text : String) :
    ∀ v ∈ (feed .idle (lexemes text.toList)).data, v.Plain :=
  plain_feed State.plain_idle fun _ => atomText_of_mem_lexemes

/-- The first datum of a text is plain. -/
theorem plain_of_readFirst {text : String} {v : Value} {stop : Nat}
    (h : readFirst text = .ok (v, stop)) : v.Plain := by
  obtain ⟨rest, run⟩ := feed_of_readFirst h
  have plain := plain_of_lexemes text
  rw [run] at plain
  exact plain v List.mem_cons_self

/-- All data of a text are plain, also when the text has a fault behind them. -/
theorem plain_of_mem_readAll {text : String} {v : Value} (h : v ∈ (readAll text).1) : v.Plain := by
  rw [readAll_eq_feed] at h
  exact plain_of_lexemes text v h

end PocketLisp
