import PocketLisp.Host
import PocketLisp.Reader.Reach
import PocketLisp.Session
import PocketLisp.Text.Lines

/-!
# The prompt loop

Lines are collected until they read as complete data; such a run of lines is a block. The data of a
block are then evaluated in order and their values shown. An error is shown in their place: if the
block does not read, none of it is evaluated, and if a form fails, the rest of the block is skipped.
The loop goes on with the next line in either case, until the input is exhausted or the user
interrupts it.

The loop is a function of one line at a time, `Repl.takeLine`, and what it shows is data, the
entries of a transcript. Something else may end it early: a numeral that the reader refuses for its
length is no error of the language, and there may be no room to read a block, to print a value or to
explain a failure. Only the evaluation of a form may run out of room and be explained.

An interruption comes while a line is awaited. One that comes while a form is evaluated is left out;
it would end the loop from within.
-/

namespace PocketLisp

/-- What the loop shows: a prompt, the value of a form, an error, or the end of the conversation. -/
inductive Entry where
  | prompt (text : String)
  | value (value : Value)
  | error (message : String)
  | farewell
  deriving Repr, DecidableEq

/-- The text of an entry. -/
def Entry.text : Entry → String
  | prompt text => text
  | value v => v.print ++ "\n"
  | error message => "error: " ++ message ++ "\n"
  | farewell => "\n"

/-- The loop between two lines: the session and the lines of the block that is not complete yet. -/
structure Repl where
  machine : Machine
  pending : String := ""
  deriving Repr, DecidableEq

/-- What comes of a line: what is shown, what ends the loop if anything does, and how the loop
stands. -/
structure Turn where
  entries : List Entry
  escaped : Option Escape := none
  next : Repl
  deriving Repr, DecidableEq

namespace Repl

/-- The prompt for a further line of a block. -/
def continuationPrompt : String := "... "

/-- The prompt for the next line. -/
def nextPrompt (prompt : String) (r : Repl) : Entry :=
  .prompt (if r.pending.isEmpty then prompt else continuationPrompt)

/-- Evaluates the data of a block in order, up to the first failure. The entries so far are given
newest first. -/
def evalBlockAfter (ev : Evaluator) (limits : Limits) (shown : List Entry) (m : Machine) :
    List Value → Turn
  | [] => { entries := shown.reverse, next := { machine := m } }
  | form :: forms =>
    match ev form Session.globalScope m with
    | .ok value m =>
      if limits.prints value then evalBlockAfter ev limits (.value value :: shown) m forms
      else { entries := shown.reverse, escaped := some .tooDeep, next := { machine := m } }
    | .error failure m =>
      let next := { machine := m.reported .failure }
      if limits.explains failure then
        { entries := (.error failure.message :: shown).reverse, next }
      else { entries := shown.reverse, escaped := some .tooDeep, next }

/-- Evaluates the data of a block in order, up to the first failure. -/
def evalBlock (ev : Evaluator) (limits : Limits) (forms : List Value) (m : Machine) : Turn :=
  evalBlockAfter ev limits [] m forms

/-- Takes one line: it completes a block, which is then carried out, or is kept with the lines
before it. A block that cannot be read for another reason than a fault ends the loop. -/
def takeLine (ev : Evaluator) (limits : Limits) (line : String) (r : Repl) : Turn :=
  let block := r.pending ++ line
  match readAllWithin limits.reading block with
  | (forms, none) => evalBlock ev limits forms r.machine
  | (_, some (.failed (.malformed .endOfText))) =>
    { entries := [], next := { r with pending := block } }
  | (_, some (.failed (.malformed fault))) =>
    { entries := [.error fault.message], next := { machine := r.machine.reported .failure } }
  | (_, some (.failed (.numeralTooLong digits))) =>
    { entries := [], escaped := some (.numeralTooLong digits), next := r }
  | (_, some .tooDeep) => { entries := [], escaped := some .tooDeep, next := r }

end Repl

/-- How the input comes to its end. -/
inductive InputEnd where
  | exhausted
  | interrupted
  deriving Repr, DecidableEq

/-- How a conversation ends: with its input, or because something escapes. -/
inductive Closing where
  | ended (last : InputEnd)
  | escaped (cause : Escape)
  deriving Repr, DecidableEq

/-- A conversation with the prompt loop: what was shown, how it ended, and the session after it. -/
structure Transcript where
  entries : List Entry
  closing : Closing
  machine : Machine
  deriving Repr, DecidableEq

/-- All that a conversation shows. -/
def Transcript.text (t : Transcript) : String :=
  String.join (t.entries.map Entry.text)

namespace Repl

/-- Takes the lines in turn, each after a prompt, and takes leave after the last one. The entries so
far are given newest first. -/
def converseAfter (ev : Evaluator) (limits : Limits) (prompt : String) (last : InputEnd)
    (shown : List Entry) (r : Repl) : List String → Transcript
  | [] => ⟨(.farewell :: r.nextPrompt prompt :: shown).reverse, .ended last, r.machine⟩
  | line :: lines =>
    let turn := r.takeLine ev limits line
    let shown := turn.entries.reverse ++ r.nextPrompt prompt :: shown
    match turn.escaped with
    | none => converseAfter ev limits prompt last shown turn.next lines
    | some cause => ⟨shown.reverse, .escaped cause, turn.next.machine⟩

/-- The conversation over a text, line by line, with an input that ends in the given way behind it.
Lines that are pending at the end are dropped. -/
def converse (ev : Evaluator) (limits : Limits) (prompt text : String) (last : InputEnd)
    (m : Machine) : Transcript :=
  converseAfter ev limits prompt last [] { machine := m } (Text.lines text)

end Repl

end PocketLisp
