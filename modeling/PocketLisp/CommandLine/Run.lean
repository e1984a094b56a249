import PocketLisp.CommandLine.Files
import PocketLisp.CommandLine.Request
import PocketLisp.Eval.Trace
import PocketLisp.Repl
import PocketLisp.Settings

/-!
# Running the program

Files are evaluated in one session, in order, and the values of their forms are printed; the first
file that cannot be read, evaluated or printed is complained about and ends the run. Without files
the prompt loop converses over the standard input. With debugging the log of the session goes to the
error output; a failure that is explained is recorded in it first, and a file that does not open is
not.

That there is no room for something is explained as well, unless it is the explanation itself that
there is no room for. What else escapes are bytes that spell no text, numerals of too many digits,
paths that are none, and a recursion limit that the host refuses.
-/

namespace PocketLisp.CommandLine

/-- How evaluating a file ended. -/
inductive Verdict where
  | complete
  | unopened (complaint : String)
  | failed (message : String)
  | escaped (cause : Escape)
  deriving Repr, DecidableEq

/-- The values of the forms of a file, how it ended, and the session after it. -/
structure FileRun where
  values : List Value
  verdict : Verdict
  machine : Machine
  deriving Repr, DecidableEq

/-- The verdict on a file that was evaluated: from the failure of the evaluation if there was one,
and whether there was no room to read the rest. -/
def Verdict.of (limits : Limits) (failure? : Option Failure) (cut : Bool) : Verdict :=
  match failure?, cut with
  | some (.evaluation failure), _ =>
    if limits.explains failure then .failed failure.message else .escaped .tooDeep
  | _, true => .failed EvalFailure.tooDeep.message
  | none, false => .complete
  | some (.reading (.malformed fault)), false => .failed fault.message
  | some (.reading (.numeralTooLong digits)), false => .escaped (.numeralTooLong digits)

/-- Evaluates the forms of a text in order and prints their values. -/
def runText (ev : Evaluator) (limits : Limits) (text : String) (m : Machine) : FileRun :=
  let (c, cut) := (Cursor.ofText text).within limits.reading
  let (results, m) := Session.evalAfter (limits.evalPrinted ev) [] c m
  ⟨results.values, .of limits results.failure cut, m⟩

/-- Evaluates the contents of a file, or complains that there are none. -/
def runFile (ev : Evaluator) (limits : Limits) (path : Path)
    (contents : Except Refusal ByteArray) (m : Machine) : FileRun :=
  match contents with
  | .error (.system reason) =>
    ⟨[], .unopened ("cannot read " ++ path.text ++ ": " ++ reason), m⟩
  | .error .nulInPath => ⟨[], .escaped .nulInPath, m⟩
  | .ok bytes =>
    match String.fromUTF8? bytes with
    | none => ⟨[], .escaped .notUnicode, m⟩
    | some text => runText ev limits text m

/-- The lines that show values. -/
def valueLines (values : List Value) : String :=
  String.join (values.map fun v => v.print ++ "\n")

/-- The line that complains. -/
def complaintLine (message : String) : String :=
  "error: " ++ message ++ "\n"

/-- The lines of the log. -/
def logLines (m : Machine) : String :=
  String.join (m.trace.toList.map fun event => event.logLine ++ "\n")

/-- Evaluates files in order until one fails. The values found before are given newest first. -/
def runFilesAfter (ev : Evaluator) (limits : Limits) (files : Files) (found : List Value)
    (m : Machine) : List Path → FileRun
  | [] => ⟨found.reverse, .complete, m⟩
  | path :: paths =>
    let run := runFile ev limits path (files path) m
    let found := run.values.reverse ++ found
    match run.verdict with
    | .complete => runFilesAfter ev limits files found run.machine paths
    | verdict => ⟨found.reverse, verdict, run.machine⟩

/-- Evaluates files in order in a new session. -/
def runFiles (ev : Evaluator) (limits : Limits) (files : Files) (paths : List Path) : FileRun :=
  runFilesAfter ev limits files [] Session.start paths

/-- How the program ends: its main routine returns a code, the program leaves early with a code, or
something escapes. -/
inductive Ending where
  | returned (code : Nat)
  | left (code : Nat)
  | escaped (cause : Escape)
  deriving Repr, DecidableEq

/-- What the program writes to its two outputs, and how it ends. -/
structure Outcome where
  out : String := ""
  err : String := ""
  ending : Ending
  deriving Repr, DecidableEq

/-- The log in the error output. -/
def errorLog (debug : Bool) (m : Machine) : String :=
  if debug then logLines m else ""

/-- What evaluating files amounts to. -/
def outcomeOfFiles (debug : Bool) (run : FileRun) : Outcome :=
  let out := valueLines run.values
  let log := errorLog debug run.machine
  let failureLog := errorLog debug (run.machine.reported .failure)
  match run.verdict with
  | .complete => { out, err := log, ending := .returned 0 }
  | .unopened complaint => { out, err := log ++ complaintLine complaint, ending := .returned 1 }
  | .failed message => { out, err := failureLog ++ complaintLine message, ending := .returned 1 }
  | .escaped .tooDeep => { out, err := failureLog, ending := .escaped .tooDeep }
  | .escaped cause => { out, err := log, ending := .escaped cause }

/-- What a conversation amounts to. -/
def outcomeOfConversation (debug : Bool) (t : Transcript) : Outcome :=
  let ending :=
    match t.closing with
    | .ended _ => .returned 0
    | .escaped cause => .escaped cause
  { out := t.text, err := errorLog debug t.machine, ending }

/-- Does what a command line asks for, on a host, with files, and with a standard input that ends in
the given way. -/
def run (host : Host) (settings : Settings) (files : Files) (input : String) (last : InputEnd)
    (arguments : List String) : Outcome :=
  match Request.ofArguments arguments with
  | .help => { out := helpText, ending := .left 0 }
  | .version => { out := versionText, ending := .left 0 }
  | .misuse complaint => { err := misuseText complaint, ending := .left 2 }
  | .run debug names =>
    match host settings.depthLimit with
    | none => { ending := .escaped .limitRefused }
    | some (depth, limits) =>
      match names with
      | [] =>
        outcomeOfConversation debug
          (Repl.converse (evaluate depth) limits settings.prompt input last Session.start)
      | names =>
        outcomeOfFiles debug
          (runFiles (evaluate depth) limits files (names.map Path.ofText))

end PocketLisp.CommandLine
