import PocketLisp.CommandLine.Run

/-!
# The program

Connects `CommandLine.run` and the prompt loop to the standard streams, the file system and the
variables of the process. Only the loop over the lines of the standard input is written out here,
since a prompt must be seen before the line behind it is typed. What escapes is thrown.
-/

namespace PocketLisp.Program

open CommandLine

/-- What this program has room for: its own stack holds ten thousand levels of everything. -/
def host : Host := fun limit =>
  let depth := min limit 10000
  some (depth, { reading := depth, printing := depth, reporting := depth })

/-- The reason that the system gives for not reading a file. A file where a directory should be has
the system's error number 20. -/
def reasonOf : IO.Error → String
  | .inappropriateType _ code _ => if code == 20 then "Not a directory" else "Is a directory"
  | .permissionDenied .. => "Permission denied"
  | _ => "No such file or directory"

/-- The contents of a file. -/
def readContents (path : Path) : IO (Except Refusal ByteArray) := do
  if path.text.contains '\x00' then
    return .error .nulInPath
  try
    pure (.ok (← IO.FS.readBinFile path.text))
  catch e =>
    pure (.error (.system (reasonOf e)))

/-- Leaves the program for something that escapes. -/
def escape (cause : Escape) : IO α :=
  throw (.userError (reprStr cause))

/-- Converses over the standard input, from a state of the loop on. -/
partial def converse (ev : Evaluator) (limits : Limits) (debug : Bool) (prompt : String)
    (r : Repl) : IO Unit := do
  let out ← IO.getStdout
  out.putStr (r.nextPrompt prompt).text
  out.flush
  let line ← (← IO.getStdin).getLine
  if line.isEmpty then
    out.putStr Entry.farewell.text
  else
    let turn := r.takeLine ev limits line
    turn.entries.forM fun entry => out.putStr entry.text
    IO.eprint (errorLog debug turn.next.machine)
    match turn.escaped with
    | none =>
      let next := { turn.next with machine := turn.next.machine.clearTrace }
      converse ev limits debug prompt next
    | some cause => escape cause

/-- Writes what came of a run; the answer is the exit code. -/
def conclude (outcome : Outcome) : IO UInt32 := do
  IO.print outcome.out
  IO.eprint outcome.err
  match outcome.ending with
  | .returned code | .left code => pure code.toUInt32
  | .escaped cause => escape cause

/-- Does what a command line asks for; the answer is the exit code. -/
def start (arguments : List String) : IO UInt32 := do
  let settings := Settings.ofVariables (← IO.getEnv Settings.promptVariable)
    (← IO.getEnv Settings.limitVariable)
  match Request.ofArguments arguments, host settings.depthLimit with
  | .run debug [], some (depth, limits) =>
    converse (evaluate depth) limits debug settings.prompt { machine := Session.start }
    pure 0
  | .run _ names, _ =>
    let paths := names.map Path.ofText
    let contents ← paths.mapM readContents
    let files : Files := fun path =>
      ((paths.zip contents).lookup path).getD (.error .nulInPath)
    conclude (run host settings files "" .exhausted arguments)
  | _, _ => conclude (run host settings (fun _ => .error .nulInPath) "" .exhausted arguments)

end PocketLisp.Program

def main (arguments : List String) : IO UInt32 :=
  PocketLisp.Program.start arguments
