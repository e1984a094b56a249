import PocketLisp.CommandLine.Word
import PocketLisp.Text.Quoted

/-!
# What a command line asks for

The words are taken in order. Asking for help or for the version ends the matter at once, before any
complaint about later words. The first group of positional arguments that no option interrupts names
the files, and a separator within it is dropped; later groups, and unknown options, are complained
about when all words are taken. All words are classified before the first is taken, so an ambiguous
one is complained about whatever stands before it.
-/

namespace PocketLisp.CommandLine

/-- What is to be done. -/
inductive Request where
  | help
  | version
  | misuse (complaint : String)
  | run (debug : Bool) (files : List String)
  deriving Repr, DecidableEq

/-- Where the words stand with respect to the group that names the files. -/
inductive Group where
  | before
  | within
  | after
  deriving Repr, DecidableEq

/-- What the words taken so far amount to. Files and surplus words are held newest first. -/
structure Progress where
  debug : Bool := false
  group : Group := .before
  files : List String := []
  surplus : List String := []
  deriving Repr, DecidableEq

namespace Progress

/-- An option ends the group of files if it has begun. -/
def interrupt (p : Progress) : Progress :=
  match p.group with
  | .within => { p with group := .after }
  | _ => p

/-- Takes a positional argument. -/
def takePositional (p : Progress) (text : String) : Progress :=
  match p.group with
  | .after => { p with surplus := text :: p.surplus }
  | _ => { p with group := .within, files := text :: p.files }

/-- Takes the separator. -/
def takeSeparator (p : Progress) : Progress :=
  match p.group with
  | .after => { p with surplus := "--" :: p.surplus }
  | _ => { p with group := .within }

/-- What to do when all words are taken. -/
def finish (p : Progress) : Request :=
  match p.surplus with
  | [] => .run p.debug p.files.reverse
  | _ :: _ =>
    .misuse ("unrecognized arguments: " ++ String.intercalate " " p.surplus.reverse)

end Progress

/-- The complaint about a value given to an option that takes none. -/
def unwantedValue (flag : Flag) (value : List Char) : Request :=
  .misuse ("argument " ++ flag.display ++ ": ignored explicit argument " ++
    Text.quoted (String.ofList value))

/-- The options that the letters after an option of one letter stand for, with that option in front.
From the first letter on that is no option, the rest is a value, and it is refused. -/
def resolveLetters (flag : Flag) : List Char → Except Request (List Flag)
  | [] => .ok [flag]
  | c :: rest =>
    match spellings.lookup (String.ofList ['-', c]) with
    | some next => (resolveLetters next rest).map (flag :: ·)
    | none => .error (unwantedValue flag (c :: rest))

/-- The options that a spelling with what is attached to it stands for. No option takes a value;
what is attached to an option of one letter is further letters, unless it is empty. -/
def resolve (flag : Flag) (spelling : String) : Option String → Except Request (List Flag)
  | none => .ok [flag]
  | some attached =>
    if spelling.length == 2 && !attached.isEmpty then resolveLetters flag attached.toList
    else .error (unwantedValue flag attached.toList)

/-- Takes options in order; help and the version end the matter. -/
def Progress.takeFlags (p : Progress) : List Flag → Except Request Progress
  | [] => .ok p
  | .help :: _ => .error .help
  | .version :: _ => .error .version
  | .debug :: rest => { p with debug := true }.takeFlags rest

/-- Takes a word that is an option. -/
def Progress.takeOption (p : Progress) (flag : Flag) (spelling : String)
    (attached : Option String) : Except Request Progress := do
  p.interrupt.takeFlags (← resolve flag spelling attached)

/-- Takes the words in order and says what to do. -/
def takeWords (p : Progress) : List Word → Request
  | [] => p.finish
  | .positional text :: rest => takeWords (p.takePositional text) rest
  | .separator :: rest => takeWords p.takeSeparator rest
  | .unknown text :: rest => takeWords { p.interrupt with surplus := text :: p.surplus } rest
  | .option flag spelling attached :: rest =>
    match p.takeOption flag spelling attached with
    | .ok p => takeWords p rest
    | .error request => request

/-- What a command line asks for. -/
def Request.ofArguments (arguments : List String) : Request :=
  match Word.classifyAll arguments with
  | .ok words => takeWords {} words
  | .error complaint => .misuse complaint

/-- The line that says how the program is called. -/
def usage : String :=
  "usage: minilisp [-h] [--debug] [--version] [files ...]\n"

/-- The answer to a request for help. -/
def helpText : String :=
  usage ++ "\nA small S-expression interpreter\n\n" ++
    "positional arguments:\n" ++
    "  files       source files to evaluate in one session (starts a REPL when\n" ++
    "              omitted)\n\n" ++
    "options:\n" ++
    "  -h, --help  show this help message and exit\n" ++
    "  --debug     enable debug logging\n" ++
    "  --version   show program's version number and exit\n"

/-- The answer to a request for the version. -/
def versionText : String := "minilisp 0.1.0\n"

/-- The answer to a command line that cannot be followed. -/
def misuseText (complaint : String) : String :=
  usage ++ "minilisp: error: " ++ complaint ++ "\n"

end PocketLisp.CommandLine
