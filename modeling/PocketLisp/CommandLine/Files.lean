import PocketLisp.CommandLine.Path

/-!
# Files

What the program knows of the file system is what comes of reading the file at a path.
-/

namespace PocketLisp.CommandLine

/-- Why a file cannot be read: for a reason that the system gives, or because the path has the
character NUL in it and is not even looked for. -/
inductive Refusal where
  | system (reason : String)
  | nulInPath
  deriving Repr, DecidableEq

/-- The contents of the file at each path, or why it cannot be read. -/
abbrev Files := Path → Except Refusal ByteArray

end PocketLisp.CommandLine
