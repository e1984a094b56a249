import PocketLisp.Eval.Machine

/-!
# What the host allows

The program runs on the stack of its host, and evaluation, reading and printing follow the nesting
of what they work on by calls that nest. The host has room for only so many of these calls. How many
depends on the recursion limit that the settings ask for and is left open here: what is said of the
program is said for all `Limits`. Each piece of work is counted on its own, in levels of nesting.

Comparing values and writing the log are taken to have room enough.
-/

namespace PocketLisp

/-- How deep data may be nested that are read, values that are printed, and values that are printed
as part of an explanation. -/
structure Limits where
  reading : Nat
  printing : Nat
  reporting : Nat
  deriving Repr, DecidableEq

namespace Limits

/-- Whether there is room to print a value. -/
def prints (limits : Limits) (v : Value) : Bool :=
  v.nesting ≤ limits.printing

/-- Whether there is room to explain a failure. Only a mismatch shows a value. -/
def explains (limits : Limits) : EvalFailure → Bool
  | .error (.mismatch v _) => v.nesting ≤ limits.reporting
  | _ => true

/-- Evaluates a form whose value is to be printed, and breaks off if there is no room for that. -/
def evalPrinted (limits : Limits) (ev : Evaluator) : Evaluator := fun form r => do
  let value ← ev form r
  if limits.prints value then pure value else throw .tooDeep

end Limits

/-- What a host has room for when it is asked for a recursion limit: how deep forms may be nested
that are evaluated, and the other limits. It may refuse to be asked for this limit. -/
abbrev Host := Nat → Option (Nat × Limits)

/-- What ends the program without an explanation. -/
inductive Escape where
  /-- A numeral has too many digits. -/
  | numeralTooLong (digits : Nat)
  /-- There is no room to read, to print or to explain something. -/
  | tooDeep
  /-- The bytes of a file spell no text. -/
  | notUnicode
  /-- A path has the character NUL in it, which no path may have. -/
  | nulInPath
  /-- The host refuses the recursion limit. -/
  | limitRefused
  deriving Repr, DecidableEq

end PocketLisp
