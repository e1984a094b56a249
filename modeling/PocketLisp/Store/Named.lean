import PocketLisp.Eval.Error
import PocketLisp.Store.Basic

/-!
# Bindings under any value as a name

Only symbols are ever bound. Asking for another value finds nothing, and binding it is an error, so
these operations take any value as a name and check it.
-/

namespace PocketLisp.Store

/-- How many scopes outward from `r` a name is bound. -/
def find? (s : Store) (r : ScopeId) : Value → Option Nat
  | .symbol name => s.distance? r name
  | _ => none

/-- The value of a name, seen from `r`. -/
def lookup (s : Store) (r : ScopeId) (name : Value) : Except EvalError Value :=
  match name with
  | .symbol x =>
    match s.get? r x with
    | some value => .ok value
    | none => .error (.unbound x)
  | other => .error (.unbound other.print)

/-- Gives a new value to the nearest binding of a name, seen from `r`. -/
def assign (s : Store) (r : ScopeId) (name value : Value) : Except EvalError Store :=
  match name with
  | .symbol x =>
    match s.assign? r x value with
    | some next => .ok next
    | none => .error (.unbound x)
  | other => .error (.unbound other.print)

/-- Binds a name in the scope `r` itself. -/
def bind (s : Store) (r : ScopeId) (name value : Value) : Except EvalError Store :=
  match name with
  | .symbol x => .ok (s.define r x value)
  | other => .error (.mismatch other .symbol)

/-- Binds the given names in order. The bindings before the first error are made; the error is
returned with them. -/
def bindAll (s : Store) (r : ScopeId) : List (Value × Value) → Option EvalError × Store
  | [] => (none, s)
  | (name, value) :: rest =>
    match s.bind r name value with
    | .ok next => next.bindAll r rest
    | .error e => (some e, s)

/-- The finite map that a list of pairs describes. A name that is repeated keeps its first place
and takes its last value. -/
def mapping (pairs : List (Value × Value)) : List (Value × Value) :=
  let insert (name value : Value) (entries : List (Value × Value)) : List (Value × Value) :=
    if entries.any (·.1.equal name) then
      entries.map fun entry => if entry.1.equal name then (entry.1, value) else entry
    else entries ++ [(name, value)]
  pairs.foldl (fun entries pair => insert pair.1 pair.2 entries) []

/-- Binds every entry of the map that the pairs describe, in order of first occurrence. -/
def update (s : Store) (r : ScopeId) (pairs : List (Value × Value)) : Option EvalError × Store :=
  s.bindAll r (mapping pairs)

end PocketLisp.Store
