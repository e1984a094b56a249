import PocketLisp.Eval.Check

/-!
# What the primitive operations do

Every operation checks how many arguments it gets and of which kinds they are. Addition wraps to the
fixed width after every step and names the first argument that is not an integer; the accessors of
pairs name an argument that is not a pair.
-/

namespace PocketLisp.Primitive

/-- The name under which an operation is bound at the start. -/
def name : Primitive → String
  | add => "+"
  | isAtom => "atom?"
  | cons => "cons"
  | car => "car"
  | cdr => "cdr"
  | equal => "equal"

/-- All operations, in the order in which they are bound at the start. -/
def all : List Primitive := [add, isAtom, cons, car, cdr, equal]

theorem mem_all (p : Primitive) : p ∈ all := by
  cases p <;> simp [all]

/-- The operation of a name. -/
def ofName? (text : String) : Option Primitive :=
  all.find? (·.name == text)

@[simp] theorem ofName?_name (p : Primitive) : ofName? p.name = some p := by
  cases p <;> decide

/-- Adds the integers to a sum that is in the fixed width, wrapping after each. -/
def addTo (sum : Int) : List Value → Except EvalError Value
  | [] => .ok (.int sum)
  | .int n :: rest => addTo (wrap (sum + n)) rest
  | other :: _ => .error (.mismatch other .number)

/-- The parts of the pair that is the only argument. -/
def pairArgument (args : List Value) : Except EvalError (Value × Value) := do
  match ← oneArgument args with
  | .pair first rest => pure (first, rest)
  | other => throw (.mismatch other .cons)

/-- Performs an operation on evaluated arguments. -/
def run : Primitive → List Value → Except EvalError Value
  | add, args => addTo 0 args
  | isAtom, args => do
    match ← oneArgument args with
    | .pair _ _ => pure (.ofBool false)
    | _ => pure (.ofBool true)
  | cons, args => do
    let (first, rest) ← twoArguments args
    pure (.pair first rest)
  | car, args => do
    let (first, _) ← pairArgument args
    pure first
  | cdr, args => do
    let (_, rest) ← pairArgument args
    pure rest
  | equal, args => do
    let (a, b) ← twoArguments args
    pure (.ofBool (a.equal b))

end PocketLisp.Primitive
