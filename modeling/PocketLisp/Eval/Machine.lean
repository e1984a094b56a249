import PocketLisp.Eval.Error
import PocketLisp.Store.Basic

/-!
# The state of an evaluation

Evaluation reads and changes a store and leaves a trace of what it does. It ends in a value or a
failure, and in both cases with the state that was reached. A failure is an error of the program or
the discovery that forms are nested more deeply than the evaluator was allowed to follow.
-/

namespace PocketLisp

/-- What is reported for the log. Evaluation reports that a special form is about to be handled,
that a closure was made, that a closure is applied to arguments of the right number; the program
reports that it is about to explain a failure. -/
inductive Event where
  | specialForm (name : String)
  | closureMade (closure : Value)
  | applying (closure : Value) (args : List Value)
  | failure
  deriving Repr, DecidableEq

/-- The store and the events so far, oldest first. -/
structure Machine where
  store : Store := {}
  trace : Array Event := #[]
  deriving Repr, DecidableEq, Inhabited

/-- Forgets the events so far. -/
def Machine.clearTrace (m : Machine) : Machine :=
  { m with trace := #[] }

@[simp] theorem Machine.store_clearTrace (m : Machine) : m.clearTrace.store = m.store := rfl

/-- The state after an event was reported. -/
def Machine.reported (m : Machine) (event : Event) : Machine :=
  { m with trace := m.trace.push event }

@[simp] theorem Machine.store_reported (m : Machine) (event : Event) :
    (m.reported event).store = m.store := rfl

/-- Why an evaluation ended without a value. -/
inductive EvalFailure where
  | error (error : EvalError)
  | tooDeep
  deriving Repr, DecidableEq

/-- The explanation of a failure. -/
def EvalFailure.message : EvalFailure → String
  | error e => e.message
  | tooDeep => "maximum recursion depth exceeded"

/-- A computation on the state of an evaluation. -/
abbrev EvalM := EStateM EvalFailure Machine

/-- A way to give forms their values: the value of a form in a scope. -/
abbrev Evaluator := Value → ScopeId → EvalM Value

namespace EvalM

/-- Fails with an error of the program. -/
def fail (e : EvalError) : EvalM α := throw (.error e)

/-- Takes over the result of a check. -/
def ofExcept : Except EvalError α → EvalM α
  | .ok a => pure a
  | .error e => fail e

/-- The state that a computation leaves, whatever its outcome. -/
def stateAfter (action : EvalM α) (m : Machine) : Machine :=
  match action m with
  | .ok _ m => m
  | .error _ m => m

/-- Adds an event to the trace. -/
def report (event : Event) : EvalM Unit :=
  modify (·.reported event)

/-- Adds a scope to the store. -/
def addScope (scope : Scope) : EvalM ScopeId :=
  modifyGet fun m =>
    let (r, store) := m.store.addScope scope
    (r, { m with store })

/-- Takes a fresh identity. -/
def freshIdentity : EvalM Identity :=
  modifyGet fun m =>
    let (id, store) := m.store.freshIdentity
    (id, { m with store })

/-- The value of a name, seen from `r`. -/
def lookup (r : ScopeId) (name : String) : EvalM Value := do
  match (← get).store.get? r name with
  | some value => pure value
  | none => fail (.unbound name)

/-- Binds a name in the scope `r` itself; the answer is the value. -/
def define (r : ScopeId) (name : String) (value : Value) : EvalM Value := do
  modify fun m => { m with store := m.store.define r name value }
  pure value

/-- Gives a new value to the nearest binding of a name, seen from `r`; the answer is the value. -/
def assign (r : ScopeId) (name : String) (value : Value) : EvalM Value := do
  match (← get).store.assign? r name value with
  | some store =>
    modify fun m => { m with store }
    pure value
  | none => fail (.unbound name)

end EvalM

end PocketLisp
