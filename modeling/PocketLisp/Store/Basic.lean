import PocketLisp.Value.Basic

/-!
# Scopes and the store

A scope binds names to values, in the order in which the names were first defined, and may lie
inside an outer scope. The store holds all scopes; a scope is known by its place and never moves, so
closures that captured it see later definitions. The outer scope of a scope is older than the scope
itself, and `chain` follows only such links: it is finite in every store.

The store also counts the identities given to procedures and closures.
-/

namespace PocketLisp

/-- Names and their values, in the order of first definition. -/
abbrev Bindings := List (String × Value)

namespace Bindings

/-- Binds a name: a name that is bound already keeps its place, a new one comes last. -/
def define (name : String) (value : Value) : Bindings → Bindings
  | [] => [(name, value)]
  | (other, old) :: rest =>
    if other = name then (other, value) :: rest else (other, old) :: define name value rest

/-- The names in the order of first definition. -/
def names (bindings : Bindings) : List String := bindings.map Prod.fst

/-- Whether a name is bound. -/
def binds (bindings : Bindings) (name : String) : Bool :=
  (bindings.lookup name).isSome

/-- A name is looked up in the first binding, and then in the others. -/
theorem lookup_binding (key name : String) (value : Value) (rest : Bindings) :
    List.lookup name ((key, value) :: rest) =
      if name = key then some value else List.lookup name rest := by
  rw [List.lookup_cons]
  split <;> simp_all

/-- After a definition its name has the new value and all other names have what they had. -/
theorem lookup_define (bindings : Bindings) (name other : String) (value : Value) :
    (bindings.define name value).lookup other =
      if other = name then some value else bindings.lookup other := by
  induction bindings with
  | nil => simp [define, lookup_binding]
  | cons binding rest ih =>
    obtain ⟨key, old⟩ := binding
    by_cases hk : key = name
    · subst hk
      by_cases h : other = key <;> simp [define, lookup_binding, h]
    · by_cases h : other = key
      · subst h; simp [define, hk]
      · simp [define, lookup_binding, hk, h, ih]

end Bindings

/-- Bindings, and the scope around them unless they are outermost. -/
structure Scope where
  bindings : Bindings := []
  outer : Option ScopeId := none
  deriving Repr, DecidableEq, Inhabited

/-- All scopes, and the next identity to give. -/
structure Store where
  scopes : Array Scope := #[]
  nextIdentity : Identity := 0
  deriving Repr, DecidableEq, Inhabited

namespace Store

/-- Adds a scope and names it. -/
def addScope (s : Store) (scope : Scope) : ScopeId × Store :=
  (s.scopes.size, { s with scopes := s.scopes.push scope })

/-- Takes an identity that was never given before. -/
def freshIdentity (s : Store) : Identity × Store :=
  (s.nextIdentity, { s with nextIdentity := s.nextIdentity + 1 })

/-- The bindings of a scope; a scope that does not exist has none. -/
def bindings (s : Store) (r : ScopeId) : Bindings :=
  ((s.scopes[r]?).map Scope.bindings).getD []

/-- The scopes from `r` outward, `r` first. A link that does not lead to an older scope ends the
chain. -/
def chain (s : Store) (r : ScopeId) : List ScopeId :=
  match s.scopes[r]? with
  | none => []
  | some scope =>
    match scope.outer with
    | none => [r]
    | some outer => if outer < r then r :: s.chain outer else [r]
termination_by r

/-- How many scopes lie on the chain. -/
def depth (s : Store) (r : ScopeId) : Nat := (s.chain r).length

/-- How many scopes outward from `r` the nearest binding of a name lies. -/
def distance? (s : Store) (r : ScopeId) (name : String) : Option Nat :=
  (s.chain r).findIdx? fun id => (s.bindings id).binds name

/-- The nearest scope, from `r` outward, that binds a name. -/
def owner? (s : Store) (r : ScopeId) (name : String) : Option ScopeId :=
  (s.chain r).find? fun id => (s.bindings id).binds name

/-- The value of a name, seen from `r`. -/
def get? (s : Store) (r : ScopeId) (name : String) : Option Value :=
  (s.owner? r name).bind fun id => (s.bindings id).lookup name

/-- Binds a name in the scope `r` itself. -/
def define (s : Store) (r : ScopeId) (name : String) (value : Value) : Store :=
  { s with scopes := s.scopes.modify r fun scope =>
      { scope with bindings := scope.bindings.define name value } }

/-- Gives a new value to the nearest binding of a name, seen from `r`, if there is one. -/
def assign? (s : Store) (r : ScopeId) (name : String) (value : Value) : Option Store :=
  (s.owner? r name).map fun id => s.define id name value

end Store

end PocketLisp
