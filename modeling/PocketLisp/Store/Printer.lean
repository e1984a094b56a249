import PocketLisp.Store.Basic
import PocketLisp.Value.Printer

/-!
# Printing scopes

A scope prints as its bindings between braces, `{name: value, name: value}`, in the order of
first definition. The short form marks that there is an outer scope; the long form shows the whole
chain.
-/

namespace PocketLisp.Store

/-- One binding. -/
def printBinding (binding : String × Value) : String :=
  binding.1 ++ ": " ++ binding.2.print

/-- The bindings of one scope between braces. -/
def printBindings (bindings : Bindings) : String :=
  "\x7b" ++ String.intercalate ", " (bindings.map printBinding) ++ "\x7d"

/-- The bindings of a scope, with a mark when there is an outer scope. -/
def printScope (s : Store) (r : ScopeId) : String :=
  let outer := (s.scopes[r]?).bind Scope.outer
  printBindings (s.bindings r) ++ (if outer.isSome then " -> ..." else "")

/-- The bindings of every scope from `r` outward. -/
def printChain (s : Store) (r : ScopeId) : String :=
  "<Environment chain: " ++
    String.intercalate " -> " ((s.chain r).map fun id => printBindings (s.bindings id)) ++ ">"

end PocketLisp.Store
