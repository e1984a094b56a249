import PocketLisp.Eval.Machine
import PocketLisp.Eval.Primitive

/-!
# The initial scope

A session starts with one scope that binds the primitive operations to procedures of their names.
Installing them again, in this or another scope, makes new procedures.
-/

namespace PocketLisp

namespace EvalM

/-- Makes a procedure with an identity of its own. -/
def makeProcedure (name : String) (operation : Primitive) : EvalM Value := do
  let id ← freshIdentity
  pure (.procedure id name operation)

/-- Binds all primitive operations in a scope. -/
def installPrimitives (r : ScopeId) : EvalM Unit :=
  Primitive.all.forM fun operation => do
    let procedure ← makeProcedure operation.name operation
    let _ ← define r operation.name procedure

/-- Adds an outermost scope that binds the primitive operations. -/
def globalScope : EvalM ScopeId := do
  let r ← addScope {}
  installPrimitives r
  pure r

end EvalM

end PocketLisp
