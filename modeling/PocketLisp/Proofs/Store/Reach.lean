import PocketLisp.Proofs.Store.Write
import PocketLisp.Proofs.Value.Plain

/-!
# Which scopes can be reached

A form that is evaluated in a scope can get at that scope, at the scopes that closures inside the
form captured, and from every scope that it can get at, at the scope around it and at those that
its values lead to. How far a value leads is a parameter of `Store.Reaches`. Two answers matter:
`Value.captured` looks for closures inside pairs only, and `Value.scopes` looks also inside the
parameters and the bodies of closures, where a value may stand as it may anywhere in a form.
-/

namespace PocketLisp

namespace Value

/-- The scopes captured by the closures of a value that lie inside pairs only. -/
def captured : Value → List ScopeId
  | pair first rest => first.captured ++ rest.captured
  | closure _ _ _ scope => [scope]
  | _ => []

/-- The scopes captured by the closures of a value, wherever in it they lie. -/
def scopes : Value → List ScopeId
  | pair first rest => first.scopes ++ rest.scopes
  | closure _ params body scope => scope :: (params.scopes ++ body.scopes)
  | _ => []

/-- Plain data lead to no scope. -/
theorem scopes_of_plain {v : Value} (plain : v.Plain) : v.scopes = [] := by
  induction v with
  | pair first rest ihFirst ihRest =>
      rw [scopes, ihFirst plain.1, ihRest plain.2, List.append_nil]
  | closure => exact plain.elim
  | _ => rfl

end Value

namespace Store

/-- Scopes that can be reached from a form and the scope `r` in which it is evaluated. -/
inductive Reaches (s : Store) (leads : Value → List ScopeId) (form : Value) (r : ScopeId) :
    ScopeId → Prop where
  | scope : Reaches s leads form r r
  | form {id} (mem : id ∈ leads form) : Reaches s leads form r id
  | outer {id outer} (reached : Reaches s leads form r id) (link : s.outer? id = some outer) :
      Reaches s leads form r outer
  | binding {id name value target} (reached : Reaches s leads form r id)
      (bound : (name, value) ∈ s.bindings id) (mem : target ∈ leads value) :
      Reaches s leads form r target

/-- Scopes that contain the first ones and are left by no link contain all that can be reached. -/
theorem Reaches.mem_of_closed {s : Store} {leads : Value → List ScopeId} {form : Value}
    {r id : ScopeId} {ids : List ScopeId} (h : s.Reaches leads form r id) (scope : r ∈ ids)
    (start : ∀ k ∈ leads form, k ∈ ids)
    (closed : ∀ k ∈ ids, (∀ outer ∈ s.outer? k, outer ∈ ids) ∧
      ∀ binding ∈ s.bindings k, ∀ target ∈ leads binding.2, target ∈ ids) :
    id ∈ ids := by
  induction h with
  | scope => exact scope
  | form mem => exact start _ mem
  | outer _ link ih => exact (closed _ ih).1 _ link
  | binding _ bound mem ih => exact (closed _ ih).2 _ bound _ mem

end Store

end PocketLisp
