import PocketLisp.Proofs.Eval.Call
import PocketLisp.Proofs.Eval.Course

/-!
# Copies of a value

A value gets from one place to another by way of variables, arguments, pairs and captured scopes.
`Copy c v` says that `v` was got from `c` along such ways, any number of them one after the other.
Each step of a way is something that the evaluator does, and its outcome is whatever that comes to:
the value of a symbol, what stands in a variable after a definition, an assignment, or anything else
that does not give it a value, what a parameter is bound to, what a call answers. The steps may be
taken in any states and so at any times; a pair that was made in one of them may be taken apart in
another one, and a closure that captured a scope may be called later.

In the end a copy is the very value that it is a copy of (`Copy.eq`).
-/

namespace PocketLisp

open EvalM

/-- A call: when its head and its arguments have their values, one after the other, the state is
`m`, and then the call has the given answer. -/
inductive Called (depth : Nat) (callee : Value) (args : List Value) (m : Machine)
    (answer : Value) : Prop where
  | intro {head forms r m₀ m'} (ordinary : head.OrdinaryHead)
      (parts : EachInTurn (evaluate depth) r m₀ (head :: forms) (callee :: args) m)
      (run : evaluate (depth + 1) (.ofList (head :: forms)) r m₀ = .ok answer m')

/-- The value `v` is a copy of `c`. -/
inductive Copy : (c v : Value) → Prop where
  | self {c} : Copy c c
  /-- What a variable that holds a copy is evaluated to, from the scope that binds it or from
  anywhere inside, as in a closure that captured this scope. -/
  | symbol {c v w m m' name r owner depth} (copy : Copy c v)
      (nearest : m.store.Owner name r owner)
      (holds : (m.store.bindings owner).lookup name = some v)
      (run : evaluate depth (.symbol name) r m = .ok w m') : Copy c w
  /-- What a quotation of a copy answers. -/
  | quoted {c v w m m' r depth} (copy : Copy c v)
      (run : evaluate (depth + 1) v.quote r m = .ok w m') : Copy c w
  /-- What a definition that gives a copy to a variable answers, and what the variable holds
  then. -/
  | define {c v w answer m m₁ m₂ name form r depth} (copy : Copy c v)
      (valued : evaluate depth form r (m.reported (.specialForm "define")) = .ok v m₁)
      (run : evaluate (depth + 1) (.ofList [.symbol "define", .symbol name, form]) r m =
        .ok answer m₂)
      (got : w = answer ∨ (m₂.store.bindings r).lookup name = some w) : Copy c w
  /-- What an assignment that gives a copy to a variable answers, and what the variable holds
  then. -/
  | assign {c v w answer m m₁ m₂ name form r owner depth} (copy : Copy c v)
      (valued : evaluate depth form r (m.reported (.specialForm "set!")) = .ok v m₁)
      (nearest : m₁.store.Owner name r owner)
      (run : evaluate (depth + 1) (.ofList [.symbol "set!", .symbol name, form]) r m =
        .ok answer m₂)
      (got : w = answer ∨ (m₂.store.bindings owner).lookup name = some w) : Copy c w
  /-- What a variable that held a copy holds later, if it was not given a value in between. -/
  | kept {c v w s t history name owner} (copy : Copy c v)
      (held : (s.bindings owner).lookup name = some v) (course : Course s history t)
      (ungiven : ∀ u, .bound owner name u ∉ history)
      (holds : (t.bindings owner).lookup name = some w) : Copy c w
  /-- What a parameter holds when a closure is called whose argument for it is a copy. -/
  | argument {c v w params args captured scope name} {names : List String} (copy : Copy c v)
      (symbols : params = names.map .symbol)
      (given : (names.zip args).reverse.lookup name = some v)
      (enters : callScope params captured args = .ok scope)
      (holds : scope.bindings.lookup name = some w) : Copy c w
  /-- What the call of a closure answers if the last form of its body has a copy for its value. -/
  | returned {c v w id params body captured args scope values m m' depth} (copy : Copy c v)
      (enters : callScope params.elements captured args = .ok scope)
      (last : EachInTurn (evaluate depth) m.store.scopes.size
        ((m.added scope).reported (.applying (.closure id params body captured) args))
        body.elements (values ++ [v]) m')
      (call : Called depth (.closure id params body captured) args m w) : Copy c w
  /-- The first of a pair that was made with a copy as its first, or of a copy of this pair. -/
  | first {c v w other p p' id id' name name' m m' depth depth'} (copy : Copy c v)
      (made : Called depth (.procedure id name .cons) [v, other] m p) (pair : Copy p p')
      (taken : Called depth' (.procedure id' name' .car) [p'] m' w) : Copy c w
  /-- The rest of a pair that was made with a copy as its rest, or of a copy of this pair. -/
  | rest {c v w other p p' id id' name name' m m' depth depth'} (copy : Copy c v)
      (made : Called depth (.procedure id name .cons) [other, v] m p) (pair : Copy p p')
      (taken : Called depth' (.procedure id' name' .cdr) [p'] m' w) : Copy c w

section Steps

variable {v answer callee : Value} {form head params body : Value} {args forms values : List Value}
variable {name : String} {id : Identity} {captured r owner : ScopeId} {scope : Scope}
variable {m m₁ m₂ : Machine} {depth : Nat}

theorem EachInTurn.evaluate_eq (ordinary : head.OrdinaryHead)
    (parts : EachInTurn (evaluate depth) r m (head :: forms) (callee :: args) m₁) :
    evaluate (depth + 1) (.ofList (head :: forms)) r m = apply (evaluate depth) callee args m₁ := by
  rw [evaluate, Value.ofList_cons]
  refine run_call ordinary ?_
  rwa [Value.elements_ofList, Value.elements_nil, List.append_nil]

/-- The call of a closure answers the last value of its body. -/
theorem EachInTurn.apply_eq (enters : callScope params.elements captured args = .ok scope)
    (all : EachInTurn (evaluate depth) m.store.scopes.size
      ((m.added scope).reported (.applying (.closure id params body captured) args))
      body.elements values m₁) :
    apply (evaluate depth) (.closure id params body captured) args m =
      .ok (values.getLast?.getD .nil) m₁ := by
  have run := all.run_body .nil []
  rw [List.append_nil] at run
  exact (run_closure (evaluate depth) enters m).trans run

theorem Called.apply_eq (call : Called depth callee args m answer) :
    ∃ m', apply (evaluate depth) callee args m = .ok answer m' := by
  obtain @⟨head, forms, r, m₀, m', ordinary, parts, run⟩ := call
  exact ⟨m', (parts.evaluate_eq ordinary).symm.trans run⟩

theorem evaluate_define
    (valued : evaluate depth form r (m.reported (.specialForm "define")) = .ok v m₁) :
    evaluate (depth + 1) (.ofList [.symbol "define", .symbol name, form]) r m =
      .ok v (m₁.defined r name v) := by
  rw [evaluate, step_define]
  exact bind_of_ok valued _

theorem evaluate_assign
    (valued : evaluate depth form r (m.reported (.specialForm "set!")) = .ok v m₁)
    (nearest : m₁.store.Owner name r owner) :
    evaluate (depth + 1) (.ofList [.symbol "set!", .symbol name, form]) r m =
      .ok v (m₁.defined owner name v) := by
  rw [evaluate, step_assign]
  exact (bind_of_ok valued _).trans (run_assign v nearest)

end Steps

/-- A copy of a value is this very value. -/
theorem Copy.eq {c v : Value} (copy : Copy c v) : v = c := by
  induction copy with
  | self => rfl
  | @symbol c v w m m' name r owner depth _ nearest holds run ih =>
      cases depth with
      | zero => cases run
      | succ depth =>
          cases (run_lookup nearest holds).symm.trans run
          exact ih
  | quoted _ run ih =>
      rw [evaluate, step_quote] at run
      cases run
      exact ih
  | define _ valued run got ih =>
      cases (evaluate_define valued).symm.trans run
      obtain rfl | holds := got
      · exact ih
      · exact (Store.eq_of_lookup_define holds).trans ih
  | assign _ valued nearest run got ih =>
      cases (evaluate_assign valued nearest).symm.trans run
      obtain rfl | holds := got
      · exact ih
      · exact (Store.eq_of_lookup_define holds).trans ih
  | kept _ held course ungiven holds ih =>
      cases (course.lookup_eq held ungiven).symm.trans holds
      exact ih
  | @argument c v w params args captured scope name names _ symbols given enters holds ih =>
      by_cases count : args.length = names.length
      · cases (callScope_symbols symbols count).symm.trans enters
        cases (lookup_bindNames names args name).symm.trans holds |>.symm.trans given
        exact ih
      · have count' : args.length ≠ params.length := by rwa [symbols, List.length_map]
        cases (callScope_count count').symm.trans enters
  | returned _ enters last call ih =>
      obtain ⟨_, run⟩ := call.apply_eq
      rw [last.apply_eq enters, List.getLast?_concat, Option.getD_some] at run
      cases run
      exact ih
  | first _ made _ taken ih ihPair =>
      obtain ⟨_, made⟩ := made.apply_eq
      obtain ⟨_, taken⟩ := taken.apply_eq
      subst ihPair
      cases made
      cases taken
      exact ih
  | rest _ made _ taken ih ihPair =>
      obtain ⟨_, made⟩ := made.apply_eq
      obtain ⟨_, taken⟩ := taken.apply_eq
      subst ihPair
      cases made
      cases taken
      exact ih

end PocketLisp
