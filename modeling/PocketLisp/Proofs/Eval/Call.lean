import Mathlib.Data.List.Induction
import PocketLisp.Proofs.Eval.Step
import PocketLisp.Proofs.Store.Reach
import PocketLisp.Proofs.Store.Sight

/-!
# Calls of closures

A closure that gets the wrong number of arguments fails before anything happens. With the right
number of them its body runs in a scope made for this call. `Store.Entered` says what the store is
then: one scope more, in the scope that was captured, with the parameters bound to the arguments.
If all that there was led to existing scopes, nothing leads to the new one. `BodyRun` says what
follows: the forms of the body are evaluated there one after another, up to the first that fails.
-/

namespace PocketLisp

open EvalM

section Parameters

variable (names : List String) (values : List Value)

/-- The parameters are bound in the order in which they occur first. -/
theorem names_bindNames (count : values.length = names.length) :
    (bindNames names values).names = names.eraseDups := by
  have folded (pairs : List (String × Value)) :
      Bindings.names (pairs.foldl (fun bindings pair => bindings.define pair.1 pair.2) []) =
        (pairs.map Prod.fst).eraseDups := by
    induction pairs using List.reverseRecOn with
    | nil => simp [Bindings.names]
    | append_singleton pairs pair ih =>
        rw [List.foldl_append, List.foldl_cons, List.foldl_nil, Bindings.names_define, ih,
          List.map_append, List.eraseDups_append]
        by_cases seen : pair.1 ∈ pairs.map Prod.fst <;>
          simp [seen, List.removeAll, List.eraseDups_cons]
  rw [bindNames, folded, List.map_fst_zip (Nat.le_of_eq count.symm)]

/-- Of the values that a name gets, it keeps the last. -/
theorem lookup_bindNames (name : String) :
    (bindNames names values).lookup name = (names.zip values).reverse.lookup name := by
  have folded (pairs : List (String × Value)) :
      (pairs.foldl (fun bindings pair => Bindings.define pair.1 pair.2 bindings) []).lookup name =
        pairs.reverse.lookup name := by
    induction pairs using List.reverseRecOn with
    | nil => rfl
    | append_singleton pairs pair ih =>
        rw [List.foldl_append, List.foldl_cons, List.foldl_nil, Bindings.lookup_define, ih,
          List.reverse_append, List.reverse_singleton, List.singleton_append,
          Bindings.lookup_binding]
  exact folded (names.zip values)

end Parameters

namespace Store

/-- All links outward and all values, those that are bound and the given ones, lead to scopes with
the property. -/
structure Leads (s : Store) (values : List Value) (place : ScopeId → Prop) : Prop where
  outer {id outer : ScopeId} : s.outer? id = some outer → place outer
  bound {id : ScopeId} : ∀ binding ∈ s.bindings id, ∀ k ∈ binding.2.scopes, place k
  given : ∀ v ∈ values, ∀ k ∈ v.scopes, place k

variable {s : Store} {values : List Value} {place place' : ScopeId → Prop} {scope : Scope}
variable {name : String}

theorem Leads.mono (h : s.Leads values place) (weaker : ∀ k, place k → place' k) :
    s.Leads values place' where
  outer link := weaker _ (h.outer link)
  bound binding mem k inside := weaker k (h.bound binding mem k inside)
  given v mem k inside := weaker k (h.given v mem k inside)

/-- A new scope leads where its link and its bindings do. -/
theorem Leads.addScope (h : s.Leads values place) (link : ∀ outer ∈ scope.outer, place outer)
    (fine : ∀ binding ∈ scope.bindings, ∀ k ∈ binding.2.scopes, place k) :
    (s.addScope scope).2.Leads values place where
  outer {id outer} around := by
    rw [outer?_addScope] at around
    split at around
    · exact link outer around
    · exact h.outer around
  bound {id} := forall_bindings_addScope
    (P := fun binding => ∀ k ∈ binding.2.scopes, place k) (fun _ => h.bound) fine id
  given := h.given

/-- The store `entered` is `s` with one more scope, the scope `r` of a call. It lies in the captured
scope and binds the parameters, in the order in which they occur first, each to the last of its
arguments. All other names are found from it where they are found from the captured scope. -/
structure Entered (s : Store) (names : List String) (args : List Value) (captured r : ScopeId)
    (entered : Store) : Prop where
  fresh : r = s.scopes.size
  size : entered.scopes.size = s.scopes.size + 1
  nextIdentity : entered.nextIdentity = s.nextIdentity
  kept (id : ScopeId) : id < s.scopes.size → entered.scopes[id]? = s.scopes[id]?
  outer : entered.outer? r = some captured
  order : (entered.bindings r).names = names.eraseDups
  argument (name : String) :
    (entered.bindings r).lookup name = (names.zip args).reverse.lookup name
  owner (name : String) : name ∉ names → entered.owner? r name = s.owner? captured name
  value (name : String) : name ∉ names → entered.get? r name = s.get? captured name

/-- From the scope of a call a name that is no parameter is found where it is found from the
captured scope. -/
theorem owner?_addScope_bindNames (s : Store) {names : List String} {args : List Value}
    (count : args.length = names.length) (captured : ScopeId) (other : name ∉ names) :
    (s.addScope ⟨bindNames names args, some captured⟩).2.owner? s.scopes.size name =
      s.owner? captured name := by
  refine owner?_addScope_self s _ rfl fun bound => other ?_
  rwa [Bindings.binds_iff, names_bindNames names args count, List.mem_eraseDups] at bound

/-- To add the scope of a call is to enter it. -/
theorem entered_addScope (s : Store) {names : List String} {args : List Value}
    (count : args.length = names.length) (captured : ScopeId) :
    s.Entered names args captured s.scopes.size
      (s.addScope ⟨bindNames names args, some captured⟩).2 where
  fresh := rfl
  size := size_addScope s _
  nextIdentity := rfl
  kept _ existing := getElem?_addScope_of_lt s _ existing
  outer := outer?_addScope_self s _
  order := by rw [bindings_addScope_self, names_bindNames names args count]
  argument name := by rw [bindings_addScope_self, lookup_bindNames]
  owner _ other := owner?_addScope_bindNames s count captured other
  value _ other := get?_addScope_of_owner? (owner?_addScope_bindNames s count captured other)

end Store

section Bodies

variable (ev : Evaluator) (r : ScopeId)

/-- The forms are evaluated in the scope `r`, each once and one after another, and have these
values. -/
inductive EachInTurn : Machine → (forms values : List Value) → Machine → Prop where
  | nil {m} : EachInTurn m [] [] m
  | cons {m m₁ m' form value forms values} (run : ev form r m = .ok value m₁)
      (others : EachInTurn m₁ forms values m') :
      EachInTurn m (form :: forms) (value :: values) m'

/-- What becomes of a body: all its forms have values and the last one is the answer, if there is
any form; or the forms up to one of them have values and this one fails. -/
inductive BodyRun (m : Machine) (forms : List Value) :
    EStateM.Result EvalFailure Machine Value → Prop where
  | complete {values m'} (all : EachInTurn ev r m forms values m') :
      BodyRun m forms (.ok (values.getLast?.getD .nil) m')
  | failed {before form after values m₁ failure m'} (split : forms = before ++ form :: after)
      (all : EachInTurn ev r m before values m₁) (fails : ev form r m₁ = .error failure m') :
      BodyRun m forms (.error failure m')

variable {ev r} {m m' : Machine} {forms values : List Value}

/-- The forms that have their values may be passed over. -/
theorem EachInTurn.run_body (all : EachInTurn ev r m forms values m') (last : Value)
    (rest : List Value) :
    (Task.body last (forms ++ rest) r).run ev m =
      (Task.body (values.getLast?.getD last) rest r).run ev m' := by
  induction all generalizing last with
  | nil => rfl
  | @cons m m₁ m' form value forms values run _ ih =>
      rw [List.cons_append, run_body_cons, bind_of_ok run, List.getLast?_cons, Option.getD_some]
      exact ih value

/-- The forms of a call that have their values may be passed over. -/
theorem EachInTurn.run_arguments (all : EachInTurn ev r m forms values m') (callee : Value)
    (found : List Value) :
    (Task.arguments callee found forms r).run ev m = apply ev callee (found ++ values) m' := by
  induction all generalizing found with
  | nil =>
      rw [run_arguments_nil, List.append_nil]
      rfl
  | cons run _ ih =>
      rw [run_arguments_cons, bind_of_ok run, ih, List.append_assoc, List.singleton_append]

/-- A call applies the value of its head to those of its arguments. -/
theorem run_call {head callee rest : Value} {args : List Value} (ordinary : head.OrdinaryHead)
    (all : EachInTurn ev r m (head :: rest.elements) (callee :: args) m') :
    step ev (.pair head rest) r m = apply ev callee args m' := by
  cases all with
  | cons run others =>
      rw [step_call ev r ordinary, bind_of_ok run, others.run_arguments, List.nil_append]

theorem BodyRun.run_eq {result : EStateM.Result EvalFailure Machine Value}
    (h : BodyRun ev r m forms result) : (Task.body .nil forms r).run ev m = result := by
  cases h with
  | complete all =>
      have run := all.run_body .nil []
      rwa [List.append_nil] at run
  | failed split all fails =>
      rw [split, all.run_body, run_body_cons, bind_of_error fails]

theorem exists_bodyRun (m : Machine) (forms : List Value) :
    ∃ result, BodyRun ev r m forms result := by
  induction forms generalizing m with
  | nil => exact ⟨_, .complete .nil⟩
  | cons form forms ih =>
      cases run : ev form r m with
      | error failure m' =>
          have split : form :: forms = [] ++ form :: forms := rfl
          exact ⟨_, .failed split .nil run⟩
      | ok value m₁ =>
          obtain ⟨result, runs⟩ := ih m₁
          cases runs with
          | complete all => exact ⟨_, .complete (.cons run all)⟩
          | @failed before failing after values m₂ failure m' split all fails =>
              have longer : form :: forms = (form :: before) ++ failing :: after := by
                rw [split, List.cons_append]
              exact ⟨_, .failed longer (.cons run all) fails⟩

/-- A body runs in this way and no other. -/
theorem run_body_eq_iff {result : EStateM.Result EvalFailure Machine Value} :
    (Task.body .nil forms r).run ev m = result ↔ BodyRun ev r m forms result := by
  constructor
  · rintro rfl
    obtain ⟨result, runs⟩ : ∃ result, BodyRun ev r m forms result := exists_bodyRun m forms
    exact runs.run_eq.symm ▸ runs
  · exact BodyRun.run_eq

end Bodies

/-- A closure with these parameters and any evaluator: if the number of arguments is wrong then the
call fails for this and leaves the state as it is. If it is right then the scope of the call is
entered, to which nothing leads as long as all that there was led to existing scopes, and what the
call ends with is what becomes of the body when it runs there. -/
theorem closure_call {id : Identity} {params body : Value} {captured : ScopeId}
    {names : List String} (symbols : params.elements = names.map .symbol) (args : List Value)
    (m : Machine) :
    (args.length ≠ names.length → ∀ ev, apply ev (.closure id params body captured) args m =
      .error (.error (.wrongCount args.length names.length)) m) ∧
    (args.length = names.length → ∃ r entered,
      m.store.Entered names args captured r entered.store ∧
      (m.store.Leads (.closure id params body captured :: args) (· < m.store.scopes.size) →
        entered.store.Leads (.closure id params body captured :: args) (· ≠ r)) ∧
      ∀ ev result, apply ev (.closure id params body captured) args m = result ↔
        BodyRun ev r entered body.elements result) := by
  constructor
  · intro count ev
    have same : params.elements.length = names.length := by rw [symbols, List.length_map]
    rw [← same] at count ⊢
    exact run_closure_refused ev (callScope_count count) m
  · intro count
    refine ⟨m.store.scopes.size, (m.added ⟨bindNames names args, some captured⟩).reported
      (.applying (.closure id params body captured) args), ?_, ?_, ?_⟩
    · exact m.store.entered_addScope count captured
    · intro existing
      have older := existing.mono fun _ => Nat.ne_of_lt
      refine older.addScope (fun outer link => ?_) fun binding bound => ?_
      · cases link
        exact older.given _ List.mem_cons_self captured List.mem_cons_self
      · have given := (List.of_mem_zip (mem_bindNames bound)).2
        exact older.given binding.2 (List.mem_cons_of_mem _ given)
    · intro ev result
      rw [run_closure ev (callScope_symbols symbols count) m, run_body_eq_iff]

/-- A scope with two names. -/
def outside : Machine where
  store := { scopes := #[⟨[("x", .int 9), ("z", .int 4)], none⟩] }

/-- The closure of `(lambda (x y x) (set! y z) x)` in that scope. -/
def repeating : Value :=
  .closure 0 (.ofList [.symbol "x", .symbol "y", .symbol "x"])
    (.ofList [.ofList [.symbol "set!", .symbol "y", .symbol "z"], .symbol "x"]) 0

/-- A parameter that occurs twice has the later argument, and the scope of the call holds the names
in the order in which they occur first. -/
theorem closure_call_repeated_parameter :
    ∃ r entered,
      outside.store.Entered ["x", "y", "x"] [.int 1, .int 2, .int 3] 0 r entered.store ∧
      entered.store.Leads [repeating, .int 1, .int 2, .int 3] (· ≠ r) ∧
      (entered.store.bindings r).names = ["x", "y"] ∧
      entered.store.get? r "z" = some (.int 4) ∧
      ∃ m', BodyRun (evaluate 3) r entered
        [.ofList [.symbol "set!", .symbol "y", .symbol "z"], .symbol "x"] (.ok (.int 3) m') := by
  have symbols : (Value.ofList [.symbol "x", .symbol "y", .symbol "x"]).elements =
      ["x", "y", "x"].map .symbol := rfl
  have plain : ∀ binding ∈ outside.store.bindings 0, binding.2.scopes = [] := by decide
  have alone {id : ScopeId} (existing : id < outside.store.scopes.size) : id = 0 :=
    Nat.lt_one_iff.mp existing
  have answer : ((apply (evaluate 3) repeating [.int 1, .int 2, .int 3]).outcome outside).toOption =
      some (.int 3) := by decide +kernel
  obtain ⟨r, entered, enters, fresh, runs⟩ :=
    (closure_call symbols [.int 1, .int 2, .int 3] outside).2 rfl
  refine ⟨r, entered, enters, fresh ⟨?_, ?_, by decide⟩, ?_, ?_, ?_⟩
  · intro id outer link
    obtain rfl := alone (Store.lt_size_of_outer? link)
    cases link
  · intro id binding bound k inside
    obtain rfl := alone (Store.lt_size_of_mem_bindings bound)
    rw [plain binding bound] at inside
    cases inside
  · rw [enters.order]
    decide
  · rw [enters.value "z" (by decide)]
    decide +kernel
  · cases run : apply (evaluate 3) repeating [.int 1, .int 2, .int 3] outside with
    | ok value m' =>
        rw [EvalM.outcome_of_ok run] at answer
        cases answer
        exact ⟨m', (runs _ _).mp run⟩
    | error failure m' =>
        rw [EvalM.outcome_of_error run] at answer
        cases answer

end PocketLisp
