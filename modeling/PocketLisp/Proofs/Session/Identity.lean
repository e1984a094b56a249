import Mathlib.Logic.Relation
import PocketLisp.Proofs.Eval.Copy
import PocketLisp.Proofs.Eval.Identity
import PocketLisp.Proofs.Session.Reachable

/-!
# The identity of closures in a session

A `Session.Moment` is a store together with the values that were handed out so far. From one moment
to a later one, forms are evaluated to any depth, in any scope and whatever the outcome, as long as
the procedures and closures in them occur already, and closures are called. So the moments also
include the states in the middle of an evaluation: these come from evaluating the subforms that were
met before and from entering the calls that are under way.

All functions that occur at a moment are recorded in one list, and the list of a later moment
continues it (`Session.Moment.Later.exists_made`). That functions are told apart by their identities
alone is therefore enough: what is equal is the same. And what is a copy of a function, got from it
in whatever way and however much later, is this function (`Copy.eq`), so it stays equal to it.
-/

namespace PocketLisp

namespace Session

/-- A store, and the values that were handed out so far. -/
structure Moment where
  held : List Value
  store : Store
  deriving Repr, DecidableEq

namespace Moment

/-- The value was handed out, or a scope binds it. -/
def Occurs (σ : Moment) (v : Value) : Prop :=
  v ∈ σ.held ∨ ∃ id name, (name, v) ∈ σ.store.bindings id

/-- The procedures and closures in the value lie in values that occur. This is so for each part of
a value that occurs, and for all values that are put together of such parts. -/
def Knows (σ : Moment) (v : Value) : Prop :=
  ∀ f ∈ v.functions, ∃ w, σ.Occurs w ∧ f ∈ w.functions

/-- The list has all functions that were made before, and it has all that occur. -/
structure Made (made : List Value) (σ : Moment) : Prop where
  store : σ.store.Made made
  held : ∀ v ∈ σ.held, v.Recorded made

/-- What happens at a moment, and the moment behind it. -/
inductive Next : Moment → Moment → Prop where
  | evaluate {σ : Moment} {m : Machine} {form : Value} (depth : Nat) (r : ScopeId)
      (here : m.store = σ.store) (known : σ.Knows form) :
      Next σ ⟨((evaluate depth form r).handedOut m).toList ++ σ.held,
        ((evaluate depth form r).stateAfter m).store⟩
  | call {σ : Moment} {id : Identity} {params body : Value} {captured : ScopeId}
      {names : List String} {args : List Value} (known : σ.Knows (.closure id params body captured))
      (knownArgs : ∀ arg ∈ args, σ.Knows arg) (symbols : params.elements = names.map .symbol)
      (count : args.length = names.length) :
      Next σ ⟨σ.held, (σ.store.addScope ⟨bindNames names args, some captured⟩).2⟩

/-- The moments that a moment can lead to. -/
abbrev Later : Moment → Moment → Prop := Relation.ReflTransGen Next

variable {σ τ : Moment} {made : List Value} {v : Value}

theorem Made.occurs (h : σ.Made made) (occurs : σ.Occurs v) : v.Recorded made := by
  obtain held | ⟨id, name, bound⟩ := occurs
  · exact h.held v held
  · exact h.store.bound id (name, v) bound

/-- What is known is recorded. -/
theorem Made.knows (h : σ.Made made) (known : σ.Knows v) : v.Recorded made := by
  intro f mem
  obtain ⟨w, occurs, inside⟩ := known f mem
  exact h.occurs occurs f inside

theorem Occurs.knows (occurs : σ.Occurs v) : σ.Knows v := fun _ mem => ⟨v, occurs, mem⟩

/-- One step continues the list. -/
theorem Next.exists_made (next : Next σ τ) (h : σ.Made made) :
    ∃ made', made <+: made' ∧ τ.Made made' := by
  cases next with
  | @evaluate m form depth r here known =>
      have fits : m.store.Made made := here ▸ h.store
      obtain ⟨made', later, after, fine⟩ :=
        (Chronicle.identities.evaluate_keeps depth fits (h.knows known) trivial).after
      refine ⟨made', later, after, fun v mem => ?_⟩
      obtain out | held := List.mem_append.mp mem
      · exact fine v (Option.mem_toList.mp out)
      · exact (h.held v held).mono later
  | call known knownArgs symbols count =>
      exact ⟨made, List.prefix_rfl, h.store.enter _ _ fun arg mem => h.knows (knownArgs arg mem),
        h.held⟩

theorem Later.exists_made (later : Later σ τ) (h : σ.Made made) :
    ∃ made', made <+: made' ∧ τ.Made made' := by
  induction later with
  | refl => exact ⟨made, List.prefix_rfl, h⟩
  | tail _ next ih =>
      obtain ⟨made', later, h'⟩ := ih
      obtain ⟨made'', later', h''⟩ := next.exists_made h'
      exact ⟨made'', later.trans later', h''⟩

end Moment

/-- Plain data have no functions in them. -/
theorem functions_of_plain {v : Value} (plain : v.Plain) : v.functions = [] := by
  induction v with
  | pair first rest ihFirst ihRest =>
      rw [Value.functions, ihFirst plain.1, ihRest plain.2, List.append_nil]
  | procedure | closure => exact plain.elim
  | _ => rfl

/-- At the start the operations are all that was made. -/
theorem made_start :
    start.store.Made
      (Primitive.all.zipIdx.map fun made => .procedure made.2 made.1.name made.1) := by
  refine ⟨rfl, fun id binding bound => ?_⟩
  obtain rfl : id = globalScope := Nat.lt_one_iff.mp (Store.lt_size_of_mem_bindings bound)
  rw [start_bindings] at bound
  obtain ⟨⟨operation, identity⟩, mem, rfl⟩ := List.mem_map.mp bound
  refine List.forall_mem_singleton.mpr ⟨identity, rfl, ?_⟩
  rw [List.getElem?_map, List.getElem?_zipIdx, List.mem_zipIdx_iff_getElem?.mp mem,
    Option.map_some, Option.map_some, Nat.zero_add]

/-- The functions in the store of a session are recorded. -/
theorem Reachable.exists_made {s : Store} (reachable : Reachable s) : ∃ made, s.Made made := by
  refine reachable.induction (P := fun s => ∃ made, s.Made made) ⟨_, made_start⟩ ?_
  rintro depth form m plain ⟨made, h⟩
  have fine : form.Recorded made := Value.recorded_of_functions_eq_nil (functions_of_plain plain)
  obtain ⟨made', -, after, -⟩ :=
    (Chronicle.identities.evaluate_keeps depth (r := globalScope) h fine trivial).after
  exact ⟨made', after⟩

end Session

/-- A lambda that has a value has a closure of the next identity. -/
theorem closure_of_lambda {depth : Nat} {rest c : Value} {r : ScopeId} {m m' : Machine}
    (run : evaluate depth (.pair (.symbol "lambda") rest) r m = .ok c m') :
    ∃ params body, c = .closure m.store.nextIdentity params body r := by
  cases depth with
  | zero => cases run
  | succ depth =>
      have run' : step (evaluate depth) (.pair (.symbol SpecialForm.lambda.name) rest) r m =
          .ok c m' := run
      obtain ⟨form, accepts⟩ | ⟨e, refuses⟩ := SpecialForm.lambda.accepts_or_refuses rest.elements
      · rw [run_accepted (evaluate depth) r accepts m] at run'
        generalize rest.elements = args at accepts
        cases accepts with
        | lambda list symbols =>
            cases run'
            exact ⟨_, _, rfl⟩
      · rw [run_refused (evaluate depth) r refuses m] at run'
        cases run'

namespace Session

open EvalM Moment

/-- In every state that a session comes to, and from then on for ever: a lambda has a closure that
is not equal to any value of this or an earlier state; all copies of a value, got along variables,
arguments, pairs and captured scopes at any time, are this value and equal to it; so is everything
in this state that has the identity of a function of an earlier one; and values of this and of an
earlier state are equal only if they are the same value, so that they are printed alike and their
closures have the same parameters, bodies and scopes. -/
theorem closures_keep_identity {s : Store} (reachable : Reachable s) {σ τ : Moment}
    (before : Later ⟨[], s⟩ σ) (after : Later σ τ) :
    (∀ (depth : Nat) (rest : Value) (r : ScopeId) (m m' : Machine) (c : Value),
      m.store = τ.store → evaluate depth (.pair (.symbol "lambda") rest) r m = .ok c m' →
      (∃ id params body, c = .closure id params body r) ∧
        ∀ v, σ.Knows v → c.equal v = false ∧ v.equal c = false) ∧
    (∀ c v, Copy c v → v = c ∧ c.equal v = true ∧ v.equal c = true) ∧
    (∀ c w id, σ.Knows c → τ.Knows w → c.identity? = some id → w.identity? = some id →
      w = c ∧ c.equal w = true ∧ w.equal c = true) ∧
    ∀ v w, σ.Knows v → τ.Knows w → v.equal w = true → v = w := by
  obtain ⟨made, made_s⟩ := reachable.exists_made
  obtain ⟨made₁, -, madeσ⟩ :=
    Later.exists_made before ⟨made_s, List.forall_mem_nil _⟩
  obtain ⟨made₂, grown, madeτ⟩ := Later.exists_made after madeσ
  have lasting (v : Value) (known : σ.Knows v) : v.Recorded made₂ := (madeσ.knows known).mono grown
  refine ⟨fun depth rest r m m' c here run => ?_, fun c v copy => ?_,
    fun c w id known known' identity identity' => ?_, fun v w known known' equal => ?_⟩
  · obtain ⟨params, body, rfl⟩ := closure_of_lambda run
    refine ⟨⟨_, params, body, rfl⟩, fun v known => ?_⟩
    have fresh : made₁.length ≤ m.store.nextIdentity := by
      rw [here, ← madeτ.store.count]
      exact grown.length_le
    exact (madeσ.knows known).equal_fresh fresh
  · obtain rfl := copy.eq
    exact ⟨rfl, v.equal_refl, v.equal_refl⟩
  · obtain rfl : w = c := (madeτ.knows known').function_unique (lasting c known)
      (Value.mem_functions identity') (Value.mem_functions identity)
      (identity'.trans identity.symm)
    exact ⟨rfl, w.equal_refl, w.equal_refl⟩
  · exact (lasting v known).eq_of_equal (madeτ.knows known') equal

/-- The closure that a session makes first from `(lambda (x) x)`. -/
def firstClosure : Value :=
  .closure 6 (.ofList [.symbol "x"]) (.ofList [.symbol "x"]) globalScope

/-- The moment when a session has bound its first closure to `f`. -/
def firstBound : Moment :=
  ⟨[firstClosure], { start.store.define globalScope "f" firstClosure with nextIdentity := 7 }⟩

/-- The form `(lambda (x) x)`. -/
def identityForm : Value :=
  .ofList [.symbol "lambda", .ofList [.symbol "x"], .symbol "x"]

theorem later_firstBound : Later ⟨[], start.store⟩ firstBound :=
  have known : Knows ⟨[], start.store⟩ (.ofList [.symbol "define", .symbol "f", identityForm]) :=
    List.forall_mem_nil _
  .single (@Next.evaluate _ start _ 2 globalScope rfl known)

/-- The pair of the first closure and the empty list. -/
def boxed : Value := .pair firstClosure .nil

/-- The form `(define p (cons f ()))`. -/
def boxForm : Value :=
  .ofList [.symbol "define", .symbol "p", .ofList [.symbol "cons", .symbol "f", .nil]]

/-- The moment when the session has put its first closure into a pair and bound this to `p`. -/
def boxBound : Moment :=
  ⟨[boxed, firstClosure], firstBound.store.define globalScope "p" boxed⟩

/-- The form `(lambda (a b) (car p))`. -/
def openerForm : Value :=
  .ofList [.symbol "lambda", .ofList [.symbol "a", .symbol "b"],
    .ofList [.symbol "car", .symbol "p"]]

/-- The closure that the session makes from it then. -/
def opener : Value :=
  .closure 7 (.ofList [.symbol "a", .symbol "b"])
    (.ofList [.ofList [.symbol "car", .symbol "p"]]) globalScope

theorem later_boxBound : Later firstBound boxBound := by
  have known : firstBound.Knows boxForm := List.forall_mem_nil _
  have next := @Next.evaluate _ ⟨firstBound.store, #[]⟩ _ 3 globalScope rfl known
  have reached : ⟨((evaluate 3 boxForm globalScope).handedOut ⟨firstBound.store, #[]⟩).toList ++
      firstBound.held,
      ((evaluate 3 boxForm globalScope).stateAfter ⟨firstBound.store, #[]⟩).store⟩ = boxBound := by
    decide +kernel
  exact .single (reached ▸ next)

/-- The state in which the pair is made. -/
def boxing : Machine := Machine.reported ⟨firstBound.store, #[]⟩ (.specialForm "define")

theorem ordinary_cons : (Value.symbol "cons").OrdinaryHead :=
  fun form => by cases form <;> decide

theorem ordinary_car : (Value.symbol "car").OrdinaryHead :=
  fun form => by cases form <;> decide

theorem parts_boxing : EachInTurn (evaluate 1) globalScope boxing
    [.symbol "cons", .symbol "f", .nil] [.procedure 2 "cons" .cons, firstClosure, .nil] boxing :=
  .cons (run_lookup (.here (by decide +kernel)) (by decide +kernel))
    (.cons (run_lookup (.here (by decide +kernel)) (by decide +kernel)) (.cons rfl .nil))

/-- The pair that `p` is bound to is the one that was made. -/
theorem copy_boxed : Copy boxed boxed := by
  have made := parts_boxing.evaluate_eq ordinary_cons
  have holds : (boxBound.store.bindings globalScope).lookup "p" = some boxed := by decide +kernel
  exact .define .self made (evaluate_define made) (.inr holds)

/-- What a call of the opener takes out of the pair is a copy of what was put into it. -/
theorem copy_opened : ∃ w m,
    evaluate 3 (.ofList [openerForm, .int 1, .int 2]) globalScope ⟨boxBound.store, #[]⟩ = .ok w m ∧
      Copy firstClosure w := by
  let before := (evaluate 2 openerForm globalScope).stateAfter ⟨boxBound.store, #[]⟩
  let inside := (before.added ⟨[("a", .int 1), ("b", .int 2)], some globalScope⟩).reported
    (.applying opener [.int 1, .int 2])
  -- Both names are found from the scope that the closure has captured.
  have nearest (name : String) (other : ¬ (inside.store.bindings 1).binds name)
      (bound : (inside.store.bindings 0).binds name) : inside.store.Owner name 1 0 :=
    .outward other (by decide +kernel) (.here bound)
  have nearestP := nearest "p" (by decide +kernel) (by decide +kernel)
  have holdsP : (inside.store.bindings 0).lookup "p" = some boxed := by decide +kernel
  have found : evaluate 1 (.symbol "p") 1 inside = .ok boxed inside := run_lookup nearestP holdsP
  have parts : EachInTurn (evaluate 1) 1 inside [.symbol "car", .symbol "p"]
      [.procedure 3 "car" .car, boxed] inside :=
    .cons (run_lookup (nearest "car" (by decide +kernel) (by decide +kernel)) (by decide +kernel))
      (.cons found .nil)
  have taken := parts.evaluate_eq ordinary_car
  have opened : Copy firstClosure firstClosure :=
    .first .self (.intro ordinary_cons parts_boxing (parts_boxing.evaluate_eq ordinary_cons))
      (.symbol copy_boxed nearestP holdsP found)
      (.intro ordinary_car parts taken)
  -- The call answers what its body has for a value.
  have ordinary : openerForm.OrdinaryHead := fun _ => nofun
  have calling : EachInTurn (evaluate 2) globalScope ⟨boxBound.store, #[]⟩
      [openerForm, .int 1, .int 2] [opener, .int 1, .int 2] before :=
    .cons rfl (.cons rfl (.cons rfl .nil))
  have body : EachInTurn (evaluate 2) 1 inside [.ofList [.symbol "car", .symbol "p"]]
      ([] ++ [firstClosure]) inside := .cons taken .nil
  have answers := (calling.evaluate_eq ordinary).trans (body.apply_eq rfl)
  exact ⟨firstClosure, inside, answers, .returned opened rfl body (.intro ordinary calling answers)⟩

theorem closures_keep_identity_firstBound :
    Reachable start.store ∧ Later ⟨[], start.store⟩ firstBound ∧ Later firstBound boxBound ∧
    (∃ c m', evaluate 1 identityForm globalScope ⟨boxBound.store, #[]⟩ = .ok c m' ∧
      c.equal firstClosure = false) ∧
    ∃ w m', evaluate 3 (.ofList [openerForm, .int 1, .int 2]) globalScope ⟨boxBound.store, #[]⟩ =
      .ok w m' ∧ Copy firstClosure w ∧ w.equal firstClosure = true := by
  have known : firstBound.Knows firstClosure := Occurs.knows (.inl List.mem_cons_self)
  obtain ⟨fresh, copies, -⟩ := closures_keep_identity .start later_firstBound later_boxBound
  refine ⟨.start, later_firstBound, later_boxBound, ⟨_, _, rfl, ?_⟩, ?_⟩
  · have other := fresh 1 (.ofList [.ofList [.symbol "x"], .symbol "x"]) globalScope
      ⟨boxBound.store, #[]⟩ _ _ rfl rfl
    exact (other.2 firstClosure known).1
  · obtain ⟨w, m, answers, copy⟩ := copy_opened
    exact ⟨w, m, answers, copy, (copies firstClosure w copy).2.2⟩

end Session

end PocketLisp
