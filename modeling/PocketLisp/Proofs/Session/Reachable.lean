import PocketLisp.Proofs.Eval.Ending
import PocketLisp.Proofs.Reader.Plain
import PocketLisp.Proofs.Reader.Reach
import PocketLisp.Proofs.Session.Forms
import PocketLisp.Proofs.Store.Write
import PocketLisp.Repl

/-!
# What a session can come to

`Session.Reachable` holds of the stores that a session can have after any number of steps: texts
that are evaluated to their end or to their first failure, single forms of texts, and
conversations. All that these do to a store is to evaluate forms that were read, in the global
scope and one after another. So a property of stores that this keeps is a property of all stores
of a session (`Session.Reachable.induction`).
-/

namespace PocketLisp

/-- Data that are read within a limit are plain. -/
theorem plain_of_mem_readAllWithin {limit : Nat} {text : String} {v : Value}
    (mem : v ∈ (readAllWithin limit text).1) : v.Plain :=
  plain_of_mem_readAll ((readAllWithin_initial limit text).subset mem)

namespace Session

/-- The stores that a session can come to. The depth may be another in every step, and nothing is
asked of how a step ends. -/
inductive Reachable : Store → Prop where
  | start : Reachable start.store
  | evalText {m : Machine} (depth : Nat) (text : String) (earlier : Reachable m.store) :
      Reachable (evalText (evaluate depth) text m).2.store
  | evalFirst {m : Machine} (depth : Nat) (text : String) (earlier : Reachable m.store) :
      Reachable (evalFirst (evaluate depth) text m).2.store
  | evalForm {m : Machine} (depth : Nat) {text : String} {form : Value}
      (read : form ∈ (readAll text).1) (earlier : Reachable m.store) :
      Reachable (evalForm (evaluate depth) form m).2.store
  | converse {m : Machine} (depth : Nat) (limits : Limits) (prompt text : String)
      (last : InputEnd) (earlier : Reachable m.store) :
      Reachable (Repl.converse (evaluate depth) limits prompt text last m).machine.store

/-- At the start the operations are bound in turn, and get the first identities. -/
theorem start_bindings : start.store.bindings globalScope =
    Primitive.all.zipIdx.map fun made => (made.1.name, .procedure made.2 made.1.name made.1) := rfl

/-- At the start there is one scope, and it binds the operations under their names. -/
theorem start_binds {id : ScopeId} {binding : String × Value}
    (bound : binding ∈ start.store.bindings id) :
    ∃ (operation : Primitive) (identity : Identity),
      binding = (operation.name, .procedure identity operation.name operation) := by
  obtain rfl : id = globalScope := Nat.lt_one_iff.mp (Store.lt_size_of_mem_bindings bound)
  rw [start_bindings] at bound
  obtain ⟨⟨operation, identity⟩, -, rfl⟩ := List.mem_map.mp bound
  exact ⟨operation, identity, rfl⟩

/-- To evaluate a form that was read, in the global scope, keeps a property of stores. -/
def Keeps (P : Store → Prop) (ev : Evaluator) : Prop :=
  ∀ ⦃form : Value⦄ ⦃m : Machine⦄, form.Plain → P m.store →
    P ((ev form globalScope).stateAfter m).store

theorem machine_evalForm (ev : Evaluator) (form : Value) (m : Machine) :
    (evalForm ev form m).2 = (ev form globalScope).stateAfter m := by
  rw [evalForm]
  split
  · next run => exact (EvalM.stateAfter_of_ok run).symm
  · next run => exact (EvalM.stateAfter_of_error run).symm

variable {P : Store → Prop} {ev : Evaluator} (keeps : Keeps P ev)
include keeps

theorem Keeps.of_ok {form value : Value} {m m' : Machine} (plain : form.Plain) (h : P m.store)
    (run : ev form globalScope m = .ok value m') : P m'.store :=
  EvalM.stateAfter_of_ok run ▸ keeps plain h

theorem Keeps.of_error {form : Value} {m m' : Machine} {failure : EvalFailure}
    (plain : form.Plain) (h : P m.store) (run : ev form globalScope m = .error failure m') :
    P m'.store :=
  EvalM.stateAfter_of_error run ▸ keeps plain h

theorem Keeps.evalForm {form : Value} {m : Machine} (plain : form.Plain) (h : P m.store) :
    P (evalForm ev form m).2.store := by
  rw [machine_evalForm]
  exact keeps plain h

theorem Keeps.evalFirst {text : String} {m : Machine} (h : P m.store) :
    P (evalFirst ev text m).2.store := by
  unfold Session.evalFirst
  split
  · next form stop read => exact keeps.evalForm (plain_of_readFirst read) h
  · exact h

theorem Keeps.evalForms {forms : List Value} {m : Machine} (plain : ∀ form ∈ forms, form.Plain)
    (h : P m.store) : P (evalForms ev forms m).2.store := by
  induction forms generalizing m with
  | nil => exact h
  | cons form forms ih =>
      obtain ⟨plainForm, plainForms⟩ := List.forall_mem_cons.mp plain
      cases run : ev form globalScope m with
      | ok value m' =>
          rw [evalForms_of_ok run]
          exact ih plainForms (keeps.of_ok plainForm h run)
      | error failure m' =>
          rw [evalForms_of_error run]
          exact keeps.of_error plainForm h run

theorem Keeps.evalText {text : String} {m : Machine} (h : P m.store) :
    P (evalText ev text m).2.store := by
  rw [evalText_eq]
  exact keeps.evalForms (fun _ mem => plain_of_mem_readAll mem) h

theorem Keeps.evalBlockAfter {limits : Limits} {shown : List Entry} {forms : List Value}
    {m : Machine} (plain : ∀ form ∈ forms, form.Plain) (h : P m.store) :
    P (Repl.evalBlockAfter ev limits shown m forms).next.machine.store := by
  induction forms generalizing shown m with
  | nil => exact h
  | cons form forms ih =>
      obtain ⟨plainForm, plainForms⟩ := List.forall_mem_cons.mp plain
      rw [Repl.evalBlockAfter]
      split
      · next run =>
        have kept := keeps.of_ok plainForm h run
        split
        · exact ih plainForms kept
        · exact kept
      · next run =>
        have kept := keeps.of_error plainForm h run
        split <;> exact kept

/-- A line that is taken leaves the store, or evaluates a block of plain data. -/
theorem Keeps.takeLine {limits : Limits} {line : String} {r : Repl} (h : P r.machine.store) :
    P (r.takeLine ev limits line).next.machine.store := by
  rw [Repl.takeLine]
  split
  · next forms read =>
    refine keeps.evalBlockAfter (fun form mem => ?_) h
    have found : form ∈ (readAllWithin limits.reading (r.pending ++ line)).1 := by rwa [read]
    exact plain_of_mem_readAllWithin found
  all_goals exact h

theorem Keeps.converseAfter {limits : Limits} {prompt : String} {last : InputEnd}
    {shown : List Entry} {r : Repl} {lines : List String} (h : P r.machine.store) :
    P (Repl.converseAfter ev limits prompt last shown r lines).machine.store := by
  induction lines generalizing shown r with
  | nil => exact h
  | cons line lines ih =>
      have kept : P (r.takeLine ev limits line).next.machine.store := keeps.takeLine h
      rw [Repl.converseAfter]
      split
      · exact ih kept
      · exact kept

omit keeps in
/-- What holds at the start and is kept by the evaluation of every form that can be read holds of
all stores that a session can come to. -/
theorem Reachable.induction {s : Store} (reachable : Reachable s) (start : P Session.start.store)
    (keeps : ∀ depth, Keeps P (evaluate depth)) : P s := by
  induction reachable with
  | start => exact start
  | evalText depth text _ ih => exact (keeps depth).evalText ih
  | evalFirst depth text _ ih => exact (keeps depth).evalFirst ih
  | evalForm depth read _ ih => exact (keeps depth).evalForm (plain_of_mem_readAll read) ih
  | converse depth limits prompt text last _ ih => exact (keeps depth).converseAfter ih

end Session

end PocketLisp
