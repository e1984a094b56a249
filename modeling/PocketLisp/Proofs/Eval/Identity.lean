import PocketLisp.Proofs.Eval.Chronicle
import PocketLisp.Proofs.Store.Write
import PocketLisp.Value.Equal

/-!
# What has which identity

Procedures and closures, functions for short, are compared by their identities alone. This says
something about what they are only if no two different ones ever get the same identity. The record
of an evaluation that shows it is the list of all functions that were made so far, each at the place
that is its identity. Every function in a value that occurs anywhere, also in the body of a closure,
is the one that the list has under its identity (`Value.Recorded`), and evaluation only ever makes
the list longer (`Chronicle.identities`). So values that are equal are the same value
(`Value.Recorded.eq_of_equal`).
-/

namespace PocketLisp

namespace Value

/-- The procedures and closures of a value, wherever in it they lie. -/
def functions : Value → List Value
  | pair first rest => first.functions ++ rest.functions
  | procedure id name operation => [procedure id name operation]
  | closure id params body scope =>
    closure id params body scope :: (params.functions ++ body.functions)
  | _ => []

/-- The identity of a procedure or a closure. -/
def identity? : Value → Option Identity
  | procedure id _ _ => some id
  | closure id _ _ _ => some id
  | _ => none

/-- What has an identity is a function. -/
theorem mem_functions {v : Value} {id : Identity} (identity : v.identity? = some id) :
    v ∈ v.functions := by
  cases v with
  | procedure | closure => exact List.mem_cons_self
  | _ => cases identity

/-- Every function in the value is the one that was made with its identity. -/
def Recorded (made : List Value) (v : Value) : Prop :=
  ∀ f ∈ v.functions, ∃ id, f.identity? = some id ∧ made[id]? = some f

variable {made : List Value} {v w first rest params body : Value} {id : Identity}
variable {captured : ScopeId}

theorem recorded_of_functions_eq_nil (none : v.functions = []) : v.Recorded made := by
  simp [Recorded, none]

theorem recorded_pair :
    (pair first rest).Recorded made ↔ first.Recorded made ∧ rest.Recorded made :=
  List.forall_mem_append

theorem recorded_closure :
    (closure id params body captured).Recorded made ↔
      made[id]? = some (closure id params body captured) ∧
        params.Recorded made ∧ body.Recorded made := by
  rw [Recorded, functions, List.forall_mem_cons, List.forall_mem_append]
  simp [identity?, Recorded]

/-- What was recorded stays recorded. -/
theorem Recorded.mono {made' : List Value} (h : v.Recorded made) (later : made <+: made') :
    v.Recorded made' := by
  intro f mem
  obtain ⟨id, identity, found⟩ := h f mem
  obtain ⟨more, rfl⟩ := later
  obtain ⟨existing, -⟩ := List.getElem?_eq_some_iff.mp found
  exact ⟨id, identity, (List.getElem?_append_left existing).trans found⟩

/-- Functions of the same identity are both the one that was made with it. -/
theorem Recorded.function_unique (hv : v.Recorded made) (hw : w.Recorded made) {f f' : Value}
    (hf : f ∈ v.functions) (hf' : f' ∈ w.functions) (identity : f.identity? = f'.identity?) :
    f = f' := by
  obtain ⟨id, known, found⟩ := hv f hf
  obtain ⟨id', known', found'⟩ := hw f' hf'
  obtain rfl := Option.some.inj (known.symm.trans (identity.trans known'))
  exact Option.some.inj (found.symm.trans found')

/-- Values that are equal are the same value. -/
theorem Recorded.eq_of_equal (hv : v.Recorded made) (hw : w.Recorded made)
    (same : v.equal w = true) : v = w := by
  induction v generalizing w with
  | nil =>
      cases w with
      | nil => rfl
      | _ => simp [equal] at same
  | int n =>
      cases w with
      | int n' => rw [eq_of_beq same]
      | _ => simp [equal] at same
  | symbol name =>
      cases w with
      | symbol name' => rw [eq_of_beq same]
      | _ => simp [equal] at same
  | pair first rest ihFirst ihRest =>
      cases w with
      | pair first' rest' =>
          obtain ⟨hfirst, hrest⟩ := recorded_pair.mp hv
          obtain ⟨hfirst', hrest'⟩ := recorded_pair.mp hw
          obtain ⟨sameFirst, sameRest⟩ := Bool.and_eq_true_iff.mp same
          rw [ihFirst hfirst hfirst' sameFirst, ihRest hrest hrest' sameRest]
      | _ => simp [equal] at same
  | procedure id name operation =>
      cases w with
      | procedure id' name' operation' =>
          exact hv.function_unique hw List.mem_cons_self List.mem_cons_self
            (congrArg some (eq_of_beq same))
      | _ => simp [equal] at same
  | closure id params body captured =>
      cases w with
      | closure id' params' body' captured' =>
          exact hv.function_unique hw List.mem_cons_self List.mem_cons_self
            (congrArg some (eq_of_beq same))
      | _ => simp [equal] at same

/-- The identity of a function that was made is in use. -/
theorem Recorded.lt_length (hv : v.Recorded made) {f : Value} (hf : f ∈ v.functions)
    (identity : f.identity? = some id) : id < made.length := by
  obtain ⟨id', known, found⟩ := hv f hf
  obtain rfl := Option.some.inj (identity.symm.trans known)
  exact (List.getElem?_eq_some_iff.mp found).1

/-- A closure of an identity that is not in use is not equal to anything that was made. -/
theorem Recorded.equal_fresh (hv : v.Recorded made) (fresh : made.length ≤ id) :
    (closure id params body captured).equal v = false ∧
      v.equal (closure id params body captured) = false := by
  cases v with
  | closure id' params' body' captured' =>
      have used : id' < made.length := hv.lt_length List.mem_cons_self rfl
      have other : id ≠ id' := Nat.ne_of_gt (Nat.lt_of_lt_of_le used fresh)
      exact ⟨beq_eq_false_iff_ne.mpr other, beq_eq_false_iff_ne.mpr other.symm⟩
  | _ => exact ⟨rfl, rfl⟩

end Value

/-- Every function that is bound is the one that was made with its identity. -/
def Store.Recorded (made : List Value) (s : Store) : Prop :=
  ∀ id, ∀ binding ∈ s.bindings id, binding.2.Recorded made

/-- The list has all functions that were made so far, each at the place of its identity. -/
structure Store.Made (made : List Value) (s : Store) : Prop where
  count : made.length = s.nextIdentity
  bound : s.Recorded made

namespace Store.Made

variable {made : List Value} {s : Store}

theorem addScope (h : s.Made made) {scope : Scope}
    (fine : ∀ binding ∈ scope.bindings, binding.2.Recorded made) :
    (s.addScope scope).2.Made made :=
  ⟨h.count, forall_bindings_addScope h.bound fine⟩

theorem define (h : s.Made made) (r : ScopeId) (name : String) {v : Value}
    (fine : v.Recorded made) : (s.define r name v).Made made :=
  ⟨h.count, forall_bindings_define h.bound fine r⟩

/-- The scope of a call binds what was made. -/
theorem enter (h : s.Made made) (names : List String) {args : List Value} (captured : ScopeId)
    (fine : ∀ arg ∈ args, arg.Recorded made) :
    (s.addScope ⟨bindNames names args, some captured⟩).2.Made made :=
  h.addScope fun _ bound => fine _ (List.of_mem_zip (mem_bindNames bound)).2

/-- A closure gets the place behind all that were made. -/
theorem closure (h : s.Made made) {params body : Value} (r : ScopeId)
    (fineParams : params.Recorded made) (fineBody : body.Recorded made) :
    Store.Made (made ++ [.closure s.nextIdentity params body r])
        { s with nextIdentity := s.nextIdentity + 1 } ∧
      (Value.closure s.nextIdentity params body r).Recorded
        (made ++ [.closure s.nextIdentity params body r]) := by
  have later := List.prefix_append made [.closure s.nextIdentity params body r]
  refine ⟨⟨?_, fun id binding bound => (h.bound id binding bound).mono later⟩, ?_⟩
  · rw [List.length_append, h.count]
    rfl
  · refine Value.recorded_closure.mpr ⟨?_, fineParams.mono later, fineBody.mono later⟩
    rw [← h.count]
    exact List.getElem?_concat_length

end Store.Made

/-- Evaluation makes functions one after the other, and never one again. -/
def Chronicle.identities : Chronicle (List Value) where
  later made made' := made <+: made'
  fits made m := m.store.Made made
  value made v := v.Recorded made
  scope _ _ := True
  later_refl _ := List.prefix_rfl
  later_trans := List.IsPrefix.trans
  value_mono later fine := fine.mono later
  scope_mono _ _ := trivial
  value_nil _ := Value.recorded_of_functions_eq_nil rfl
  value_truth _ := Value.recorded_of_functions_eq_nil rfl
  value_sum _ _ := Value.recorded_of_functions_eq_nil rfl
  value_pair := Value.recorded_pair
  value_parts fine := (Value.recorded_closure.mp fine).2
  lookup made _ _ found := made.bound _ _ (Bindings.mem_of_lookup found)
  special _ made := ⟨_, List.prefix_rfl, made⟩
  define made _ _ fine := ⟨_, List.prefix_rfl, made.define _ _ fine⟩
  assign made _ _ fine := ⟨_, List.prefix_rfl, made.define _ _ fine⟩
  enter made _ _ _ fineArgs := ⟨_, List.prefix_rfl, made.enter _ _ fineArgs, trivial⟩
  lambda made _ fineParams fineBody := by
    obtain ⟨after, fine⟩ := made.closure _ fineParams fineBody
    exact ⟨_, List.prefix_append .., after, fine⟩

end PocketLisp
