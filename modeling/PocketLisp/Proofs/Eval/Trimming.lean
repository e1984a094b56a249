import PocketLisp.Proofs.Eval.Recoding
import PocketLisp.Proofs.Eval.Trim
import PocketLisp.Proofs.Reader.Plain
import PocketLisp.Session

/-!
# Evaluation of trimmed code

A form and its trimmed form are evaluated alike in every store. This is a recoding
(`Recoding.trimming`) in which the subforms of the form stand trimmed in place of themselves, while
code that the store holds already stays the same; so it is known of each closure whose body differs
that it was made during the evaluation, of a lambda form inside the form.
-/

namespace PocketLisp

namespace Value

variable {v w : Value}

theorem Part.closureFree (h : v.Part w) (free : w.ClosureFree) : v.ClosureFree := by
  induction h with
  | whole => exact free
  | first _ ih => exact ih free.1
  | rest _ ih => exact ih free.2
  | params | body => exact free.elim

theorem Plain.closureFree (plain : v.Plain) : v.ClosureFree := by
  induction v with
  | pair first rest ihFirst ihRest => exact ⟨ihFirst plain.1, ihRest plain.2⟩
  | closure => exact plain.elim
  | _ => trivial

end Value

namespace Store

/-- Something that a scope binds has the value for a part. -/
def Holds (s : Store) (v : Value) : Prop :=
  ∃ id, ∃ binding ∈ s.bindings id, v.Part binding.2

theorem Holds.part {s : Store} {v w : Value} (holds : s.Holds w) (part : v.Part w) :
    s.Holds v := by
  obtain ⟨id, binding, bound, within⟩ := holds
  exact ⟨id, binding, bound, part.trans within⟩

theorem Holds.element {s : Store} {v w : Value} (holds : s.Holds w) (mem : v ∈ w.elements) :
    s.Holds v :=
  holds.part (Value.part_of_mem_elements mem)

end Store

namespace Recoding

/-- Subforms of the form `e` stand trimmed in place of themselves. Code that the store held when
`e` was evaluated is in place of itself. -/
inductive TrimmedForms (e : Value) (s : Store) : Value → Value → Prop where
  | new {form} (inside : form.Subform e) : TrimmedForms e s form form.trim
  | held {form} (holds : s.Holds form) : TrimmedForms e s form form

/-- A closure that was made of a lambda form inside `e` has its body trimmed. The body of any other
closure is the same; it was held by the store. -/
inductive TrimmedBodies (e : Value) (s : Store) : Identity → Value → Value → Prop where
  | made {id rest names body} (inside : (Value.pair (.symbol "lambda") rest).Subform e)
      (accepts : SpecialForm.Accepts .lambda rest.elements (.lambda names body))
      (fresh : s.nextIdentity ≤ id) :
      TrimmedBodies e s id (.ofList body) (.ofList (body.map .trim))
  | held {id body} (holds : ∀ form ∈ body.elements, s.Holds form) : TrimmedBodies e s id body body

/-- The recoding that trims the form `e`, when it is evaluated in the store `s`. -/
def trimming (e : Value) (s : Store) : Recoding where
  forms := TrimmedForms e s
  bodies := TrimmedBodies e s
  floor := s.nextIdentity

/-- A special form is recoded by what stands in place of its subforms. -/
theorem recoded_map {code : Recoding} {form : Form} {f : Value → Value}
    (data : ∀ datum, form = .quote datum → datum.Recoded code datum)
    (subforms : ∀ sub ∈ form.subforms, code.forms sub (f sub))
    (made : ∀ names body, form = .lambda names body → ∀ id, code.floor ≤ id →
      code.bodies id (.ofList body) (.ofList (body.map f))) :
    form.Recoded code (form.map f) := by
  cases form with
  | quote datum => exact .quote (data datum rfl)
  | branch test yes no =>
      obtain ⟨tests, yeses, nos⟩ : code.forms test (f test) ∧ code.forms yes (f yes) ∧
          ∀ sub ∈ no.toList, code.forms sub (f sub) := by
        simpa only [Form.subforms, List.forall_mem_cons] using subforms
      cases no with
      | none => exact .branch tests yeses .none
      | some no => exact .branch tests yeses (.some (nos no List.mem_cons_self))
  | define name form => exact .define name (subforms form List.mem_cons_self)
  | assign name form => exact .assign name (subforms form List.mem_cons_self)
  | lambda names body => exact .lambda names (made names body rfl)

variable {e : Value} {s : Store}

/-- What the store held stays as it is. -/
theorem recoded_of_holds {v : Value} (holds : s.Holds v) : v.Recoded (trimming e s) v := by
  induction v with
  | nil => exact .nil
  | int n => exact .int n
  | symbol name => exact .symbol name
  | pair first rest ihFirst ihRest =>
      exact .pair (ihFirst (holds.part (.first .whole))) (ihRest (holds.part (.rest .whole)))
  | procedure id name operation => exact .procedure id name operation
  | closure id params body r ihParams _ =>
      exact .closure r (ihParams (holds.part (.params .whole)))
        (.held fun _ mem => (holds.part (.body .whole)).element mem)

theorem recoded_store (e : Value) (s : Store) : s.Recoded (trimming e s) s where
  size := rfl
  nextIdentity := rfl
  floor_le := Nat.le_refl _
  outer _ := rfl
  bindings id := List.forall₂_same.mpr fun binding bound =>
    ⟨rfl, recoded_of_holds ⟨id, binding, bound, .whole⟩⟩

theorem recoded_form_of_holds {special : SpecialForm} {args : List Value} {form : Form}
    (accepts : special.Accepts args form) (each : ∀ arg ∈ args, s.Holds arg) :
    form.Recoded (trimming e s) form := by
  have held (sub : Value) (mem : sub ∈ form.subforms) : s.Holds sub :=
    each sub (accepts.mem_of_subforms mem)
  have recoded : form.Recoded (trimming e s) (form.map id) := by
    refine recoded_map ?_ (fun sub mem => .held (held sub mem)) ?_
    · rintro datum rfl
      exact recoded_of_holds (each datum accepts.datum_mem)
    · rintro names body rfl id -
      rw [List.map_id]
      exact .held fun sub mem => held sub (by simpa [Form.subforms] using mem)
  rwa [Form.map_id] at recoded

/-- Code that the store held does what it does. -/
theorem inStep_of_holds {form : Value} (holds : s.Holds form) :
    (trimming e s).InStep form form := by
  cases form with
  | symbol name => exact .symbol name
  | pair head rest =>
      have each (arg : Value) (mem : arg ∈ rest.elements) : s.Holds arg :=
        (holds.part (.rest .whole)).element mem
      obtain ordinary | ⟨special, rfl⟩ := head.ordinary_or_special
      · exact .call ordinary ordinary (.held (holds.part (.first .whole)))
          (List.forall₂_same.mpr fun arg mem => .held (each arg mem))
      · obtain ⟨form, accepts⟩ | ⟨error, refuses⟩ := special.accepts_or_refuses rest.elements
        · exact .accepted accepts accepts (recoded_form_of_holds accepts each)
        · refine .refused refuses refuses (EvalError.related_self fun v shown => ?_)
          obtain ⟨arg, mem, part⟩ := refuses.part shown
          exact recoded_of_holds ((each arg mem).part part)
  | nil | int | procedure | closure =>
      refine .self ?_ ?_ (recoded_of_holds holds) <;> exact ⟨nofun, nofun⟩

/-- The trimmed form does what the form does. -/
theorem inStep_of_subform (free : e.ClosureFree) {form : Value} (inside : form.Subform e) :
    (trimming e s).InStep form form.trim := by
  have data {v : Value} (part : v.Part form) : v.Recoded (trimming e s) v :=
    Value.recoded_of_closureFree _ ((part.trans inside.part).closureFree free)
  cases form with
  | symbol name => exact .symbol name
  | pair head rest =>
      obtain ordinary | ⟨special, rfl⟩ := head.ordinary_or_special
      · rw [Value.trim_call ordinary]
        refine .call ordinary ordinary.trim (.new (.trans (.head ordinary .whole) inside)) ?_
        rw [Value.elements_ofList_nil]
        refine List.forall₂_map_right_iff.mpr (List.forall₂_same.mpr fun arg mem => ?_)
        exact .new (.trans (.arg ordinary mem .whole) inside)
      · rw [Value.trim_special]
        obtain ⟨form, accepts⟩ | ⟨error, refuses⟩ := special.accepts_or_refuses rest.elements
        · have new (sub : Value) (mem : sub ∈ form.subforms) : sub.Subform e :=
            .trans (.special accepts mem .whole) inside
          refine .accepted accepts (by simpa using accepts.trim) (recoded_map ?_ ?_ ?_)
          · rintro datum rfl
            exact data (.rest (Value.part_of_mem_elements accepts.datum_mem))
          · exact fun sub mem => .new (new sub mem)
          · rintro names body rfl id fresh
            obtain rfl := accepts.eq_lambda
            exact .made inside accepts fresh
        · refine .refused refuses (by simpa using refuses.trim) ?_
          refine EvalError.related_self fun v shown => ?_
          obtain ⟨arg, mem, part⟩ := refuses.part shown
          exact data (.rest (part.trans (Value.part_of_mem_elements mem)))
  | nil | int | procedure | closure => refine .self ?_ ?_ (data .whole) <;> exact ⟨nofun, nofun⟩

/-- Code is trimmed soundly where the form has no closures in it. -/
theorem trimming_sound (free : e.ClosureFree) : (trimming e s).Sound where
  forms h := by
    cases h with
    | new inside => exact inStep_of_subform free inside
    | held holds => exact inStep_of_holds holds
  bodies h := by
    cases h with
    | made inside accepts fresh =>
        rw [Value.elements_ofList_nil, Value.elements_ofList_nil]
        refine List.forall₂_map_right_iff.mpr (List.forall₂_same.mpr fun sub mem => ?_)
        exact .new (.trans (.special accepts mem .whole) inside)
    | held holds => exact List.forall₂_same.mpr fun form mem => .held (holds form mem)

end Recoding

/-- What ends the lists of code has no meaning. Trimmed code has nothing at these places, and a form
that a text spells is evaluated as its trimmed form is, to any depth, in any scope and from any
state. Both runs end with a value, or for the same cause, or both are nested too deeply; and the
value, the error and the stores are the same, except that the closures which the evaluation made of
lambda forms inside the form have trimmed bodies. What the runs end with is the same altogether if
no closure is in it. -/
theorem tails_of_code_ignored {text : String} {e : Value} (read : e ∈ (readAll text).1)
    (depth : Nat) (r : ScopeId) (m : Machine) :
    e.trim.Untailed ∧
      (Recoding.trimming e m.store).EndAlike (Value.Recoded (Recoding.trimming e m.store))
        (evaluate depth e r m) (evaluate depth e.trim r m) ∧
      ((∀ v ∈ (evaluate depth e r).handedOut m, v.ClosureFree) →
        (evaluate depth e.trim r).outcome m = (evaluate depth e r).outcome m) := by
  have free : e.ClosureFree := (plain_of_mem_readAll read).closureFree
  have alike := (Recoding.trimming_sound free).follows_evaluate depth
    (.new .whole) r (Recoding.recoded_store e m.store)
  exact ⟨e.untailed_trim, alike, alike.outcome_eq⟩

/-- A branch whose lists all have something behind their elements. -/
def dottedBranch : Value :=
  .ofList [.symbol "if",
    .ofList [.symbol "cdr", (Value.ofList [.symbol "a"] (.symbol "b")).quote] (.symbol "c"),
    .ofList [.ofList [.symbol "lambda", .ofList [.symbol "x"] (.symbol "y"),
      .ofList [.symbol "+", .symbol "x", .int 1] (.int 2)] (.int 3), .int 4] (.int 5)] (.symbol "d")

/-- Behind the elements of the code is nothing that matters; the quoted pair stays what it is. -/
theorem tails_of_branch_ignored :
    dottedBranch ∈ (readAll
      "(if (cdr '(a . b) . c) ((lambda (x . y) (+ x 1 . 2) . 3) 4 . 5) . d)").1 ∧
    (readAll "(if (cdr '(a . b)) ((lambda (x) (+ x 1)) 4))").1 = [dottedBranch.trim] ∧
    (evaluate 6 dottedBranch.trim Session.globalScope).outcome Session.start = .ok (.int 5) := by
  have read : dottedBranch ∈ (readAll
      "(if (cdr '(a . b) . c) ((lambda (x . y) (+ x 1 . 2) . 3) 4 . 5) . d)").1 := by
    decide +kernel
  have five : (evaluate 6 dottedBranch Session.globalScope).handedOut Session.start =
      some (.int 5) := by
    decide +kernel
  have same := (tails_of_code_ignored read 6 Session.globalScope Session.start).2.2
    fun v out => by rw [five] at out; cases out; trivial
  exact ⟨read, by decide +kernel, same.trans (by decide +kernel)⟩

end PocketLisp
