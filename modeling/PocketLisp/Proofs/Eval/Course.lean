import PocketLisp.Proofs.Eval.Identity

/-!
# The course of an evaluation

`Course s history t` says that the happenings, one after another, lead from the store `s` to the
store `t`. Each of them has its effect: a call adds one scope, a lambda takes one identity, and the
happening names the closure that is called or made. Every evaluation takes such a course, and its
trace is what can be told of it (`exists_told_evaluate`): of all happenings but those that bind
names there is one event each, in the same order.

What holds of every course therefore holds of every trace. `Account` collects it: there is one call
for each new scope and one closure for each new identity, and a lambda in front of each closure.
-/

namespace PocketLisp

/-- What happens while forms are evaluated. -/
inductive Happening where
  /-- A special form is about to be handled. -/
  | dispatched (form : SpecialForm)
  /-- A name gets a value in a scope. -/
  | bound (r : ScopeId) (name : String) (value : Value)
  /-- A scope is made in which the parameters of the closure have the arguments as values. -/
  | entered (closure : Value) (args : List Value)
  | made (closure : Value)

/-- The event that reports a happening. That a name is bound is not reported. -/
def Happening.event? : Happening → Option Event
  | dispatched form => some (.specialForm form.name)
  | bound .. => none
  | entered closure args => some (.applying closure args)
  | made closure => some (.closureMade closure)

namespace Event

/-- The happenings that are reported, as they follow on one another. -/
def records (history : List Happening) : List Event :=
  history.filterMap Happening.event?

@[simp] theorem records_append (history more : List Happening) :
    records (history ++ more) = records history ++ records more :=
  List.filterMap_append

@[simp] theorem records_nil : records [] = [] := rfl

@[simp] theorem records_dispatched (form : SpecialForm) :
    records [.dispatched form] = [.specialForm form.name] := rfl

@[simp] theorem records_bound (r : ScopeId) (name : String) (value : Value) :
    records [.bound r name value] = [] := rfl

@[simp] theorem records_entered (closure : Value) (args : List Value) :
    records [.entered closure args] = [.applying closure args] := rfl

@[simp] theorem records_made (form : SpecialForm) (closure : Value) :
    records [.dispatched form, .made closure] = [.specialForm form.name, .closureMade closure] :=
  rfl

/-- Whether the event reports a call. -/
def isApplying : Event → Bool
  | applying .. => true
  | _ => false

/-- Whether the event reports a new closure. -/
def isClosureMade : Event → Bool
  | closureMade _ => true
  | _ => false

/-- The scope that the closure of a reported call has captured. -/
def captured? : Event → Option ScopeId
  | applying (.closure _ _ _ captured) _ => some captured
  | _ => none

/-- The identity of a closure that is reported to be new. -/
def identity? : Event → Option Identity
  | closureMade closure => closure.identity?
  | _ => none

/-- The event of a new closure comes right behind that of a lambda. -/
def LambdasFirst (events : List Event) : Prop :=
  ∀ earlier closure later, events = earlier ++ .closureMade closure :: later →
    earlier.getLast? = some (.specialForm SpecialForm.lambda.name)

theorem LambdasFirst.concat {events : List Event} {event : Event} (first : LambdasFirst events)
    (last : event.isClosureMade → events.getLast? = some (.specialForm SpecialForm.lambda.name)) :
    LambdasFirst (events ++ [event]) := by
  intro earlier closure later split
  obtain rfl | ⟨later, final, rfl⟩ := later.eq_nil_or_concat
  · obtain ⟨rfl, same⟩ := List.append_inj' split rfl
    cases same
    exact last rfl
  · rw [List.concat_eq_append, ← List.cons_append, ← List.append_assoc] at split
    exact first earlier closure later (List.append_inj' split rfl).1

end Event

open Event

/-- The happenings lead from the store `s` to another one. A lambda is reported and makes its
closure without anything in between. -/
inductive Course (s : Store) : List Happening → Store → Prop where
  | start : Course s [] s
  | dispatched {history t} (before : Course s history t) (form : SpecialForm) :
      Course s (history ++ [.dispatched form]) t
  | bound {history t} (before : Course s history t) (r : ScopeId) (name : String) (v : Value) :
      Course s (history ++ [.bound r name v]) (t.define r name v)
  | entered {history t} (before : Course s history t) (id : Identity) (params body : Value)
      (captured : ScopeId) {names : List String} {args : List Value}
      (symbols : params.elements = names.map .symbol) (count : args.length = names.length) :
      Course s (history ++ [.entered (.closure id params body captured) args])
        (t.addScope ⟨bindNames names args, some captured⟩).2
  | made {history t} (before : Course s history t) (names : List String) (body : Value)
      (r : ScopeId) :
      Course s
        (history ++ [.dispatched .lambda,
          .made (.closure t.nextIdentity (.ofList (names.map .symbol)) body r)])
        { t with nextIdentity := t.nextIdentity + 1 }

/-- The scopes around the scopes of a store, from the oldest scope on. -/
def Store.links (s : Store) : List (Option ScopeId) :=
  s.scopes.toList.map Scope.outer

@[simp] theorem Store.links_define (s : Store) (r : ScopeId) (name : String) (value : Value) :
    (s.define r name value).links = s.links := by
  refine List.ext_getElem? fun id => ?_
  simp only [links, List.getElem?_map, Array.getElem?_toList, getElem?_define, Option.map_map]
  congr 1
  funext scope
  simp only [Function.comp_apply]
  split <;> rfl

@[simp] theorem Store.links_addScope (s : Store) (scope : Scope) :
    (s.addScope scope).2.links = s.links ++ [scope.outer] := by
  simp [links, addScope]

/-- The events tell faithfully what leads from the store `s` to the store `t`. -/
structure Account (s : Store) (events : List Event) (t : Store) : Prop where
  /-- They stand in the order of what they report. -/
  course : ∃ history, Course s history t ∧ events = records history
  /-- There are as many calls as new scopes. -/
  calls : t.scopes.size = s.scopes.size + events.countP isApplying
  /-- The new scopes lie, one after another, where the closures were made that are called. -/
  links : t.links = s.links ++ (events.filterMap captured?).map some
  /-- There are as many closures as new identities. -/
  closures : t.nextIdentity = s.nextIdentity + events.countP isClosureMade
  /-- The closures have, one after another, the new identities. -/
  identities : events.filterMap identity? =
    List.range' s.nextIdentity (events.countP isClosureMade)
  lambdas : LambdasFirst events

namespace Course

variable {s t : Store} {history : List Happening}

theorem calls (course : Course s history t) :
    t.scopes.size = s.scopes.size + (records history).countP isApplying := by
  induction course with
  | start => rfl
  | dispatched _ _ ih | bound _ _ _ _ ih | made _ _ _ _ ih => simpa [isApplying] using ih
  | entered _ _ _ _ _ _ _ ih => simp [isApplying, ih, Nat.add_assoc]

theorem links (course : Course s history t) :
    t.links = s.links ++ ((records history).filterMap captured?).map some := by
  induction course with
  | start => simp
  | dispatched _ _ ih | bound _ _ _ _ ih | entered _ _ _ _ _ _ _ ih =>
      simp [captured?, List.filterMap_cons, ih]
  | @made _ t _ _ _ _ ih =>
      change t.links = _
      simpa [captured?, List.filterMap_cons] using ih

theorem closures (course : Course s history t) :
    t.nextIdentity = s.nextIdentity + (records history).countP isClosureMade := by
  induction course with
  | start => rfl
  | @dispatched _ t _ _ ih | @bound _ t _ _ _ _ ih | @entered _ t _ _ _ _ _ _ _ _ _ ih =>
      change t.nextIdentity = _
      simpa [isClosureMade] using ih
  | made _ _ _ _ ih => simp [isClosureMade, ih, Nat.add_assoc]

theorem identities (course : Course s history t) :
    (records history).filterMap identity? =
      List.range' s.nextIdentity ((records history).countP isClosureMade) := by
  induction course with
  | start => rfl
  | dispatched _ _ ih | bound _ _ _ _ ih | entered _ _ _ _ _ _ _ ih =>
      simpa [isClosureMade, identity?, List.filterMap_cons] using ih
  | made before _ _ _ ih =>
      simp [isClosureMade, identity?, Value.identity?, List.filterMap_cons, ih, before.closures,
        List.range'_1_concat]

theorem lambdas (course : Course s history t) : LambdasFirst (records history) := by
  induction course with
  | start => simp [LambdasFirst]
  | dispatched _ _ ih | entered _ _ _ _ _ _ _ ih =>
      rw [records_append]
      exact ih.concat (by simp [isClosureMade])
  | bound _ _ _ _ ih => simpa using ih
  | made _ _ _ _ ih =>
      rw [records_append, records_made, List.append_cons]
      exact (ih.concat (by simp [isClosureMade])).concat fun _ => List.getLast?_concat

/-- A variable that is not given a value keeps the one that it has. -/
theorem lookup_eq {owner : ScopeId} {name : String} {v : Value} (course : Course s history t)
    (held : (s.bindings owner).lookup name = some v)
    (ungiven : ∀ u, .bound owner name u ∉ history) :
    (t.bindings owner).lookup name = some v := by
  induction course with
  | start => exact held
  | dispatched _ _ ih | made _ _ _ _ ih =>
      exact ih fun u mem => ungiven u (List.mem_append_left _ mem)
  | @bound history t _ r' name' u ih =>
      have before := ih fun u mem => ungiven u (List.mem_append_left _ mem)
      rw [Store.lookup_bindings_define, if_neg, before]
      rintro ⟨rfl, -, rfl⟩
      exact ungiven u (by simp)
  | @entered history t _ id params body captured names args _ _ ih =>
      have before := ih fun u mem => ungiven u (List.mem_append_left _ mem)
      have existing := Store.lt_size_of_mem_bindings (Bindings.mem_of_lookup before)
      rwa [Store.bindings_addScope_of_lt t _ existing]

/-- What holds of every course. -/
theorem account (course : Course s history t) : Account s (records history) t where
  course := ⟨history, course, rfl⟩
  calls := course.calls
  links := course.links
  closures := course.closures
  identities := course.identities
  lambdas := course.lambdas

end Course

/-- The happenings lead from the store `s` to this state, and its trace reports them. -/
structure Told (s : Store) (history : List Happening) (m : Machine) : Prop where
  course : Course s history m.store
  trace : m.trace.toList = records history

namespace Told

variable {s : Store} {history : List Happening} {m : Machine} (told : Told s history m)
include told

theorem special (form : SpecialForm) :
    Told s (history ++ [.dispatched form]) (m.reported (.specialForm form.name)) where
  course := told.course.dispatched form
  trace := by simp [Machine.reported, told.trace]

theorem define (r : ScopeId) (name : String) (value : Value) :
    Told s (history ++ [.bound r name value]) (m.defined r name value) where
  course := told.course.bound r name value
  trace := by simp [Machine.defined, told.trace]

theorem enter (id : Identity) (params body : Value) (captured : ScopeId) {names : List String}
    {args : List Value} (symbols : params.elements = names.map .symbol)
    (count : args.length = names.length) :
    Told s (history ++ [.entered (.closure id params body captured) args])
      ((m.added ⟨bindNames names args, some captured⟩).reported
        (.applying (.closure id params body captured) args)) where
  course := told.course.entered id params body captured symbols count
  trace := by simp [Machine.reported, Machine.added, told.trace]

theorem lambda (names : List String) (body : Value) (r : ScopeId) :
    Told s
      (history ++ [.dispatched .lambda,
        .made (.closure m.store.nextIdentity (.ofList (names.map .symbol)) body r)])
      ((m.reported (.specialForm SpecialForm.lambda.name)).identified.reported
        (.closureMade (.closure m.store.nextIdentity (.ofList (names.map .symbol)) body r))) where
  course := told.course.made names body r
  trace := by simp [Machine.reported, Machine.identified, told.trace]

end Told

/-- Evaluation takes its course and reports it. -/
def Chronicle.course (s : Store) : Chronicle (List Happening) where
  later history history' := history <+: history'
  fits := Told s
  value _ _ := True
  scope _ _ := True
  later_refl _ := List.prefix_rfl
  later_trans := List.IsPrefix.trans
  value_mono _ _ := trivial
  scope_mono _ _ := trivial
  value_nil _ := trivial
  value_truth _ := trivial
  value_sum _ _ := trivial
  value_pair := and_self_iff.symm
  value_parts _ := ⟨trivial, trivial⟩
  lookup _ _ _ _ := trivial
  special form told := ⟨_, List.prefix_append .., told.special form⟩
  define told _ _ _ := ⟨_, List.prefix_append .., told.define _ _ _⟩
  assign told _ _ _ := ⟨_, List.prefix_append .., told.define _ _ _⟩
  enter told _ symbols count _ :=
    ⟨_, List.prefix_append .., told.enter _ _ _ _ symbols count, trivial⟩
  lambda told _ _ _ := ⟨_, List.prefix_append .., told.lambda _ _ _, trivial⟩

/-- Every evaluation takes a course, whatever its outcome, and tells it. -/
theorem exists_told_evaluate (depth : Nat) (form : Value) (r : ScopeId) (s : Store) :
    ∃ history, Told s history ((evaluate depth form r).stateAfter ⟨s, #[]⟩) := by
  have start : (Chronicle.course s).fits [] ⟨s, #[]⟩ := { course := .start, trace := rfl }
  have kept : (Chronicle.course s).Keeps (Chronicle.course s).value (evaluate depth form r) []
      ⟨s, #[]⟩ := (Chronicle.course s).evaluate_keeps depth start trivial trivial
  obtain ⟨history, -, told, -⟩ := kept.after
  exact ⟨history, told⟩

end PocketLisp
