import PocketLisp.Eval.Apply
import PocketLisp.Proofs.Store.Owner

/-!
# What a write changes

A store is changed in two ways only: a name is bound in one scope, or a scope is added behind the
others. A binding changes no other scope and no link between scopes, and it adds the name only if
the scope does not bind it yet. Adding a scope changes none of those that are there.
-/

namespace PocketLisp

namespace Bindings

theorem binds_iff {bindings : Bindings} {name : String} :
    bindings.binds name = true ↔ name ∈ bindings.names := by
  simp [binds, names, List.lookup_isSome_iff]

theorem mem_of_lookup {bindings : Bindings} {name : String} {value : Value}
    (h : bindings.lookup name = some value) : (name, value) ∈ bindings := by
  obtain ⟨earlier, later, rfl, -⟩ := List.lookup_eq_some_iff.mp h
  simp

/-- A new name comes last, and a name that is bound already keeps its place. -/
theorem names_define (bindings : Bindings) (name : String) (value : Value) :
    (bindings.define name value).names =
      if name ∈ bindings.names then bindings.names else bindings.names ++ [name] := by
  induction bindings with
  | nil => rfl
  | cons binding rest ih =>
      obtain ⟨other, old⟩ := binding
      by_cases here : other = name
      · simp [define, names, here]
      · have later : name ∈ names ((other, old) :: rest) ↔ name ∈ names rest := by
          simp [names, Ne.symm here]
        simp only [define, if_neg here, later]
        change other :: (define name value rest).names = _
        rw [ih]
        split <;> rfl

theorem names_prefix_define (bindings : Bindings) (name : String) (value : Value) :
    bindings.names <+: (bindings.define name value).names := by
  rw [names_define]
  split
  · exact List.prefix_rfl
  · exact List.prefix_append ..

/-- A definition leaves the other bindings as they were. -/
theorem mem_define {bindings : Bindings} {name : String} {value : Value}
    {binding : String × Value} (h : binding ∈ bindings.define name value) :
    binding = (name, value) ∨ binding ∈ bindings := by
  induction bindings with
  | nil => exact .inl (List.mem_singleton.mp h)
  | cons first rest ih =>
      obtain ⟨other, old⟩ := first
      unfold define at h
      split at h
      · next same =>
        rw [List.mem_cons, same] at h
        exact h.imp_right (List.mem_cons_of_mem _)
      · obtain rfl | h := List.mem_cons.mp h
        · exact .inr List.mem_cons_self
        · exact (ih h).imp_right (List.mem_cons_of_mem _)

end Bindings

/-- The scope of a call binds parameters to arguments. -/
theorem mem_bindNames {names : List String} {values : List Value} {binding : String × Value}
    (h : binding ∈ bindNames names values) : binding ∈ names.zip values := by
  have folded (pairs : List (String × Value)) (bindings : Bindings)
      (h : binding ∈ pairs.foldl (fun bindings pair => bindings.define pair.1 pair.2) bindings) :
      binding ∈ bindings ∨ binding ∈ pairs := by
    induction pairs generalizing bindings with
    | nil => exact .inl h
    | cons pair pairs ih =>
        obtain early | later := ih (bindings.define pair.1 pair.2) h
        · obtain rfl | old := Bindings.mem_define early
          · exact .inr List.mem_cons_self
          · exact .inl old
        · exact .inr (List.mem_cons_of_mem _ later)
  exact (folded (names.zip values) [] h).resolve_left (by simp)

namespace Store

/-- The scope around `r`, as `r` names it. -/
def outer? (s : Store) (r : ScopeId) : Option ScopeId :=
  (s.scopes[r]?).bind Scope.outer

theorem outer?_of_around? {s : Store} {r outer : ScopeId} (h : s.around? r = some outer) :
    s.outer? r = some outer :=
  (Option.filter_eq_some_iff.mp h).1

theorem around?_eq (s : Store) (r : ScopeId) : s.around? r = (s.outer? r).filter (· < r) := rfl

theorem lt_size_of_outer? {s : Store} {r outer : ScopeId} (h : s.outer? r = some outer) :
    r < s.scopes.size := by
  obtain ⟨scope, found, -⟩ := Option.bind_eq_some_iff.mp h
  exact (Array.getElem?_eq_some_iff.mp found).1

theorem bindings_of_size_le {s : Store} {r : ScopeId} (h : s.scopes.size ≤ r) :
    s.bindings r = [] := by
  simp [bindings, h]

theorem lt_size_of_mem_bindings {s : Store} {r : ScopeId} {binding : String × Value}
    (h : binding ∈ s.bindings r) : r < s.scopes.size := by
  refine Nat.lt_of_not_le fun missing => ?_
  rw [bindings_of_size_le missing] at h
  exact List.not_mem_nil h

section Define

variable (s : Store) (r id : ScopeId) (name : String) (value : Value)

@[simp] theorem size_define : (s.define r name value).scopes.size = s.scopes.size := by
  simp [define]

theorem getElem?_define :
    (s.define r name value).scopes[id]? = (s.scopes[id]?).map fun scope =>
      if r = id then { scope with bindings := scope.bindings.define name value } else scope := by
  simp only [define, Array.getElem?_modify]
  split
  · rfl
  · exact Option.map_id'.symm

@[simp] theorem outer?_define : (s.define r name value).outer? id = s.outer? id := by
  simp only [outer?, getElem?_define]
  cases s.scopes[id]? with
  | none => rfl
  | some scope =>
      simp only [Option.map_some, Option.bind_some]
      split <;> rfl

theorem bindings_define_of_ne (h : r ≠ id) :
    (s.define r name value).bindings id = s.bindings id := by
  simp [bindings, getElem?_define, h]

theorem bindings_define_self {s : Store} {r : ScopeId} (h : r < s.scopes.size) :
    (s.define r name value).bindings r = (s.bindings r).define name value := by
  simp only [bindings, getElem?_define, Array.getElem?_eq_getElem h, if_pos]
  rfl

/-- A definition in `r` changes the bindings of that scope, if there is one, and no others. -/
theorem bindings_define :
    (s.define r name value).bindings id =
      if r = id ∧ r < s.scopes.size then (s.bindings id).define name value else s.bindings id := by
  split
  · next here =>
    obtain ⟨rfl, existing⟩ := here
    exact bindings_define_self name value existing
  · next elsewhere =>
    by_cases here : r = id
    · have missing : s.scopes.size ≤ id := Nat.le_of_not_lt fun lt => elsewhere ⟨here, here ▸ lt⟩
      rw [bindings_of_size_le missing, bindings_of_size_le (by simpa using missing)]
    · exact bindings_define_of_ne s r id name value here

/-- After a definition in `r` its name has the new value there, if there is such a scope, and all
other names in all scopes have what they had. -/
theorem lookup_bindings_define (other : String) :
    ((s.define r name value).bindings id).lookup other =
      if r = id ∧ r < s.scopes.size ∧ other = name then some value
      else (s.bindings id).lookup other := by
  rw [bindings_define]
  split
  · next here =>
    obtain ⟨rfl, existing⟩ := here
    simp [Bindings.lookup_define, existing]
  · next elsewhere => rw [if_neg fun written => elsewhere ⟨written.1, written.2.1⟩]

@[simp] theorem around?_define (s : Store) (r id : ScopeId) (name : String) (value : Value) :
    (s.define r name value).around? id = s.around? id := by
  rw [around?_eq, outer?_define, around?_eq]

end Define

/-- What a scope has for a name right after the name was defined there. -/
theorem eq_of_lookup_define {s : Store} {r : ScopeId} {name : String} {v w : Value}
    (holds : ((s.define r name v).bindings r).lookup name = some w) : w = v := by
  rw [lookup_bindings_define] at holds
  split at holds
  · exact (Option.some.inj holds).symm
  · next missing =>
    have alone : s.bindings r = [] :=
      bindings_of_size_le (Nat.le_of_not_lt fun existing => missing ⟨rfl, existing, rfl⟩)
    rw [alone] at holds
    cases holds

/-- A new value for a bound name leaves the names of every scope as they were. -/
theorem names_define_of_binds {s : Store} {r : ScopeId} {name : String} {value : Value}
    (bound : (s.bindings r).binds name) (id : ScopeId) :
    ((s.define r name value).bindings id).names = (s.bindings id).names := by
  rw [bindings_define]
  split
  · next here =>
    obtain ⟨rfl, -⟩ := here
    rw [Bindings.names_define, if_pos (Bindings.binds_iff.mp bound)]
  · rfl

/-- What is true of all bindings and of a new one stays true of all. -/
theorem forall_bindings_define {s : Store} {P : String × Value → Prop}
    (all : ∀ id, ∀ binding ∈ s.bindings id, P binding) {name : String} {value : Value}
    (fine : P (name, value)) (r : ScopeId) :
    ∀ id, ∀ binding ∈ (s.define r name value).bindings id, P binding := by
  intro id binding bound
  rw [bindings_define] at bound
  split at bound
  · obtain rfl | bound := Bindings.mem_define bound
    · exact fine
    · exact all id binding bound
  · exact all id binding bound

section AddScope

variable (s : Store) (scope : Scope)

@[simp] theorem size_addScope : (s.addScope scope).2.scopes.size = s.scopes.size + 1 := by
  simp [addScope]

theorem getElem?_addScope_of_lt {id : ScopeId} (h : id < s.scopes.size) :
    (s.addScope scope).2.scopes[id]? = s.scopes[id]? :=
  Array.getElem?_push_lt h ▸ (Array.getElem?_eq_getElem h).symm

theorem getElem?_addScope_self : (s.addScope scope).2.scopes[s.scopes.size]? = some scope :=
  Array.getElem?_push_size

theorem outer?_addScope_of_lt {id : ScopeId} (h : id < s.scopes.size) :
    (s.addScope scope).2.outer? id = s.outer? id := by
  rw [outer?, getElem?_addScope_of_lt s scope h, outer?]

theorem bindings_addScope_of_lt {id : ScopeId} (h : id < s.scopes.size) :
    (s.addScope scope).2.bindings id = s.bindings id := by
  rw [bindings, getElem?_addScope_of_lt s scope h, bindings]

/-- The new scope has its bindings, and every other scope those that it had. -/
theorem bindings_addScope (id : ScopeId) :
    (s.addScope scope).2.bindings id =
      if id = s.scopes.size then scope.bindings else s.bindings id := by
  simp only [bindings, addScope, Array.getElem?_push]
  split <;> rfl

/-- The new scope lies where it was put, and every other scope where it was. -/
theorem outer?_addScope (id : ScopeId) :
    (s.addScope scope).2.outer? id = if id = s.scopes.size then scope.outer else s.outer? id := by
  simp only [outer?, addScope, Array.getElem?_push]
  split <;> rfl

@[simp] theorem outer?_addScope_self : (s.addScope scope).2.outer? s.scopes.size = scope.outer := by
  rw [outer?, getElem?_addScope_self, Option.bind_some]

@[simp] theorem bindings_addScope_self :
    (s.addScope scope).2.bindings s.scopes.size = scope.bindings := by
  rw [bindings, getElem?_addScope_self, Option.map_some, Option.getD_some]

@[simp] theorem around?_addScope_of_lt (s : Store) (scope : Scope) {id : ScopeId}
    (h : id < s.scopes.size) : (s.addScope scope).2.around? id = s.around? id := by
  rw [around?_eq, outer?_addScope_of_lt s scope h, around?_eq]

/-- A new scope lies in an older one, or is outermost. -/
theorem around?_addScope_self (s : Store) (scope : Scope)
    (older : ∀ outer ∈ scope.outer, outer < s.scopes.size) :
    (s.addScope scope).2.around? s.scopes.size = scope.outer := by
  rw [around?_eq, outer?_addScope_self]
  cases around : scope.outer with
  | none => rfl
  | some outer =>
      have lt : outer < s.scopes.size := older outer (by rw [around]; rfl)
      simp [lt]

/-- What is true of all bindings and of those of a new scope stays true of all. -/
theorem forall_bindings_addScope {s : Store} {P : String × Value → Prop}
    (all : ∀ id, ∀ binding ∈ s.bindings id, P binding) {scope : Scope}
    (fine : ∀ binding ∈ scope.bindings, P binding) :
    ∀ id, ∀ binding ∈ (s.addScope scope).2.bindings id, P binding := by
  intro id binding bound
  rw [bindings_addScope] at bound
  split at bound
  · exact fine binding bound
  · exact all id binding bound

end AddScope

end Store

end PocketLisp
