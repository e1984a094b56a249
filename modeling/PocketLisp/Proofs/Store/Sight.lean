import PocketLisp.Proofs.Store.Write

/-!
# What a name is seen to be

`Store.get?` goes outward along a chain of scopes. One step of this is an equation
(`Store.get?_eq`), and the value of a name depends on nothing but what the scopes on the way bind it
to (`Store.get?_congr`). So it is known what becomes of it when a scope is added or a name is bound.
-/

namespace PocketLisp.Store

variable {s s' : Store} {r : ScopeId} {name other : String} {value : Value}

theorem lookup_of_not_binds {bindings : Bindings} (unbound : ¬ bindings.binds name) :
    bindings.lookup name = none :=
  Option.not_isSome_iff_eq_none.mp unbound

/-- A name has the value that the scope gives it, or else the value that it has around the scope. -/
theorem get?_eq (s : Store) (r : ScopeId) (name : String) :
    s.get? r name =
      ((s.bindings r).lookup name).or ((s.around? r).bind (s.get? · name)) := by
  rw [get?, owner?_eq]
  split
  · next bound =>
    obtain ⟨value, found⟩ := Option.isSome_iff_exists.mp bound
    rw [Option.bind_some, found, Option.some_or]
  · next unbound =>
    rw [lookup_of_not_binds unbound, Option.none_or, Option.bind_assoc]
    rfl

/-- Scopes that bind a name alike, inside scopes that do, give it the same value. -/
theorem get?_congr
    (same : ∀ id ≤ r, s'.around? id = s.around? id ∧
      (s'.bindings id).lookup name = (s.bindings id).lookup name) :
    s'.get? r name = s.get? r name := by
  induction r using Nat.strongRecOn with
  | ind r ih =>
      obtain ⟨around, bound⟩ := same r (Nat.le_refl r)
      rw [get?_eq s', get?_eq s, around, bound]
      cases outer : s.around? r with
      | none => rfl
      | some outer' =>
          have older := lt_of_around? outer
          rw [Option.bind_some, Option.bind_some,
            ih outer' older fun id le => same id (Nat.le_trans le (Nat.le_of_lt older))]

/-- From a scope that does not exist nothing is found. -/
theorem owner?_of_size_le (missing : s.scopes.size ≤ r) : s.owner? r name = none := by
  have alone : s.around? r = none := by simp [around?, missing]
  rw [owner?_eq, bindings_of_size_le missing, alone]
  rfl

section AddScope

variable (s) (scope : Scope)

/-- From the scopes that were there a name is found where it was. -/
theorem owner?_addScope_of_lt (existing : r < s.scopes.size) :
    (s.addScope scope).2.owner? r name = s.owner? r name := by
  induction r using Nat.strongRecOn with
  | ind r ih =>
      rw [owner?_eq, owner?_eq s, bindings_addScope_of_lt s scope existing,
        around?_addScope_of_lt s scope existing]
      cases around : s.around? r with
      | none => rfl
      | some outer =>
          have older := lt_of_around? around
          rw [Option.bind_some, Option.bind_some, ih outer older (Nat.lt_trans older existing)]

/-- A name that a new scope does not bind is found from there where the scope around it finds it. -/
theorem owner?_addScope_self {outer : ScopeId} (around : scope.outer = some outer)
    (unbound : ¬ scope.bindings.binds name) :
    (s.addScope scope).2.owner? s.scopes.size name = s.owner? outer name := by
  rw [owner?_eq, bindings_addScope_self, if_neg unbound]
  by_cases existing : outer < s.scopes.size
  · rw [around?_addScope_self s scope (by simpa [around] using existing), around, Option.bind_some,
      owner?_addScope_of_lt s scope existing]
  · rw [owner?_of_size_le (Nat.le_of_not_lt existing), around?_eq, outer?_addScope_self, around]
    simp [existing]

variable {s scope} in
/-- A name that is found from a scope where it was found from another has the value it had there. -/
theorem get?_addScope_of_owner? {r' : ScopeId}
    (found : (s.addScope scope).2.owner? r' name = s.owner? r name) :
    (s.addScope scope).2.get? r' name = s.get? r name := by
  rw [get?, get?, found]
  cases place : s.owner? r name with
  | none => rfl
  | some owner =>
      obtain ⟨value, bound⟩ := (owner?_eq_some_iff.mp place).bound
      have existing := lt_size_of_mem_bindings (Bindings.mem_of_lookup bound)
      rw [Option.bind_some, Option.bind_some, bindings_addScope_of_lt s scope existing]

end AddScope

section Define

/-- A definition changes what no other name is. -/
theorem get?_define_of_ne (s : Store) (id r : ScopeId) (value : Value) (different : other ≠ name) :
    (s.define id name value).get? r other = s.get? r other :=
  get?_congr fun _ _ => ⟨around?_define .., by simp [lookup_bindings_define, different]⟩

/-- The scope of a definition sees the new value. -/
theorem get?_define_self (existing : r < s.scopes.size) :
    (s.define r name value).get? r name = some value := by
  rw [get?_eq, lookup_bindings_define, if_pos ⟨rfl, existing, rfl⟩, Option.some_or]

end Define

end PocketLisp.Store
