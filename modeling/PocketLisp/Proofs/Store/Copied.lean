import PocketLisp.Proofs.Eval.Alike
import PocketLisp.Proofs.Store.Write

/-!
# A store inside another

A store may hold a copy of another one, under other numbers and among scopes that do not belong to
it (`Store.Copied`). What is found in the copy is alike to what is found in the original, and both
are changed alike by definitions, new scopes and new identities. While the copy is worked on, the
scopes of the larger store that do not belong to it stay as they are (`Store.Undisturbed`), and so
any copy that has no scope in common with it stays a copy (`Store.Copied.of_undisturbed`).
-/

namespace PocketLisp

open Relator (BiUnique)

/-- A store as it is before something is worked on in it, and the scopes in it that are free to be
changed. -/
structure Territory where
  before : Store
  mine : ScopeId → Prop

/-- The scopes of a store that are paired. -/
def Territory.paired (p : Pairing) (host : Store) : Territory :=
  ⟨host, fun b => ∃ a, p.scopes a b⟩

namespace Store

/-- The paired scopes and identities of `host` are a copy of those of `guest`. -/
structure Copied (p : Pairing) (guest host : Store) : Prop where
  uniqueScopes : BiUnique p.scopes
  uniqueIdentities : BiUnique p.identities
  scopes_lt {a b : ScopeId} : p.scopes a b → a < guest.scopes.size ∧ b < host.scopes.size
  identities_lt {i j : Identity} :
    p.identities i j → i < guest.nextIdentity ∧ j < host.nextIdentity
  around {a b : ScopeId} : p.scopes a b → Option.Rel p.scopes (guest.around? a) (host.around? b)
  bindings {a b : ScopeId} : p.scopes a b → (guest.bindings a).Alike p (host.bindings b)

/-- The store has grown, but outside of the territory its scopes are as they were before. Only
scopes of the territory and new ones are paired. -/
structure Undisturbed (land : Territory) (p : Pairing) (host : Store) : Prop where
  size_le : land.before.scopes.size ≤ host.scopes.size
  nextIdentity_le : land.before.nextIdentity ≤ host.nextIdentity
  mine_or_new {a b : ScopeId} : p.scopes a b → land.mine b ∨ land.before.scopes.size ≤ b
  kept {b : ScopeId} : b < land.before.scopes.size → ¬ land.mine b →
    host.scopes[b]? = land.before.scopes[b]?

/-- The store `host` has a copy of `guest`, which lies in the territory and in new scopes. -/
structure Hosts (land : Territory) (p : Pairing) (guest host : Store) : Prop where
  copied : Copied p guest host
  undisturbed : Undisturbed land p host

variable {p : Pairing} {guest host : Store}

/-- Nothing is copied yet. -/
theorem copied_empty (host : Store) : Copied .empty {} host where
  uniqueScopes := ⟨fun _ _ _ h => h.elim, fun _ _ _ h => h.elim⟩
  uniqueIdentities := ⟨fun _ _ _ h => h.elim, fun _ _ _ h => h.elim⟩
  scopes_lt h := h.elim
  identities_lt h := h.elim
  around h := h.elim
  bindings h := h.elim

namespace Copied

variable (copied : Copied p guest host)
include copied

/-- The nearest binding of a name is in scopes that are paired, or there is none in either store. -/
theorem owner? {r r' : ScopeId} (paired : p.scopes r r') (name : String) :
    Option.Rel p.scopes (guest.owner? r name) (host.owner? r' name) := by
  induction r using Nat.strongRecOn generalizing r' with
  | ind r ih =>
      rw [owner?_eq, owner?_eq, (copied.bindings paired).binds name]
      split
      · exact .some paired
      · have link := copied.around paired
        have older (outer : ScopeId) (h : guest.around? r = some outer) : outer < r :=
          lt_of_around? h
        generalize guest.around? r = outer? at link older
        generalize host.around? r' = outer?' at link
        cases link with
        | none => exact .none
        | some pairedOuter => exact ih _ (older _ rfl) pairedOuter

/-- A definition in paired scopes, of values that are alike, leaves a copy. -/
theorem define {r r' : ScopeId} (paired : p.scopes r r') (name : String) {v v' : Value}
    (alike : v.Alike p v') : Copied p (guest.define r name v) (host.define r' name v') where
  uniqueScopes := copied.uniqueScopes
  uniqueIdentities := copied.uniqueIdentities
  scopes_lt h := by simpa using copied.scopes_lt h
  identities_lt := copied.identities_lt
  around h := by simpa using copied.around h
  bindings {a b} h := by
    obtain ⟨lt, lt'⟩ := copied.scopes_lt paired
    have same : r = a ↔ r' = b := Relator.rel_eq copied.uniqueScopes paired h
    by_cases here : r = a
    · obtain rfl := here
      obtain rfl := same.mp rfl
      rw [bindings_define_self name v lt, bindings_define_self name v' lt']
      exact (copied.bindings paired).define name alike
    · rw [bindings_define_of_ne guest r a name v here,
        bindings_define_of_ne host r' b name v' fun here' => here (same.mpr here')]
      exact copied.bindings h

theorem older_of_rel {outer? outer?' : Option ScopeId}
    (link : Option.Rel p.scopes outer? outer?') :
    (∀ outer ∈ outer?, outer < guest.scopes.size) ∧
      ∀ outer ∈ outer?', outer < host.scopes.size := by
  cases link with
  | none => simp
  | some paired => simpa using copied.scopes_lt paired

/-- New scopes that are alike are paired. -/
theorem addScope {scope scope' : Scope} (alike : scope.Alike p scope') :
    Copied (p.addScope guest.scopes.size host.scopes.size) (guest.addScope scope).2
      (host.addScope scope').2 where
  uniqueScopes := Pairing.biUnique_add copied.uniqueScopes fun a b h =>
    (copied.scopes_lt h).imp Nat.ne_of_lt Nat.ne_of_lt
  uniqueIdentities := copied.uniqueIdentities
  scopes_lt {a b} h := by
    rw [size_addScope, size_addScope]
    obtain h | ⟨rfl, rfl⟩ := h
    · exact (copied.scopes_lt h).imp Nat.lt_succ_of_lt Nat.lt_succ_of_lt
    · exact ⟨Nat.lt_succ_self _, Nat.lt_succ_self _⟩
  identities_lt := copied.identities_lt
  around {a b} h := by
    have le := p.le_addScope guest.scopes.size host.scopes.size
    obtain h | ⟨rfl, rfl⟩ := h
    · obtain ⟨lt, lt'⟩ := copied.scopes_lt h
      rw [around?_addScope_of_lt guest scope lt, around?_addScope_of_lt host scope' lt']
      exact Pairing.rel_scopes_mono le (copied.around h)
    · obtain ⟨older, older'⟩ := copied.older_of_rel alike.outer
      rw [around?_addScope_self guest scope older, around?_addScope_self host scope' older']
      exact Pairing.rel_scopes_mono le alike.outer
  bindings {a b} h := by
    have le := p.le_addScope guest.scopes.size host.scopes.size
    obtain h | ⟨rfl, rfl⟩ := h
    · obtain ⟨lt, lt'⟩ := copied.scopes_lt h
      rw [bindings_addScope_of_lt guest scope lt, bindings_addScope_of_lt host scope' lt']
      exact (copied.bindings h).mono le
    · rw [bindings_addScope_self, bindings_addScope_self]
      exact alike.bindings.mono le

/-- New identities are paired. -/
theorem addIdentity :
    Copied (p.addIdentity guest.nextIdentity host.nextIdentity)
      { guest with nextIdentity := guest.nextIdentity + 1 }
      { host with nextIdentity := host.nextIdentity + 1 } where
  uniqueScopes := copied.uniqueScopes
  uniqueIdentities := Pairing.biUnique_add copied.uniqueIdentities fun i j h =>
    (copied.identities_lt h).imp Nat.ne_of_lt Nat.ne_of_lt
  scopes_lt := copied.scopes_lt
  identities_lt {i j} h := by
    obtain h | ⟨rfl, rfl⟩ := h
    · exact (copied.identities_lt h).imp Nat.lt_succ_of_lt Nat.lt_succ_of_lt
    · exact ⟨Nat.lt_succ_self _, Nat.lt_succ_self _⟩
  around := copied.around
  bindings h := (copied.bindings h).mono (p.le_addIdentity _ _)

/-- A copy can be worked on, in the territory of its own scopes. -/
theorem hosts : Hosts (.paired p host) p guest host where
  copied := copied
  undisturbed :=
    { size_le := Nat.le_refl _
      nextIdentity_le := Nat.le_refl _
      mine_or_new := fun paired => .inl ⟨_, paired⟩
      kept := fun _ _ => rfl }

/-- What was copied stays a copy while only other scopes are worked on. -/
theorem of_undisturbed {worked q : Pairing} {host' : Store}
    (undisturbed : Undisturbed (.paired worked host) q host')
    (apart : ∀ a a' b, p.scopes a b → ¬ worked.scopes a' b) : Copied p guest host' := by
  have kept {a b : ScopeId} (h : p.scopes a b) : host'.scopes[b]? = host.scopes[b]? :=
    undisturbed.kept (copied.scopes_lt h).2 fun ⟨a', mine⟩ => apart a a' b h mine
  constructor
  · exact copied.uniqueScopes
  · exact copied.uniqueIdentities
  · intro a b h
    exact (copied.scopes_lt h).imp_right fun lt => Nat.lt_of_lt_of_le lt undisturbed.size_le
  · intro i j h
    exact (copied.identities_lt h).imp_right fun lt =>
      Nat.lt_of_lt_of_le lt undisturbed.nextIdentity_le
  · intro a b h
    have link := copied.around h
    rwa [around?, around?, ← kept h] at link
  · intro a b h
    have alike := copied.bindings h
    rwa [Store.bindings, Store.bindings, ← kept h] at alike

end Copied

section Undisturbed

variable {land : Territory} (undisturbed : Undisturbed land p host)
include undisturbed

theorem Undisturbed.define {a b : ScopeId} (paired : p.scopes a b) (name : String) (v : Value) :
    Undisturbed land p (host.define b name v) where
  size_le := by simpa using undisturbed.size_le
  nextIdentity_le := undisturbed.nextIdentity_le
  mine_or_new := undisturbed.mine_or_new
  kept {c} old other := by
    have here : b ≠ c := by
      rintro rfl
      exact (undisturbed.mine_or_new paired).elim other (Nat.not_le_of_lt old)
    rw [getElem?_define, ← undisturbed.kept old other]
    simp [here]

theorem Undisturbed.addScope (a : ScopeId) (scope : Scope) :
    Undisturbed land (p.addScope a host.scopes.size) (host.addScope scope).2 where
  size_le := by
    rw [size_addScope]
    exact Nat.le_succ_of_le undisturbed.size_le
  nextIdentity_le := undisturbed.nextIdentity_le
  mine_or_new h := by
    obtain h | ⟨-, rfl⟩ := h
    · exact undisturbed.mine_or_new h
    · exact .inr undisturbed.size_le
  kept old other := by
    rw [getElem?_addScope_of_lt host scope (Nat.lt_of_lt_of_le old undisturbed.size_le)]
    exact undisturbed.kept old other

theorem Undisturbed.addIdentity (i j : Identity) :
    Undisturbed land (p.addIdentity i j)
      { host with nextIdentity := host.nextIdentity + 1 } where
  size_le := undisturbed.size_le
  nextIdentity_le := Nat.le_succ_of_le undisturbed.nextIdentity_le
  mine_or_new := undisturbed.mine_or_new
  kept := undisturbed.kept

end Undisturbed

section Hosts

variable {land : Territory} (hosts : Hosts land p guest host)
include hosts

theorem Hosts.define {r r' : ScopeId} (paired : p.scopes r r') (name : String) {v v' : Value}
    (alike : v.Alike p v') : Hosts land p (guest.define r name v) (host.define r' name v') :=
  ⟨hosts.copied.define paired name alike, hosts.undisturbed.define paired name v'⟩

theorem Hosts.addScope {scope scope' : Scope} (alike : scope.Alike p scope') :
    Hosts land (p.addScope guest.scopes.size host.scopes.size) (guest.addScope scope).2
      (host.addScope scope').2 :=
  ⟨hosts.copied.addScope alike, hosts.undisturbed.addScope _ scope'⟩

theorem Hosts.addIdentity :
    Hosts land (p.addIdentity guest.nextIdentity host.nextIdentity)
      { guest with nextIdentity := guest.nextIdentity + 1 }
      { host with nextIdentity := host.nextIdentity + 1 } :=
  ⟨hosts.copied.addIdentity, hosts.undisturbed.addIdentity _ _⟩

end Hosts

end Store

end PocketLisp
