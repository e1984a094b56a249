import PocketLisp.Proofs.Eval.Lockstep
import PocketLisp.Proofs.Store.Write

/-!
# Two evaluations side by side

A `Simulation` relates the stores of two runs. Its laws speak of single operations: what the one run
finds under a name the other finds too, and what both write keeps the stores related. From them
follows, once for all simulations, that the two runs of a form stay related and end alike
(`Simulation.lockstep_tracks`, `Simulation.tracks_evaluate`), except that the first run may end in a
failure that is excused. Then nothing is said of the second.

Both runs carry out the same form, so they have the same values and make scopes and identities of
the same numbers; only the stores differ.
-/

namespace PocketLisp

open EvalM

/-- A relation between the stores of two runs that the operations of evaluation keep, and the
failures that end the comparison. -/
structure Simulation where
  related : Store → Store → Prop
  excused : EvalFailure → Prop
  /-- The runs give the same identities. -/
  nextIdentity {s s' : Store} : related s s' → s'.nextIdentity = s.nextIdentity
  identity {s s' : Store} : related s s' →
    related { s with nextIdentity := s.nextIdentity + 1 }
      { s' with nextIdentity := s'.nextIdentity + 1 }
  /-- The runs give the same numbers to scopes. -/
  size {s s' : Store} : related s s' → s'.scopes.size = s.scopes.size
  addScope {s s' : Store} (scope : Scope) : related s s' →
    related (s.addScope scope).2 (s'.addScope scope).2
  /-- A name that the first run finds has the same place and value in the second. -/
  bound {s s' : Store} {name : String} {r owner : ScopeId} : related s s' →
    s.Owner name r owner →
      s'.Owner name r owner ∧ (s'.bindings owner).lookup name = (s.bindings owner).lookup name
  unbound {s s' : Store} {name : String} {r : ScopeId} : related s s' →
    (∀ owner, ¬ s.Owner name r owner) →
      excused (.error (.unbound name)) ∨ ∀ owner, ¬ s'.Owner name r owner
  define {s s' : Store} (r : ScopeId) (name : String) (value : Value) : related s s' →
    related (s.define r name value) (s'.define r name value)

namespace Simulation

variable (sim : Simulation) {α β : Type}

/-- The second action, started in `m'`, ends as the first one does that is started in `m`, or the
first one ends in an excused failure. -/
def Parallel (m m' : Machine) (action action' : EvalM α) : Prop :=
  match action m with
  | .ok a n => ∃ n', action' m' = .ok a n' ∧ sim.related n.store n'.store
  | .error failure n =>
    sim.excused failure ∨ ∃ n', action' m' = .error failure n' ∧ sim.related n.store n'.store

/-- From related stores the two actions run in parallel. -/
def Tracks (action action' : EvalM α) : Prop :=
  ∀ ⦃m m' : Machine⦄, sim.related m.store m'.store → sim.Parallel m m' action action'

variable {sim} {m m' : Machine} {action action' : EvalM α}

theorem Parallel.of_ok {a : α} {n : Machine} (h : sim.Parallel m m' action action')
    (run : action m = .ok a n) :
    ∃ n', action' m' = .ok a n' ∧ sim.related n.store n'.store := by
  simpa only [Parallel, run] using h

theorem Parallel.of_error {failure : EvalFailure} {n : Machine}
    (h : sim.Parallel m m' action action') (run : action m = .error failure n) :
    sim.excused failure ∨ ∃ n', action' m' = .error failure n' ∧ sim.related n.store n'.store := by
  simpa only [Parallel, run] using h

theorem parallel_of_ends {answer : Except EvalError α} {s s' : Store}
    (h : action.Ends m answer s) (h' : action'.Ends m' answer s') (related : sim.related s s') :
    sim.Parallel m m' action action' := by
  cases answer with
  | ok a =>
      obtain ⟨n, run, rfl⟩ := h
      obtain ⟨n', run', rfl⟩ := h'
      simp only [Parallel, run]
      exact ⟨n', run', related⟩
  | error e =>
      obtain ⟨n, run, rfl⟩ := h
      obtain ⟨n', run', rfl⟩ := h'
      simp only [Parallel, run]
      exact .inr ⟨n', run', related⟩

theorem parallel_of_excused {e : EvalError} {s : Store} (h : action.Ends m (.error e) s)
    (excused : sim.excused (.error e)) : sim.Parallel m m' action action' := by
  obtain ⟨n, run, rfl⟩ := h
  simp only [Parallel, run]
  exact .inl excused

theorem tracks_bind {next next' : α → EvalM β} (first : sim.Tracks action action')
    (rest : ∀ a, sim.Tracks (next a) (next' a)) :
    sim.Tracks (action >>= next) (action' >>= next') := by
  intro m m' related
  have h := first related
  cases run : action m with
  | ok a n =>
      obtain ⟨n', run', related'⟩ := h.of_ok run
      simpa only [Parallel, bind_of_ok run, bind_of_ok run'] using rest a related'
  | error failure n =>
      simp only [Parallel, bind_of_error run]
      obtain excused | ⟨n', run', related'⟩ := h.of_error run
      · exact .inl excused
      · exact .inr ⟨n', bind_of_error run' next', related'⟩

section Operations

/-- A check does not touch the store. -/
theorem tracks_ofExcept (check : Except EvalError α) :
    sim.Tracks (ofExcept check) (ofExcept check) :=
  fun m m' related => parallel_of_ends (ends_ofExcept rfl m) (ends_ofExcept rfl m') related

theorem tracks_report (event : Event) : sim.Tracks (report event) (report event) :=
  fun m m' related => parallel_of_ends (ends_report event m) (ends_report event m') related

theorem tracks_lookup (r : ScopeId) (name : String) :
    sim.Tracks (lookup r name) (lookup r name) := by
  intro m m' related
  by_cases somewhere : ∃ owner, m.store.Owner name r owner
  · obtain ⟨owner, nearest⟩ := somewhere
    obtain ⟨value, found⟩ := nearest.bound
    obtain ⟨nearest', same⟩ := sim.bound related nearest
    exact parallel_of_ends (ends_lookup nearest found) (ends_lookup nearest' (same ▸ found)) related
  · have nowhere := not_exists.mp somewhere
    obtain excused | nowhere' := sim.unbound related nowhere
    · exact parallel_of_excused (ends_lookup_unbound nowhere) excused
    · exact parallel_of_ends (ends_lookup_unbound nowhere) (ends_lookup_unbound nowhere') related

theorem tracks_define (r : ScopeId) (name : String) (value : Value) :
    sim.Tracks (EvalM.define r name value) (EvalM.define r name value) := fun m m' related =>
  parallel_of_ends (ends_define r name value m) (ends_define r name value m')
    (sim.define r name value related)

theorem tracks_assign (r : ScopeId) (name : String) (value : Value) :
    sim.Tracks (assign r name value) (assign r name value) := by
  intro m m' related
  by_cases somewhere : ∃ owner, m.store.Owner name r owner
  · obtain ⟨owner, nearest⟩ := somewhere
    obtain ⟨nearest', -⟩ := sim.bound related nearest
    exact parallel_of_ends (ends_assign value nearest) (ends_assign value nearest')
      (sim.define owner name value related)
  · have nowhere := not_exists.mp somewhere
    obtain excused | nowhere' := sim.unbound related nowhere
    · exact parallel_of_excused (ends_assign_unbound value nowhere) excused
    · exact parallel_of_ends (ends_assign_unbound value nowhere)
        (ends_assign_unbound value nowhere') related

theorem tracks_addScope (scope : Scope) :
    sim.Tracks (EvalM.addScope scope) (EvalM.addScope scope) := by
  intro m m' related
  have second := ends_addScope scope m'
  rw [sim.size related] at second
  exact parallel_of_ends (ends_addScope scope m) second (sim.addScope scope related)

theorem tracks_freshIdentity : sim.Tracks freshIdentity freshIdentity := by
  intro m m' related
  have second := ends_freshIdentity m'
  rw [sim.nextIdentity related] at second
  exact parallel_of_ends (ends_freshIdentity m) second
    (sim.nextIdentity related ▸ sim.identity related)

end Operations

theorem lockstep_tracks : Lockstep @sim.Tracks where
  bind := tracks_bind
  check := tracks_ofExcept
  report := tracks_report
  addScope := tracks_addScope
  freshIdentity := tracks_freshIdentity
  lookup := tracks_lookup
  define := tracks_define
  assign := tracks_assign

/-- Two runs of a form from related stores run in parallel, to whatever depth. -/
theorem tracks_evaluate (depth : Nat) (form : Value) (r : ScopeId) :
    sim.Tracks (evaluate depth form r) (evaluate depth form r) := by
  induction depth generalizing form r with
  -- At depth 0 both runs break off at once.
  | zero => exact fun m m' related => .inr ⟨m', rfl, related⟩
  | succ depth ih => exact lockstep_tracks.step ih form r

end Simulation

end PocketLisp
