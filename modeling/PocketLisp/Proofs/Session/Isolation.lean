import Mathlib.Logic.Function.Basic
import PocketLisp.Proofs.Session.Hosting
import PocketLisp.Sessions

/-!
# Sessions do not notice each other

Sessions have a store each (`Sessions`). They might as well share one, in which each session has a
global scope of its own, made when its name is first used (`SharedSessions`). In neither case does
a session notice the others: the results of its steps are those that it has when it is alone, with
a shared store up to the numbers of scopes and identities (`sessions_isolated`).

The invariant is that the shared store has a copy of the store of every session, and that no two
copies have a scope in common (`Lodged`). A step of one session works on its own copy and on new
scopes, so all other copies stay as they are.
-/

namespace PocketLisp

/-- Sessions over one store: the state, and the global scopes of the sessions by their names. -/
structure SharedSessions where
  machine : Machine := {}
  roots : List (String × ScopeId) := []

namespace SharedSessions

/-- The global scope of a session, which is made when its name is first used. -/
def enter (s : SharedSessions) (name : String) : ScopeId × SharedSessions :=
  match s.roots.lookup name with
  | some root => (root, s)
  | none =>
    let root := s.machine.store.scopes.size
    (root, ⟨EvalM.globalScope.stateAfter s.machine, (name, root) :: s.roots⟩)

/-- Evaluates a text in the session of a name. -/
def evalText (ev : Evaluator) (name text : String) (s : SharedSessions) :
    Results × SharedSessions :=
  let (root, s) := s.enter name
  let (results, machine) := Session.evalText (ev.within root) text s.machine
  (results, { s with machine })

end SharedSessions

section Steps

variable {σ α β : Type}

/-- What sessions answer to steps, each of which names a session and has a text for it. -/
def answers (eval : String → String → σ → Results × σ) :
    List (String × String) → σ → List (String × Results)
  | [], _ => []
  | (name, text) :: steps, s =>
    (name, (eval name text s).1) :: answers eval steps (eval name text s).2

/-- The items that belong to a session. -/
def ofSession (name : String) (items : List (String × α)) : List α :=
  (items.filter (·.1 == name)).map Prod.snd

theorem ofSession_cons_self (name : String) (item : α) (items : List (String × α)) :
    ofSession name ((name, item) :: items) = item :: ofSession name items := by
  simp [ofSession]

theorem ofSession_cons_of_ne {name other : String} (h : other ≠ name) (item : α)
    (items : List (String × α)) :
    ofSession name ((other, item) :: items) = ofSession name items := by
  simp [ofSession, h]

theorem ofSession_map (name : String) (f : α → β) (items : List (String × α)) :
    ofSession name (items.map fun item => (item.1, f item.2)) = (ofSession name items).map f := by
  induction items with
  | nil => rfl
  | cons item items ih =>
      obtain ⟨other, item⟩ := item
      by_cases here : other = name
      · subst here
        rw [List.map_cons, ofSession_cons_self, ofSession_cons_self, ih, List.map_cons]
      · rw [List.map_cons, ofSession_cons_of_ne here, ofSession_cons_of_ne here, ih]

end Steps

namespace Sessions

/-- With a store each, sessions answer exactly what they answer alone. -/
theorem ofSession_answers (ev : Evaluator) (name : String) (steps : List (String × String))
    (s : Sessions) :
    ofSession name (answers (Sessions.evalText ev) steps s) =
      (Session.steps ev (ofSession name steps) (s.get name)).map Prod.fst := by
  induction steps generalizing s with
  | nil => rfl
  | cons step steps ih =>
      obtain ⟨other, text⟩ := step
      rw [answers]
      by_cases here : other = name
      · subst here
        rw [ofSession_cons_self, ofSession_cons_self, ih, Session.steps, List.map_cons]
        simp [Sessions.evalText]
      · rw [ofSession_cons_of_ne here, ofSession_cons_of_ne here, ih]
        simp [Sessions.evalText, get_put_of_ne s _ (Ne.symm here)]

theorem get_put (s : Sessions) (name : String) (m : Machine) :
    (s.put name m).get = Function.update s.get name m := by
  funext other
  by_cases here : other = name
  · subst here
    rw [get_put_self, Function.update_self]
  · rw [get_put_of_ne s m here, Function.update_of_ne here]

end Sessions

/-- A new global scope is the next scope of the store. -/
theorem EvalM.globalScope_eq (m : Machine) :
    globalScope m = .ok m.store.scopes.size (globalScope.stateAfter m) := rfl

/-- The shared store has a copy of the store of every session whose name was used, no two of them
have a scope in common, and all other sessions are at their start. -/
structure Lodged (alone : String → Machine) (pairings : String → Pairing) (s : SharedSessions) :
    Prop where
  known {name : String} {root : ScopeId} : s.roots.lookup name = some root →
    Store.Copied (pairings name) (alone name).store s.machine.store ∧
      (pairings name).scopes Session.globalScope root
  unknown {name : String} : s.roots.lookup name = none →
    alone name = Session.start ∧ pairings name = .empty
  apart {name name' : String} {a a' b : ScopeId} : (pairings name).scopes a b →
    (pairings name').scopes a' b → name = name'

namespace Lodged

variable {alone : String → Machine} {pairings : String → Pairing} {s : SharedSessions}

theorem start : Lodged (fun _ => Session.start) (fun _ => .empty) {} where
  known found := by cases found
  unknown _ := ⟨rfl, rfl⟩
  apart paired _ := paired.elim

variable (lodged : Lodged alone pairings s)
include lodged

theorem lt {name : String} {a b : ScopeId} (paired : (pairings name).scopes a b) :
    b < s.machine.store.scopes.size := by
  cases found : s.roots.lookup name with
  | some root => exact ((lodged.known found).1.scopes_lt paired).2
  | none =>
      rw [(lodged.unknown found).2] at paired
      exact paired.elim

/-- While one session works on its copy, nothing of another one gets into it. -/
theorem disjoint {name other : String} (h : other ≠ name) {q : Pairing} {host : Store}
    (undisturbed : Store.Undisturbed (.paired (pairings name) s.machine.store) q host)
    {a a' b : ScopeId} (mine : q.scopes a b) : ¬ (pairings other).scopes a' b := by
  intro theirs
  obtain ⟨_, old⟩ | new := undisturbed.mine_or_new mine
  · exact h (lodged.apart theirs old)
  · exact Nat.not_le_of_lt (lodged.lt theirs) new

/-- A session may work on its copy: all others stay copies. -/
theorem update {name : String} {root : ScopeId} {q : Pairing} {guest host : Machine}
    {roots : List (String × ScopeId)}
    (hosts : Store.Hosts (.paired (pairings name) s.machine.store) q guest.store host.store)
    (paired : q.scopes Session.globalScope root) (here : roots.lookup name = some root)
    (elsewhere : ∀ other, other ≠ name → roots.lookup other = s.roots.lookup other) :
    Lodged (Function.update alone name guest) (Function.update pairings name q)
      ⟨host, roots⟩ where
  known {other root'} found := by
    by_cases same : other = name
    · subst same
      rw [Function.update_self, Function.update_self]
      cases here.symm.trans found
      exact ⟨hosts.copied, paired⟩
    · rw [Function.update_of_ne same, Function.update_of_ne same]
      obtain ⟨copied, pairedRoot⟩ := lodged.known ((elsewhere other same).symm.trans found)
      refine ⟨copied.of_undisturbed hosts.undisturbed fun a a' b theirs mine => ?_, pairedRoot⟩
      exact same (lodged.apart theirs mine)
  unknown {other} missing := by
    have same : other ≠ name := by
      rintro rfl
      cases here.symm.trans missing
    rw [Function.update_of_ne same, Function.update_of_ne same]
    exact lodged.unknown ((elsewhere other same).symm.trans missing)
  apart {one two a a' b} h h' := by
    by_cases first : one = name
    · by_cases second : two = name
      · rw [first, second]
      · rw [first, Function.update_self] at h
        rw [Function.update_of_ne second] at h'
        exact absurd h' (lodged.disjoint second hosts.undisturbed h)
    · rw [Function.update_of_ne first] at h
      by_cases second : two = name
      · rw [second, Function.update_self] at h'
        exact absurd h (lodged.disjoint first hosts.undisturbed h')
      · rw [Function.update_of_ne second] at h'
        exact lodged.apart h h'

/-- To use a name gives its session a place in the shared store, if it has none. -/
theorem enter (name : String) :
    ∃ pairings', Lodged alone pairings' (s.enter name).2 ∧
      (s.enter name).2.roots.lookup name = some (s.enter name).1 := by
  unfold SharedSessions.enter
  cases found : s.roots.lookup name with
  | some root => exact ⟨pairings, lodged, found⟩
  | none =>
      obtain ⟨atStart, nothing⟩ := lodged.unknown found
      -- The global scope is made in the shared store as it is made in an empty one.
      have hosts := (Store.copied_empty s.machine.store).hosts
      rw [← nothing] at hosts
      have made : Territory.EndAlike _ Pairing.scopes (pairings name) (EvalM.globalScope {})
          (EvalM.globalScope s.machine) := Territory.tracks_globalScope (le_refl _) hosts
      rw [Session.globalScope_start, EvalM.globalScope_eq] at made
      obtain ⟨-, hosts, paired⟩ := made
      have here : ((name, s.machine.store.scopes.size) :: s.roots).lookup name =
          some s.machine.store.scopes.size := List.lookup_cons_self
      have elsewhere (other : String) (h : other ≠ name) :
          ((name, s.machine.store.scopes.size) :: s.roots).lookup other = s.roots.lookup other := by
        rw [List.lookup_cons, beq_eq_false_iff_ne.mpr h]
      have lodged' := lodged.update hosts paired here elsewhere
      rw [← atStart, Function.update_eq_self] at lodged'
      exact ⟨_, lodged', here⟩

/-- A step of a session has the results that it has when the session is alone. -/
theorem step (depth : Nat) (name text : String) :
    (∃ pairings', Lodged
      (Function.update alone name (Session.evalText (evaluate depth) text (alone name)).2)
      pairings' (SharedSessions.evalText (evaluate depth) name text s).2) ∧
    (SharedSessions.evalText (evaluate depth) name text s).1.anonymous =
      (Session.evalText (evaluate depth) text (alone name)).1.anonymous := by
  obtain ⟨pairings', lodged', here⟩ := lodged.enter name
  obtain ⟨copied, paired⟩ := lodged'.known here
  obtain ⟨q, grown, hosts, alike⟩ :=
    Territory.evalText_alike (Territory.follows_evaluate depth) text paired copied.hosts
  exact ⟨⟨_, lodged'.update hosts (grown.1 _ _ paired) here fun _ _ => rfl⟩,
    alike.anonymous_eq.symm⟩

end Lodged

/-- With one store and with a store each, sessions have the same answers. -/
theorem answers_shared (depth : Nat) (steps : List (String × String)) {pairings : String → Pairing}
    {s : SharedSessions} {t : Sessions} (lodged : Lodged t.get pairings s) :
    (answers (SharedSessions.evalText (evaluate depth)) steps s).map
        (fun answer => (answer.1, answer.2.anonymous)) =
      (answers (Sessions.evalText (evaluate depth)) steps t).map
        fun answer => (answer.1, answer.2.anonymous) := by
  induction steps generalizing pairings s t with
  | nil => rfl
  | cons step steps ih =>
      obtain ⟨name, text⟩ := step
      obtain ⟨⟨pairings', lodged'⟩, same⟩ := lodged.step depth name text
      rw [← Sessions.get_put] at lodged'
      rw [answers, answers, List.map_cons, List.map_cons, same, ih lodged']
      rfl

/-- Whatever texts are evaluated in whatever sessions, in any order, the results of the steps of one
session are those that it has when its own steps are evaluated alone: exactly so if each session has
a store of its own, and but for the numbers of scopes and identities if all share one store. No
session notices what others define, assign or fail to do, nor how many scopes and closures they
make. -/
theorem sessions_isolated (depth : Nat) (steps : List (String × String)) (name : String) :
    let ev := evaluate depth
    let alone := (Session.steps ev (ofSession name steps) Session.start).map Prod.fst
    ofSession name (answers (Sessions.evalText ev) steps {}) = alone ∧
      (ofSession name (answers (SharedSessions.evalText ev) steps {})).map Results.anonymous =
        alone.map Results.anonymous := by
  intro ev alone
  have own : ofSession name (answers (Sessions.evalText ev) steps {}) = alone :=
    Sessions.ofSession_answers ev name steps {}
  refine ⟨own, ?_⟩
  rw [← own, ← ofSession_map, ← ofSession_map]
  exact congrArg (ofSession name) (answers_shared depth steps Lodged.start)

/-- A name that one session defines is unbound in another, also over one store. -/
example :
    (answers (SharedSessions.evalText (evaluate 9)) [("a", "(define x 1)"), ("b", "x"), ("a", "x")]
        {}).map (fun answer => answer.2.last) =
      [.ok (.int 1), .error (.evaluation (.error (.unbound "x"))), .ok (.int 1)] := by
  decide +kernel

end PocketLisp
