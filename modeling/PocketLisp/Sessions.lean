import PocketLisp.Session

/-!
# Sessions side by side

Sessions are told apart by their names. A session starts when its name is first used, and each has a
store of its own, so that nothing evaluated in one of them is seen in another.
-/

namespace PocketLisp

/-- The sessions that were started, by name. -/
structure Sessions where
  entries : List (String × Machine) := []
  deriving Repr, DecidableEq

namespace Sessions

/-- The state of a session; a session that is not known is at its start. -/
def get (s : Sessions) (name : String) : Machine :=
  (s.entries.lookup name).getD Session.start

/-- Puts a session into a new state. -/
def put (s : Sessions) (name : String) (m : Machine) : Sessions :=
  ⟨(name, m) :: s.entries.filter (·.1 != name)⟩

/-- Evaluates a text in the session of a name. -/
def evalText (ev : Evaluator) (name text : String) (s : Sessions) : Results × Sessions :=
  let (results, m) := Session.evalText ev text (s.get name)
  (results, s.put name m)

@[simp] theorem get_put_self (s : Sessions) (name : String) (m : Machine) :
    (s.put name m).get name = m := by
  simp [get, put]

/-- Removing the entries of one name leaves what another name finds. -/
theorem lookup_filter_ne (entries : List (String × Machine)) {name other : String}
    (h : other ≠ name) :
    (entries.filter (·.1 != name)).lookup other = entries.lookup other := by
  induction entries with
  | nil => rfl
  | cons entry rest ih =>
    obtain ⟨key, m⟩ := entry
    by_cases hk : key = name
    · subst hk
      simpa [List.lookup_cons, beq_eq_false_iff_ne.mpr h] using ih
    · simp [hk, List.lookup_cons, ih]

/-- A step of one session leaves every other session as it was. -/
theorem get_put_of_ne (s : Sessions) {name other : String} (m : Machine) (h : other ≠ name) :
    (s.put name m).get other = s.get other := by
  simp [get, put, List.lookup_cons, beq_eq_false_iff_ne.mpr h, lookup_filter_ne _ h]

end Sessions

end PocketLisp
