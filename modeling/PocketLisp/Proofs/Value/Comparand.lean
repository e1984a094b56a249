import Mathlib.Data.List.Induction
import PocketLisp.Comparand
import PocketLisp.Proofs.Value.Equal

/-!
# Equality and hashes agree

Equality of values and errors is an equivalence (`Comparand.same_equivalence`), and things that are
equal have equal hashes, whatever the hashes of atoms and the mixing are (`Comparand.hash_eq`). The
comparison walks two trees and stops early, the hash goes through a single one; what they have in
common is equality as it is defined by the structure of values, `Value.Equals`.

A table of hashes then finds what is in it. `firstOccurrences` says which items are left when
duplicates are dropped, with no table and no hashes: those that equal none before them.
-/

namespace PocketLisp

namespace Value

variable {Hash : Type} {hashing : Hashing Hash} {a b : Value}

theorem same_iff_equals : a.same b = true ↔ a.Equals b := by
  rw [same_eq_equal, equal_iff_equals]

theorem hash_of_isAtom (atom : a.isAtom = true) : a.hash hashing = hashing.atom a := by
  cases a with
  | pair first rest => cases atom
  | _ => rfl

theorem hashAfter_of_isAtom (atom : a.isAtom = true) (soFar : Hash) :
    a.hashAfter hashing soFar = hashing.tuple [hashing.again soFar, hashing.atom a] := by
  cases a with
  | pair first rest => cases atom
  | _ => rfl

/-- A value equals an atom only if it is one. -/
theorem Equals.isAtom_eq (h : a.Equals b) : a.isAtom = b.isAtom := by
  cases h <;> rfl

/-- Equal values have equal hashes, and so have chains that go on with them. -/
theorem Equals.hash_eq (h : a.Equals b) :
    a.hash hashing = b.hash hashing ∧
      ∀ soFar, a.hashAfter hashing soFar = b.hashAfter hashing soFar := by
  have atoms {a b : Value} (h : a.Equals b) (atom : a.isAtom = true) :
      a.hash hashing = b.hash hashing ∧
        ∀ soFar, a.hashAfter hashing soFar = b.hashAfter hashing soFar := by
    have atom' : b.isAtom = true := h.isAtom_eq ▸ atom
    have same := hashing.atom_eq_of_equal atom atom' h.equal
    simp only [hash_of_isAtom atom, hash_of_isAtom atom', hashAfter_of_isAtom atom,
      hashAfter_of_isAtom atom', same, implies_true, and_self]
  induction h with
  | pair _ _ ihFirst ihRest =>
      constructor
      · rw [hash, hash, ihFirst.1, ihRest.2]
      · intro soFar
        rw [hashAfter, hashAfter, ihFirst.1, ihRest.2]
  | nil => exact atoms .nil rfl
  | int n => exact atoms (.int n) rfl
  | symbol name => exact atoms (.symbol name) rfl
  | procedure id => exact atoms (.procedure id) rfl
  | closure id => exact atoms (.closure id) rfl

end Value

/-- If single items are compared by an equivalence, then so are lists, item by item. -/
theorem equivalence_forall₂ {α : Type} {r : α → α → Prop} (h : Equivalence r) :
    Equivalence (List.Forall₂ r) where
  refl _ := List.forall₂_same.mpr fun x _ => h.refl x
  symm pairwise := (pairwise.imp fun _ _ => h.symm).flip
  trans {xs ys zs} pairwise pairwise' := by
    induction pairwise generalizing zs with
    | nil => exact pairwise'
    | cons first _ ih =>
        cases pairwise' with
        | cons first' rest' => exact .cons (h.trans first first') (ih rest')

/-- Parts of errors are equal: texts and kinds that are the same, and values that are equal. -/
inductive ErrorPart.Equals : ErrorPart → ErrorPart → Prop where
  | text (s : String) : Equals (.text s) (.text s)
  | kind (k : Kind) : Equals (.kind k) (.kind k)
  | value {v w} (equal : v.Equals w) : Equals (.value v) (.value w)

namespace ErrorPart

variable {p q t : ErrorPart}

theorem same_iff_equals : p.same q = true ↔ p.Equals q := by
  constructor
  · intro h
    cases p with
    | text s =>
        cases q with
        | text s' => exact eq_of_beq h ▸ .text s
        | _ => cases h
    | kind k =>
        cases q with
        | kind k' => exact eq_of_beq h ▸ .kind k
        | _ => cases h
    | value v =>
        cases q with
        | value w => exact .value (Value.same_iff_equals.mp h)
        | _ => cases h
  · intro h
    cases h with
    | text s => exact beq_self_eq_true s
    | kind k => exact beq_self_eq_true k
    | value equal => exact Value.same_iff_equals.mpr equal

theorem equals_equivalence : Equivalence Equals where
  refl p := by
    cases p with
    | text s => exact .text s
    | kind k => exact .kind k
    | value v => exact .value (Value.equals_of_equal v.equal_refl)
  symm h := by
    cases h with
    | text s => exact .text s
    | kind k => exact .kind k
    | value equal => exact .value equal.symm
  trans h h' := by
    cases h with
    | text | kind => exact h'
    | value equal =>
        cases h' with
        | value equal' => exact .value (equal.trans equal')

theorem map_hash_eq {Hash : Type} (hashing : Hashing Hash) {ps qs : List ErrorPart}
    (h : List.Forall₂ (fun p q => p.same q = true) ps qs) :
    ps.map (hash hashing) = qs.map (hash hashing) := by
  induction h with
  | nil => rfl
  | cons first _ ih =>
      rw [List.map_cons, List.map_cons, ih]
      cases same_iff_equals.mp first with
      | text | kind => rfl
      | value equal => rw [hash, hash, equal.hash_eq.1]

end ErrorPart

namespace LispError

/-- Errors are equal if they have one cause and equal parts. -/
theorem same_iff {e e' : LispError} :
    e.same e' = true ↔
      e.cause = e'.cause ∧ List.Forall₂ (fun p q => p.same q = true) e.parts e'.parts := by
  -- Errors of different causes are told apart by the causes, the others by their parts.
  cases e with
  | reading e =>
      cases e' with
      | reading e' => cases e <;> cases e' <;> simp [same, cause, parts, ErrorPart.same]
      | evaluation e' => cases e <;> cases e' <;> simp [same, cause]
      | unspecific family => cases e <;> simp [same, cause]
  | evaluation e =>
      cases e' with
      | reading e' => cases e <;> cases e' <;> simp [same, cause]
      | evaluation e' =>
          cases e <;> cases e' <;>
            simp [same, EvalError.same, cause, parts, ErrorPart.same, ErrorPart.count,
              Value.same_eq_equal, Value.equal, Int.ofNat_inj]
      | unspecific family => cases e <;> simp [same, cause]
  | unspecific family =>
      cases e' with
      | reading e' => cases e' <;> simp [same, cause]
      | evaluation e' => cases e' <;> simp [same, cause]
      | unspecific family' => simp [same, cause, parts]

theorem same_equivalence : Equivalence fun e e' : LispError => e.same e' = true := by
  have parts := equivalence_forall₂ ErrorPart.equals_equivalence
  simp only [same_iff, ErrorPart.same_iff_equals]
  exact {
    refl := fun e => ⟨rfl, parts.refl e.parts⟩
    symm := fun h => ⟨h.1.symm, parts.symm h.2⟩
    trans := fun h h' => ⟨h.1.trans h'.1, parts.trans h.2 h'.2⟩ }

end LispError

/-- A value equals values only, and an error equals errors only. -/
inductive Comparand.Equals : Comparand → Comparand → Prop where
  | value {v w} (equal : v.Equals w) : Equals (.value v) (.value w)
  | error {e e'} (same : e.same e' = true) : Equals (.error e) (.error e')

namespace Comparand

variable {a b c : Comparand}

/-- A value that cannot tell leaves the answer to the error, and it is no. -/
theorem same_value_error (v : Value) (e : LispError) : (value v).same (error e) = false := by
  cases v <;> rfl

theorem same_iff_equals : a.same b = true ↔ a.Equals b := by
  constructor
  · intro h
    cases a with
    | value v =>
        cases b with
        | value w => exact .value (Value.same_iff_equals.mp h)
        | error e => exact absurd h (Bool.eq_false_iff.mp (same_value_error v e))
    | error e =>
        cases b with
        | value v => cases h
        | error e' => exact .error h
  · intro h
    cases h with
    | value equal => exact Value.same_iff_equals.mpr equal
    | error same => exact same

theorem equals_equivalence : Equivalence Equals where
  refl a := by
    cases a with
    | value v => exact .value (Value.equals_of_equal v.equal_refl)
    | error e => exact .error e.same_refl
  symm h := by
    cases h with
    | value equal => exact .value equal.symm
    | error same => exact .error (LispError.same_equivalence.symm same)
  trans h h' := by
    cases h with
    | value equal =>
        cases h' with
        | value equal' => exact .value (equal.trans equal')
    | error same =>
        cases h' with
        | error same' => exact .error (LispError.same_equivalence.trans same same')

/-- Things that are equal have one hash, whatever hashes are made of. -/
theorem Equals.hash_eq {Hash : Type} (hashing : Hashing Hash) (h : a.Equals b) :
    a.hash hashing = b.hash hashing := by
  cases h with
  | value equal => exact equal.hash_eq.1
  | error same =>
      obtain ⟨cause, parts⟩ := LispError.same_iff.mp same
      have hashes := ErrorPart.map_hash_eq hashing parts
      simp only [hash, LispError.hash, cause, hashes]

end Comparand

section Duplicates

variable {α Hash : Type} [DecidableEq Hash] (same : α → α → Bool) (hash : α → Hash)

/-- The items that are not the same as one before them, in order. -/
def firstOccurrences (items : List α) : List α :=
  (items.zipIdx.filter fun entry => !(items.take entry.2).any (same · entry.1)).map Prod.fst

theorem firstOccurrences_concat (items : List α) (item : α) :
    firstOccurrences same (items ++ [item]) =
      firstOccurrences same items ++ if items.any (same · item) then [] else [item] := by
  have earlier : ∀ entry ∈ items.zipIdx,
      (!((items ++ [item]).take entry.2).any (same · entry.1)) =
        !(items.take entry.2).any (same · entry.1) := by
    intro entry mem
    have before := List.snd_lt_of_mem_zipIdx mem
    rw [List.take_append_of_le_length (by omega)]
  rw [firstOccurrences, List.zipIdx_append, List.filter_append, List.map_append,
    List.filter_congr earlier, firstOccurrences]
  cases seen : items.any (same · item) <;> simp [seen]

variable {same hash}

/-- The table holds the first of each class of the items, under their hashes. -/
structure Tabled (same : α → α → Bool) (hash : α → Hash) (table : List (Hash × α))
    (items : List α) : Prop where
  hashed : ∀ entry ∈ table, entry.1 = hash entry.2
  taken : ∀ entry ∈ table, entry.2 ∈ items
  held : ∀ item ∈ items, ∃ entry ∈ table, same entry.2 item = true

variable {table : List (Hash × α)} {items : List α}

section Step

variable (equivalence : Equivalence fun a b => same a b = true)
  (coherent : ∀ a b, same a b = true → hash a = hash b)
include equivalence coherent

/-- An item is found in the table exactly if it is the same as one of the items so far. -/
theorem Tabled.any_eq (h : Tabled same hash table items) (item : α) :
    (table.any fun entry => entry.1 = hash item && same entry.2 item) =
      items.any (same · item) := by
  rw [Bool.eq_iff_iff, List.any_eq_true, List.any_eq_true]
  constructor
  · rintro ⟨entry, mem, found⟩
    exact ⟨entry.2, h.taken entry mem, (Bool.and_eq_true_iff.mp found).2⟩
  · rintro ⟨other, mem, equal⟩
    obtain ⟨entry, inTable, equal'⟩ := h.held other mem
    have found := equivalence.trans equal' equal
    refine ⟨entry, inTable, Bool.and_eq_true_iff.mpr ⟨?_, found⟩⟩
    rw [h.hashed entry inTable, coherent _ _ found]
    exact decide_eq_true rfl

/-- One more item is kept unless it is the same as one of those so far. -/
theorem Tabled.add (h : Tabled same hash table items) (item : α) :
    Tabled same hash (addDistinct same hash table item) (items ++ [item]) ∧
      (addDistinct same hash table item).map Prod.snd =
        table.map Prod.snd ++ if items.any (same · item) then [] else [item] := by
  rw [addDistinct, h.any_eq equivalence coherent]
  have taken : ∀ entry ∈ table, entry.2 ∈ items ++ [item] := fun entry mem =>
    List.mem_append_left _ (h.taken entry mem)
  split
  · next seen =>
    refine ⟨⟨h.hashed, taken, ?_⟩, (List.append_nil _).symm⟩
    intro other mem
    obtain mem | mem := List.mem_append.mp mem
    · exact h.held other mem
    · obtain ⟨first, mem', equal⟩ := List.any_eq_true.mp seen
      obtain ⟨entry, inTable, equal'⟩ := h.held first mem'
      rw [List.mem_singleton.mp mem]
      exact ⟨entry, inTable, equivalence.trans equal' equal⟩
  · refine ⟨⟨?_, ?_, ?_⟩, List.map_append⟩
    · exact List.forall_mem_append.mpr ⟨h.hashed, List.forall_mem_singleton.mpr rfl⟩
    · exact List.forall_mem_append.mpr ⟨taken, List.forall_mem_singleton.mpr (by simp)⟩
    · intro other mem
      obtain mem | mem := List.mem_append.mp mem
      · obtain ⟨entry, inTable, equal⟩ := h.held other mem
        exact ⟨entry, List.mem_append_left _ inTable, equal⟩
      · rw [List.mem_singleton.mp mem]
        exact ⟨_, List.mem_concat_self, equivalence.refl item⟩

/-- What is left when duplicates are dropped by their hashes are the first occurrences. -/
theorem distinctByHash_eq (items : List α) :
    distinctByHash same hash items = firstOccurrences same items := by
  suffices run : Tabled same hash (items.foldl (addDistinct same hash) []) items ∧
      (items.foldl (addDistinct same hash) []).map Prod.snd = firstOccurrences same items from
    run.2
  induction items using List.reverseRecOn with
  | nil =>
      have empty : Tabled same hash ([] : List (Hash × α)) [] := ⟨by simp, by simp, by simp⟩
      exact ⟨empty, rfl⟩
  | append_singleton items item ih =>
      obtain ⟨tabled, kept⟩ := ih
      rw [List.foldl_append, List.foldl_cons, List.foldl_nil, firstOccurrences_concat, ← kept]
      exact tabled.add equivalence coherent item

end Step

/-- To drop duplicates by comparing each item with all that are kept is to give them all one
hash. -/
theorem distinctBy_eq_byHash (items : List α) :
    distinctBy same items = distinctByHash same (fun _ => ()) items := by
  have folded (items : List α) (table : List (Unit × α)) :
      items.foldl (fun kept item => if kept.any (same · item) then kept else item :: kept)
          (table.map Prod.snd).reverse =
        ((items.foldl (addDistinct same fun _ => ()) table).map Prod.snd).reverse := by
    induction items generalizing table with
    | nil => rfl
    | cons item items ih =>
        rw [List.foldl_cons, List.foldl_cons, ← ih, addDistinct]
        have found : (table.map Prod.snd).reverse.any (same · item) =
            table.any fun entry => entry.1 = () && same entry.2 item := by
          simp [Function.comp_def]
        rw [found]
        split <;> simp
  rw [distinctBy, distinctByHash, ← List.reverse_reverse (List.map _ _)]
  exact congrArg List.reverse (folded items [])

end Duplicates

/-- Equality and hashes of values and errors are coherent. Equality is an equivalence that tells
errors from values and agrees with structural equality on values; errors are equal if they have one
cause and equal parts; what is equal has one hash, whatever the hashes of atoms and the mixing are;
and so to drop duplicates by their hashes leaves the first occurrences, as it does with no hashes
at all. -/
theorem equality_hash_coherent :
    (Equivalence fun a b : Comparand => a.same b = true) ∧
    (∀ v w, (Comparand.value v).same (.value w) = v.equal w) ∧
    (∀ e v, (Comparand.error e).same (.value v) = false ∧
      (Comparand.value v).same (.error e) = false) ∧
    (∀ e e', (Comparand.error e).same (.error e') = true ↔
      e.cause = e'.cause ∧ List.Forall₂ (fun p q => p.same q = true) e.parts e'.parts) ∧
    (∀ (Hash : Type) (hashing : Hashing Hash) (a b : Comparand), a.same b = true →
      a.hash hashing = b.hash hashing) ∧
    ∀ (Hash : Type) [DecidableEq Hash] (hashing : Hashing Hash) (items : List Comparand),
      distinctByHash Comparand.same (Comparand.hash hashing) items =
          firstOccurrences Comparand.same items ∧
        distinctBy Comparand.same items = firstOccurrences Comparand.same items := by
  have equivalence : Equivalence fun a b : Comparand => a.same b = true := by
    simp only [Comparand.same_iff_equals]
    exact Comparand.equals_equivalence
  have coherent (Hash : Type) (hashing : Hashing Hash) (a b : Comparand) (h : a.same b = true) :
      a.hash hashing = b.hash hashing :=
    (Comparand.same_iff_equals.mp h).hash_eq hashing
  refine ⟨equivalence, fun v w => Value.same_eq_equal v w,
    fun e v => ⟨rfl, Comparand.same_value_error v e⟩, fun _ _ => LispError.same_iff, coherent,
    fun Hash _ hashing items => ⟨distinctByHash_eq equivalence (coherent Hash hashing) items, ?_⟩⟩
  rw [distinctBy_eq_byHash]
  exact distinctByHash_eq equivalence (fun _ _ _ => rfl) items

/-- A list that ends in a closure with the given body. -/
def endingInClosure (body : Value) : Value :=
  .ofList [.int 1, .symbol "a"] (.closure 4 .nil body 0)

/-- Closures of one identity are equal whatever they do. So lists that end in them have one hash,
and of such lists, and of errors about them, the first is kept. -/
theorem equality_hash_coherent_closures :
    (Comparand.value (endingInClosure .nil)).same (.value (endingInClosure (.int 5))) = true ∧
      (Comparand.value (endingInClosure .nil)).hash .words =
        (Comparand.value (endingInClosure (.int 5))).hash .words ∧
      distinctByHash Comparand.same (Comparand.hash .words)
          [.value (endingInClosure .nil),
            .error (.evaluation (.mismatch (endingInClosure .nil) .list)), .value .nil,
            .error (.evaluation (.mismatch (endingInClosure (.int 5)) .list)),
            .value (endingInClosure (.int 5))] =
        [.value (endingInClosure .nil),
          .error (.evaluation (.mismatch (endingInClosure .nil) .list)), .value .nil] := by
  obtain ⟨-, -, -, -, coherent, distinct⟩ := equality_hash_coherent
  have same : (Comparand.value (endingInClosure .nil)).same
      (.value (endingInClosure (.int 5))) = true := by decide
  refine ⟨same, coherent UInt64 .words _ _ same, ?_⟩
  rw [(distinct UInt64 .words _).1]
  decide

end PocketLisp
