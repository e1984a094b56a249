import PocketLisp.Eval.Error

/-!
# Equality and hashes of values and errors

Values and errors can be compared with one another. An error equals an error of the same cause with
equal parts, and never a value. Both have hashes, which are put together from hashes of atoms by
mixing. Long chains are hashed along their rests in a loop, so that only nesting takes stack.

`Hashing` holds what the hashes of atoms and the mixing are. `distinctByHash` drops duplicates with
a table: an item is compared only with those in the table that have its hash.
-/

namespace PocketLisp

/-- Whether the value is no pair. -/
def Value.isAtom : Value → Bool
  | pair _ _ => false
  | _ => true

/-- The causes of errors. An error that names no more than a family has the family for its
cause. -/
inductive ErrorCause where
  | unbound
  | mismatch
  | wrongCount
  | tooFew
  | tooMany
  | endOfText
  | unmatchedClose
  | unexpected
  | unspecific (family : ErrorFamily)
  deriving Repr, DecidableEq

/-- A part of an error. Counts are integers like all others. -/
inductive ErrorPart where
  | text (text : String)
  | value (v : Value)
  | kind (kind : Kind)
  deriving Repr, DecidableEq

namespace ErrorPart

/-- The part for a count. -/
def count (n : Nat) : ErrorPart :=
  value (.int n)

/-- Whether two parts are the same. -/
def same : ErrorPart → ErrorPart → Bool
  | text s, text s' => s == s'
  | value v, value v' => v.same v'
  | kind k, kind k' => k == k'
  | _, _ => false

end ErrorPart

namespace LispError

/-- The cause of an error. -/
def cause : LispError → ErrorCause
  | evaluation (.unbound _) => .unbound
  | evaluation (.mismatch _ _) => .mismatch
  | evaluation (.wrongCount _ _) => .wrongCount
  | evaluation (.tooFew _ _) => .tooFew
  | evaluation (.tooMany _ _) => .tooMany
  | reading .endOfText => .endOfText
  | reading .unmatchedClose => .unmatchedClose
  | reading (.unexpected _ _) => .unexpected
  | unspecific family => .unspecific family

/-- The parts of an error, in order. -/
def parts : LispError → List ErrorPart
  | evaluation (.unbound name) => [.text name]
  | evaluation (.mismatch value expected) => [.value value, .kind expected]
  | evaluation (.wrongCount actual expected) => [.count actual, .count expected]
  | evaluation (.tooFew actual minimum) => [.count actual, .count minimum]
  | evaluation (.tooMany actual maximum) => [.count actual, .count maximum]
  | reading (.unexpected actual expected) => [.text actual, .text expected]
  | reading .endOfText | reading .unmatchedClose | unspecific _ => []

end LispError

/-- What can be compared: a value or an error. -/
inductive Comparand where
  | value (v : Value)
  | error (e : LispError)
  deriving Repr, DecidableEq

namespace Comparand

/-- What a value or an error answers when it is asked whether another one is the same as itself, if
it can tell. The empty list, pairs and errors can tell of everything. -/
def same? : Comparand → Comparand → Option Bool
  | value v, value w => v.same? w
  | value .nil, error _ => some false
  | value (.pair _ _), error _ => some false
  | value _, error _ => none
  | error e, error e' => some (e.same e')
  | error _, value _ => some false

/-- Whether two of them are the same. The second is asked if the first cannot tell; if neither can,
they are different. -/
def same (a b : Comparand) : Bool :=
  ((a.same? b).or (b.same? a)).getD false

end Comparand

/-- How hashes are made. Those of atoms agree for equal atoms. -/
structure Hashing (Hash : Type) where
  /-- The hash of a value that is no pair. -/
  atom : Value → Hash
  text : String → Hash
  kind : Kind → Hash
  cause : ErrorCause → Hash
  /-- The hash that a chain of pairs starts with. -/
  chain : Hash
  /-- The hash of a hash. -/
  again : Hash → Hash
  /-- Mixes the hashes of the members of a tuple. -/
  tuple : List Hash → Hash
  atom_eq_of_equal {a b : Value} : a.isAtom = true → b.isAtom = true → a.equal b = true →
    atom a = atom b

section Hashes

variable {Hash : Type} (hashing : Hashing Hash)

namespace Value

mutual

/-- The hash of a value. -/
def hash : Value → Hash
  | pair first rest =>
    rest.hashAfter (hashing.tuple [hashing.again hashing.chain, first.hash])
  | v => hashing.atom v

/-- The hash of a chain of pairs, of which `rest` is still to be hashed. -/
def hashAfter (rest : Value) (soFar : Hash) : Hash :=
  match rest with
  | pair first rest => rest.hashAfter (hashing.tuple [hashing.again soFar, first.hash])
  | last => hashing.tuple [hashing.again soFar, hashing.atom last]

end

end Value

/-- The hash of a part of an error. -/
def ErrorPart.hash : ErrorPart → Hash
  | text s => hashing.text s
  | value v => v.hash hashing
  | kind k => hashing.kind k

/-- The hash of an error. -/
def LispError.hash (e : LispError) : Hash :=
  hashing.tuple [hashing.cause e.cause, hashing.tuple (e.parts.map (ErrorPart.hash hashing))]

/-- The hash of a value or an error. -/
def Comparand.hash : Comparand → Hash
  | value v => v.hash hashing
  | error e => e.hash hashing

end Hashes

section Table

variable {α Hash : Type} [DecidableEq Hash] (same : α → α → Bool) (hash : α → Hash)

/-- Adds an item, with its hash, to a table that has no item of this hash that is the same. -/
def addDistinct (table : List (Hash × α)) (item : α) : List (Hash × α) :=
  if table.any fun entry => entry.1 = hash item && same entry.2 item then table
  else table ++ [(hash item, item)]

/-- The items that are left when each is dropped that the table holds already. -/
def distinctByHash (items : List α) : List α :=
  (items.foldl (addDistinct same hash) []).map Prod.snd

end Table

/-- Mixes words as the coefficients of a polynomial. -/
def mixWords (words : List UInt64) : UInt64 :=
  words.foldl (fun mixed word => 31 * mixed + word) 7

/-- A word for each atom. Procedures and closures are known by their identities. -/
def atomWord : Value → UInt64
  | .nil | .pair _ _ => 1
  | .int n => .ofInt n
  | .symbol name => mixWords (name.toList.map fun c => c.val.toUInt64)
  | .procedure id _ _ | .closure id _ _ _ => .ofNat id

/-- Hashes that are words. -/
def Hashing.words : Hashing UInt64 where
  atom := atomWord
  text s := atomWord (.symbol s)
  kind k := atomWord (.symbol k.name)
  cause c := .ofNat c.ctorIdx
  chain := 2
  again := id
  tuple := mixWords
  atom_eq_of_equal {a b} _ _ same := by
    cases a <;> cases b <;> simp_all [Value.equal, atomWord]

end PocketLisp
