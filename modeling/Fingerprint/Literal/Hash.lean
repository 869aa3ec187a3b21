import Std.Data.HashMap
import Std.Data.HashSet
import Fingerprint.Literal.Index
/-!
# Hashes of literals

A literal is hashed variant first and payload second.  Which word stands for a number and what a
hasher makes of what it is fed are left open; sets and maps of literals can be kept under any such
hashing.
-/

namespace Fingerprint

/-- One thing that a hasher is fed. -/
inductive HashInput where
  | variant (number : Nat)
  | word (bits : UInt64)
  | text (value : String)
  deriving DecidableEq, Repr

/-- A way to hash literals: the word that stands for a number, one for all NaNs, and what a hasher
makes of all that it is fed. -/
structure Hashing where
  word : Double → UInt64
  digest : List HashInput → UInt64

namespace Hashing

variable (hashing : Hashing)

/-- What a literal feeds a hasher. -/
def inputs : Literal → List HashInput
  | .number value => [.variant 0, .word (hashing.word value)]
  | .text value => [.variant 1, .text value]

def hash (l : Literal) : UInt64 := hashing.digest (hashing.inputs l)

@[reducible]
def hashable : Hashable Literal := ⟨hashing.hash⟩

abbrev Set : Type := @Std.HashSet Literal _ hashing.hashable

abbrev Map (β : Type) : Type := @Std.HashMap Literal β _ hashing.hashable

/-- The distinct literals of a list as a hash set. -/
def set (literals : List Literal) : hashing.Set :=
  letI := hashing.hashable
  Std.HashSet.ofList literals

/-- The sizes of the intersection and of the union of two lists, each taken as a hash set. -/
def overlap (a b : List Literal) : Nat × Nat :=
  let common := ((hashing.set a).toList.filter (hashing.set b).contains).length
  (common, (hashing.set a).size + (hashing.set b).size - common)

/-- Notes a library down for each of its literals. -/
def post (holders : hashing.Map (List Nat)) (library : List Literal × Nat) :
    hashing.Map (List Nat) :=
  letI := hashing.hashable
  library.1.foldl
    (fun holders l => holders.insert l (LiteralIndex.post library.2 (holders.getD l []))) holders

/-- The libraries that hold a literal, the last one first, as a hash map. -/
def holders (libraries : List (List Literal)) : hashing.Map (List Nat) :=
  letI := hashing.hashable
  libraries.zipIdx.foldl hashing.post Std.HashMap.emptyWithCapacity

end Hashing

end Fingerprint
