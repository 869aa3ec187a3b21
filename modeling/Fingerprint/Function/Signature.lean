import Std.Data.TreeMap
import Std.Data.TreeSet
import Fingerprint.Function.Located
/-!
# Function signatures

Located functions form a forest; their signatures form a list, sorted by full names.  The full
name of a function starts with the one of the function around it, and a number tells repeated
names apart.
-/

namespace Fingerprint

structure FunctionSignature where
  type : String := "fn"
  name : String
  /-- Place in the list of functions sorted by name. -/
  index : Nat
  statementTypes : List String := []
  statementTokens : List String := []
  deriving DecidableEq, Repr

/-- The names given so far, and for a repeated one the next number to try. -/
structure GivenNames where
  taken : Std.TreeSet String := {}
  next : Std.TreeMap String Nat := {}

namespace GivenNames

def numbered (base : String) (number : Nat) : String := base ++ "#" ++ toString number

/-- The first number from `k` on that makes a free name, trying `fuel` of them. -/
def firstFree (taken : Std.TreeSet String) (base : String) (k : Nat) : Nat → Nat
  | 0 => k
  | fuel + 1 =>
    if taken.contains (numbered base k) then firstFree taken base (k + 1) fuel else k

/-- Gives `base` itself if it is free, and otherwise the numbered name that is next.  One number
more than there are names is always enough to find a free one. -/
def give (names : GivenNames) (base : String) : String × GivenNames :=
  if names.taken.contains base then
    let k := firstFree names.taken base (names.next.getD base 1) (names.taken.size + 1)
    let name := numbered base k
    (name, ⟨names.taken.insert name, names.next.insert base (k + 1)⟩)
  else (base, ⟨names.taken.insert base, names.next⟩)

end GivenNames

namespace Located

/-- A local name under the full name of the function around it. -/
def under (parent name : String) : String :=
  if parent.isEmpty then name else parent ++ "::" ++ name

mutual

/-- Names an entry and all below it, in source order, each with its tokens. -/
def nameEntry (parent : String) (names : GivenNames) :
    Entry Located → List (String × List String) × GivenNames
  | ⟨_, function, children⟩ =>
    let (name, names) := names.give (under parent function.name)
    let (below, names) := nameAll name names children
    ((name, function.tokens) :: below, names)

def nameAll (parent : String) (names : GivenNames) :
    List (Entry Located) → List (String × List String) × GivenNames
  | [] => ([], names)
  | e :: rest =>
    let (here, names) := nameEntry parent names e
    let (later, names) := nameAll parent names rest
    (here ++ later, names)

end

/-- The names and tokens of a forest in source order. -/
def named (forest : List (Entry Located)) : List (String × List String) :=
  (nameAll "" {} forest).1

/-- The signatures of a forest, sorted by name. -/
def flatten (forest : List (Entry Located)) : List FunctionSignature :=
  ((named forest).mergeSort fun a b => textLe a.1 b.1).mapIdx fun index (name, tokens) =>
    { name := name
      index := index
      statementTypes := statementTypes tokens
      statementTokens := tokens }

end Located

end Fingerprint
