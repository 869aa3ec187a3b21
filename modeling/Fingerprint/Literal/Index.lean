import Std.Data.TreeMap
import Fingerprint.Literal.Value
/-!
# Index of literals

The index knows for every literal the libraries that hold it.  Libraries are numbered in the order
in which they are added.
-/

namespace Fingerprint

structure LiteralIndex where
  /-- The libraries that hold a literal, the last one first. -/
  holders : Std.TreeMap Literal (List Nat) := {}
  libraryCount : Nat := 0

namespace LiteralIndex

/-- Adds a number in front of those before it, unless it is there already. -/
def post (number : Nat) (numbers : List Nat) : List Nat :=
  if numbers.head? = some number then numbers else number :: numbers

def add (index : LiteralIndex) (literals : List Literal) : LiteralIndex where
  holders := literals.foldl
    (fun holders l => holders.insert l (post index.libraryCount (holders.getD l [])))
    index.holders
  libraryCount := index.libraryCount + 1

def ofLibraries (libraries : List (List Literal)) : LiteralIndex := libraries.foldl add {}

def literalCount (index : LiteralIndex) : Nat := index.holders.size

/-- The libraries that hold a literal, ascending. -/
def librariesWith? (index : LiteralIndex) (l : Literal) : Option (List Nat) :=
  index.holders[l]?.map List.reverse

/-- The libraries that hold one of the unknown literals, ascending.  Nothing unknown rules no
library out. -/
def candidates (index : LiteralIndex) (unknown : List Literal) : List Nat :=
  if unknown.isEmpty then List.range index.libraryCount
  else Ascending.dropRepeats
    ((unknown.flatMap fun l => (index.librariesWith? l).getD []).mergeSort)

end LiteralIndex

end Fingerprint
