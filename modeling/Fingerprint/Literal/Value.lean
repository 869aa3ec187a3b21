import Fingerprint.Ascending
import Fingerprint.Double.Decimal
import Fingerprint.Token.Basic
/-!
# Literal values

A literal is a text or a number.  Literals are ordered by their texts, numbers before texts of the
same spelling, and are kept as ascending lists without repetition.
-/

namespace Fingerprint

namespace Double

/-- Positional text of a value: integers without a point, other values with the fewest digits
that read back. -/
def display (x : Double) : String :=
  match x.safeInteger? with
  | some n => toString n
  | none =>
    match x with
    | .nan => "NaN"
    | .ranked negative rank _ =>
      (if negative then "-" else "") ++
        if rank = infinityRank then "inf" else (shortest .away rank).positional

end Double

inductive Literal where
  | number (value : Double)
  | text (value : String)
  deriving DecidableEq, Repr

namespace Literal

/-- The text that a literal is ordered by and shown as. -/
def display : Literal → String
  | number value => value.display
  | text value => value

/-- Equality of literals; numbers are equal as values. -/
instance : BEq Literal where
  beq
    | number a, number b => a == b
    | text a, text b => a == b
    | _, _ => false

def tieBreak : Literal → Literal → Ordering
  | number a, number b => compare a b
  | number _, text _ => .lt
  | text _, number _ => .gt
  | text _, text _ => .eq

instance : Ord Literal where
  compare a b := (compare a.display b.display).then (tieBreak a b)

def le (a b : Literal) : Bool := (compare a b).isLE

def lt (a b : Literal) : Bool := (compare a b).isLT

/-- The ascending list of the distinct literals of a list. -/
def ascending (literals : List Literal) : List Literal :=
  Ascending.dropRepeats (literals.mergeSort le)

/-- The numbers that are too frequent to tell sources apart. -/
def commonNumbers : List Double := [-1, 0, 1, 2, 3, 4, 5].map Double.ofInt

def isCommon (value : Double) : Bool := commonNumbers.contains value

end Literal

end Fingerprint
