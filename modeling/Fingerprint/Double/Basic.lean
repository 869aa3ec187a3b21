/-!
# Binary64 values

Magnitudes are listed in ascending order, from zero to infinity, and a value is kept as its rank
in that list.  The rank is the bit pattern without its sign, so order, equality and the encoding
are all read off it.  Every operation rounds to nearest, ties to the even rank.
-/

namespace Fingerprint

def twoPow (n : Nat) : Nat := Nat.pow 2 n

def tenPow (n : Nat) : Nat := Nat.pow 10 n

namespace Double

/-- Rank of infinity: 2046 binades above the subnormals, each of `2 ^ 52` magnitudes. -/
def infinityRank : Nat := 2047 * twoPow 52

/-- Number of the least positive magnitudes that make one. -/
def unitsPerOne : Nat := twoPow 1074

end Double

/-- A binary64 value; all NaNs are one value. -/
inductive Double where
  | ranked (negative : Bool) (rank : Nat) (bounded : rank ≤ Double.infinityRank)
  | nan
  deriving DecidableEq, Repr

namespace Double

/-- Binary exponent of a rank, counted from the least positive magnitude. -/
def scale (rank : Nat) : Nat := rank / twoPow 52 - 1

/-- Significand of a rank; full from rank `2 ^ 52` on. -/
def mantissa (rank : Nat) : Nat :=
  if rank < twoPow 52 then rank else twoPow 52 + rank % twoPow 52

/-- The magnitude of a finite rank, counted in least positive magnitudes. -/
def units (rank : Nat) : Nat := mantissa rank * twoPow (scale rank)

/-- The integer nearest to `num / den`, the even one of two. -/
def roundHalfEven (num den : Nat) : Nat :=
  let quotient := num / den
  let rest := num % den
  if 2 * rest < den then quotient
  else if den < 2 * rest then quotient + 1
  else quotient + quotient % 2

/-- Rank of the magnitude nearest to `num / den` units.  Rounding up to the next binade carries
into the rank by itself. -/
def nearestRank (num den : Nat) : Nat :=
  let exponent := Nat.log2 (num / den) - 52
  min (exponent * twoPow 52 + roundHalfEven num (den * twoPow exponent)) infinityRank

/-- The value nearest to `num / den` units, with the given sign. -/
def ofUnits (negative : Bool) (num den : Nat) : Double :=
  .ranked negative (nearestRank num den) (Nat.min_le_right ..)

/-- The value nearest to `num / den`, with the given sign. -/
def ofRatio (negative : Bool) (num den : Nat) : Double :=
  ofUnits negative (num * unitsPerOne) den

def ofNat (n : Nat) : Double := ofRatio false n 1

def ofInt (n : Int) : Double := ofRatio (decide (n < 0)) n.natAbs 1

def zero : Double := .ranked false 0 (Nat.zero_le _)

def infinity (negative : Bool) : Double := .ranked negative infinityRank (Nat.le_refl _)

def isFinite : Double → Bool
  | .ranked _ rank _ => decide (rank < infinityRank)
  | .nan => false

/-! ## Encoding -/

def ofBits (bits : UInt64) : Double :=
  let rank := bits.toNat % twoPow 63
  if bounded : rank ≤ infinityRank then .ranked (decide (twoPow 63 ≤ bits.toNat)) rank bounded
  else .nan

/-- The 64-bit pattern of a value; the NaN is the quiet one without a payload. -/
def toBits : Double → UInt64
  | .ranked negative rank _ => UInt64.ofNat ((if negative then twoPow 63 else 0) + rank)
  | .nan => 0x7ff8000000000000

/-! ## Order

The order is total: the two zeros are equal, and NaN equals itself and lies above all else. -/

/-- Place of a value on the number line of ranks. -/
def key : Double → Int
  | .ranked negative rank _ => if negative then -rank else rank
  | .nan => infinityRank + 1

instance : BEq Double := ⟨fun x y => x.key == y.key⟩

instance : Ord Double := ⟨fun x y => compare x.key y.key⟩

/-! ## Arithmetic -/

def neg : Double → Double
  | .ranked negative rank bounded => .ranked (!negative) rank bounded
  | .nan => .nan

instance : Neg Double := ⟨neg⟩

/-- Sum of two finite values, in signed units; an exact zero is negative only if both are. -/
def addFinite (xn : Bool) (x : Nat) (yn : Bool) (y : Nat) : Double :=
  let sum : Int := (if xn then -(units x : Int) else units x) +
    (if yn then -(units y : Int) else units y)
  ofUnits (if sum = 0 then xn && yn else decide (sum < 0)) sum.natAbs 1

def add : Double → Double → Double
  | .ranked xn x _, .ranked yn y _ =>
    if x = infinityRank then
      if y = infinityRank && xn != yn then .nan else infinity xn
    else if y = infinityRank then infinity yn
    else addFinite xn x yn y
  | _, _ => .nan

instance : Add Double := ⟨add⟩

def mul : Double → Double → Double
  | .ranked xn x _, .ranked yn y _ =>
    if x = infinityRank || y = infinityRank then
      if x = 0 || y = 0 then .nan else infinity (xn != yn)
    else ofUnits (xn != yn) (units x * units y) unitsPerOne
  | _, _ => .nan

instance : Mul Double := ⟨mul⟩

def div : Double → Double → Double
  | .ranked xn x _, .ranked yn y _ =>
    if x = infinityRank then
      if y = infinityRank then .nan else infinity (xn != yn)
    else if y = infinityRank then .ranked (xn != yn) 0 (Nat.zero_le _)
    else if y = 0 then
      if x = 0 then .nan else infinity (xn != yn)
    else ofRatio (xn != yn) (units x) (units y)
  | _, _ => .nan

instance : Div Double := ⟨div⟩

/-! ## Integers -/

/-- The integer a value is, if it is one of magnitude below `2 ^ 53`: up to there the integers
have no gaps. -/
def safeInteger? : Double → Option Int
  | .ranked negative rank _ =>
    let magnitude := units rank / unitsPerOne
    if rank < infinityRank ∧ units rank % unitsPerOne = 0 ∧ magnitude < twoPow 53 then
      some (if negative then -(magnitude : Int) else magnitude)
    else none
  | .nan => none

end Double

end Fingerprint
