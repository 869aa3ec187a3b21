import Fingerprint.Double.Basic
/-!
# Decimals and binary64 values

`Decimal` is a finite decimal number.  `Decimal.toDouble` rounds one to the nearest value, and
`Double.shortest` finds the decimal of fewest digits that rounds to a given magnitude, the nearest
of those.  `Decimal.ofText?` reads the plain notation: digits, an optional point and an optional
power of ten.
-/

namespace Fingerprint

/-- The number `coefficient * 10 ^ exponent`. -/
structure Decimal where
  coefficient : Nat
  exponent : Int
  deriving DecidableEq, Repr

namespace Decimal

/-- Value of a list of decimal digits, most significant first. -/
def ofDigits (digits : List Char) : Nat :=
  digits.foldl (fun n c => 10 * n + (c.toNat - '0'.toNat)) 0

def width (n : Nat) : Nat := (Nat.toDigits 10 n).length

/-- The nearest value.  Above `10 ^ 400` that is infinity and below `10 ^ (-400)` zero, which
keeps the powers of ten small. -/
def toDouble (negative : Bool) (d : Decimal) : Double :=
  let magnitude := d.exponent + width d.coefficient
  if d.coefficient = 0 ∨ magnitude < -400 then .ofRatio negative 0 1
  else if 400 < magnitude then .infinity negative
  else if d.exponent < 0 then .ofRatio negative d.coefficient (tenPow d.exponent.natAbs)
  else .ofRatio negative (d.coefficient * tenPow d.exponent.natAbs) 1

/-! ## Plain notation -/

def spanDigits (text : List Char) : List Char × List Char := text.span Char.isDigit

/-- An optional sign: whether it is a minus, and the rest. -/
def takeSign : List Char → Bool × List Char
  | '-' :: rest => (true, rest)
  | '+' :: rest => (false, rest)
  | text => (false, text)

/-- An exponent part such as `e-7`, which has to reach the end; no part is the exponent zero. -/
def exponent? : List Char → Option Int
  | [] => some 0
  | c :: rest =>
    if c = 'e' ∨ c = 'E' then
      let (negative, rest) := takeSign rest
      let (digits, rest) := spanDigits rest
      if digits.isEmpty ∨ !rest.isEmpty then none
      else some (if negative then -(ofDigits digits : Int) else ofDigits digits)
    else none

/-- An unsigned number: digits on at least one side of an optional point, then the exponent. -/
def ofText? (text : List Char) : Option Decimal :=
  let (whole, rest) := spanDigits text
  let (fraction, rest) := match rest with
    | '.' :: rest => spanDigits rest
    | rest => ([], rest)
  if whole.isEmpty ∧ fraction.isEmpty then none
  else do
    let exponent ← exponent? rest
    some ⟨ofDigits (whole ++ fraction), exponent - fraction.length⟩

end Decimal

namespace Double

/-- Reads a number with an optional sign, or one of the words for infinity and NaN in any case. -/
def ofText? (text : List Char) : Option Double :=
  let (negative, rest) := Decimal.takeSign text
  let word := rest.map Char.toLower
  if word = "inf".toList ∨ word = "infinity".toList then some (infinity negative)
  else if word = "nan".toList then some .nan
  else (Decimal.ofText? rest).map (·.toDouble negative)

/-! ## Shortest decimals

The numbers that round to a rank form an interval around it, whose ends belong to it iff the rank
is even.  All is counted in quarters of a unit, where the ends are whole. -/

/-- Lower and upper end of the numbers that round to a positive finite rank, in quarter units. -/
def interval (rank : Nat) : Nat × Nat :=
  let step := twoPow (scale rank)
  let below := if rank % twoPow 52 = 0 ∧ twoPow 53 ≤ rank then step else 2 * step
  (4 * units rank - below, 4 * units rank + 2 * step)

/-- Which of two equally near decimals of fewest digits is taken. -/
inductive TieRule where
  | toEven
  | away
  deriving DecidableEq, Repr

/-- The grid at `k` has the multiples of `10 ^ k`, which is `gridNum k / gridDen k`. -/
def gridNum (k : Int) : Nat := if k < 0 then 1 else tenPow k.natAbs

def gridDen (k : Int) : Nat := if k < 0 then tenPow k.natAbs else 1

/-- Whether the `n`-th point of the grid at `k` lies in the interval of a rank. -/
def isInside (rank : Nat) (k : Int) (n : Nat) : Bool :=
  let point := n * (gridNum k * (4 * unitsPerOne))
  let low := (interval rank).1 * gridDen k
  let high := (interval rank).2 * gridDen k
  if rank % 2 = 0 then decide (low ≤ point ∧ point ≤ high)
  else decide (low < point ∧ point < high)

/-- The multiple of `10 ^ k` that rounds to `rank` and lies nearest to it, if there is one.  Only
the two neighbours of the magnitude on that grid have to be tried. -/
def onGrid? (tie : TieRule) (rank : Nat) (k : Int) : Option Nat :=
  let grid := gridNum k * (4 * unitsPerOne)
  let value := 4 * units rank * gridDen k
  let floor := value / grid
  let rest := value % grid
  let upper :=
    2 * rest > grid || (2 * rest == grid && (tie == .away || floor % 2 == 1))
  match isInside rank k floor, isInside rank k (floor + 1) with
  | true, true => some (if upper then floor + 1 else floor)
  | true, false => some floor
  | false, true => some (floor + 1)
  | false, false => none

/-- Tries ever finer grids, from `10 ^ k` down, at most `fuel` of them. -/
def shortestFrom (tie : TieRule) (rank : Nat) (k : Int) : Nat → Decimal
  | 0 => ⟨units rank, 0⟩
  | fuel + 1 =>
    match onGrid? tie rank k with
    | some n => ⟨n, k⟩
    | none => shortestFrom tie rank (k - 1) fuel

/-- The decimal of fewest digits that rounds to a finite rank.  The search starts above the
magnitude and seventeen digits always suffice, so twenty-one grids are enough. -/
def shortest (tie : TieRule) (rank : Nat) : Decimal :=
  if rank = 0 then ⟨0, 0⟩
  else
    let magnitude := ((Nat.log2 (units rank) : Int) - 1073) * 30103 / 100000 + 1
    shortestFrom tie rank magnitude 21

end Double

namespace Decimal

/-- Positional notation: no power of ten, and a point only before a fraction. -/
def positional (d : Decimal) : String :=
  let digits := Nat.repr d.coefficient
  if 0 ≤ d.exponent then digits.pushn '0' d.exponent.natAbs
  else
    let places := d.exponent.natAbs
    let padded := ("".pushn '0' (places + 1 - digits.length) ++ digits).toList
    String.ofList (padded.take (padded.length - places)) ++ "." ++
      String.ofList (padded.drop (padded.length - places))

/-- The power of ten of the leading digit. -/
def leadingPower (d : Decimal) : Int := d.exponent + width d.coefficient - 1

/-- Scientific notation: one digit before the point, and a signed power of ten. -/
def scientific (d : Decimal) : String :=
  let power := d.leadingPower
  let sign := if power < 0 then "e-" else "e+"
  let digits := match (Nat.repr d.coefficient).toList with
    | first :: second :: rest => String.ofList (first :: '.' :: second :: rest)
    | digits => String.ofList digits
  digits ++ sign ++ Nat.repr power.natAbs

end Decimal

end Fingerprint
