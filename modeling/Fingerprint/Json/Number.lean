import Fingerprint.Double.Decimal
/-!
# JSON numbers

`JsonNumber` is the text of a number taken apart.  An integer that fits 64 bits is read exactly.
Any other number is read as the product or quotient of its leading digits, as many as fit 64
bits, and a power of ten: two roundings at least, so the result can miss the nearest value by
the last bit.
-/

namespace Fingerprint

/-- The parts of a number's text: digits, digits after the point, and the power of ten. -/
structure JsonNumber where
  negative : Bool
  whole : List Char
  fraction : List Char
  /-- The sign and the digits of an exponent. -/
  exponent : Option (Bool × List Char)
  /-- Whether the text has neither point nor exponent. -/
  isInteger : Bool
  deriving DecidableEq, Repr

namespace JsonNumber

inductive Value where
  | unsigned (n : Nat)
  /-- A negative integer by its magnitude, which is positive. -/
  | negative (n : Nat)
  | double (x : Double)
  deriving DecidableEq, Repr

/-! ## Grammar -/

def isPart (c : Char) : Bool := c.isDigit || ['-', '+', '.', 'e', 'E'].contains c

/-- An exponent up to the end of the text. -/
def exponentOf? : List Char → Option (Option (Bool × List Char))
  | [] => some none
  | c :: rest =>
    if c = 'e' ∨ c = 'E' then
      let (negative, digits) := Decimal.takeSign rest
      if digits.isEmpty ∨ !digits.all Char.isDigit then none else some (some (negative, digits))
    else none

/-- Takes the text of a number without its sign apart: no leading zeros, and digits on both sides of
a point. -/
def ofMagnitude? (negative : Bool) (text : List Char) : Option JsonNumber :=
  let (whole, rest) := Decimal.spanDigits text
  if whole.isEmpty ∨ (1 < whole.length ∧ whole.head? = some '0') then none
  else match rest with
    | [] => some ⟨negative, whole, [], none, true⟩
    | '.' :: rest =>
      let (fraction, rest) := Decimal.spanDigits rest
      if fraction.isEmpty then none
      else (exponentOf? rest).map fun exponent => ⟨negative, whole, fraction, exponent, false⟩
    | rest => (exponentOf? rest).map fun exponent => ⟨negative, whole, [], exponent, false⟩

/-- Takes the text of a number apart, with an optional minus sign in front. -/
def ofText? : List Char → Option JsonNumber
  | '-' :: text => ofMagnitude? true text
  | text => ofMagnitude? false text

/-! ## Values -/

/-- Digits that fit 64 bits, summed up from `n` on, and how many are left over. -/
def leading (n : Nat) : List Char → Nat × Nat
  | [] => (n, 0)
  | c :: rest =>
    let next := 10 * n + (c.toNat - '0'.toNat)
    if next < twoPow 64 then leading next rest else (n, rest.length + 1)

def power (k : Nat) : Double := .ofNat (tenPow k)

/-- `digits * 10 ^ exponent`, rounded at every step.  Powers of ten go up to the largest that is
finite; smaller quotients are taken in two steps, after which nothing is left. -/
def scaled? (digits : Nat) (exponent : Int) : Option Double :=
  let value := Double.ofNat digits
  let k := exponent.natAbs
  if 0 ≤ exponent then
    if k ≤ 308 then some (value * power k) |>.filter Double.isFinite
    else if digits = 0 then some .zero
    else none
  else if k ≤ 308 then some (value / power k)
  else if k ≤ 616 then some (value / power 308 / power (k - 308))
  else some .zero

/-- Largest power of ten that an exponent can ask for by its digits. -/
def maxExponent : Nat := twoPow 31 - 1

/-- Reads a number that is not an integer of 64 bits. -/
def double? (n : JsonNumber) : Option Double :=
  let (digits, surplus) := leading 0 n.whole
  let (digits, unread) := leading digits n.fraction
  let exponent : Int := surplus - (n.fraction.length - unread : Nat)
  let magnitude :=
    match n.exponent with
    | none => scaled? digits exponent
    | some (negative, text) =>
      let asked := Decimal.ofDigits text
      if maxExponent < asked then
        if negative ∨ digits = 0 then some .zero else none
      else scaled? digits (if negative then exponent - asked else exponent + asked)
  magnitude.map fun x => if n.negative then -x else x

/-- Reads a number; numbers beyond the finite values have none. -/
def value? (n : JsonNumber) : Option Value :=
  let magnitude := Decimal.ofDigits n.whole
  if n.isInteger then
    if n.negative then
      if 0 < magnitude ∧ magnitude ≤ twoPow 63 then some (.negative magnitude)
      else n.double?.map .double
    else if magnitude < twoPow 64 then some (.unsigned magnitude)
    else n.double?.map .double
  else n.double?.map .double

def Value.toDouble : Value → Double
  | unsigned n => .ofNat n
  | negative n => .ofInt (-n)
  | double x => x

end JsonNumber

end Fingerprint
