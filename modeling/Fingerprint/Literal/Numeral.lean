import Fingerprint.Double.Decimal
/-!
# Numerals

Reads the text of a number literal: decimal, with a radix mark, or octal with a leading zero.
Underscores separate digits and count for nothing; big integers are not read.
-/

namespace Fingerprint.Numeral

def digit? (radix : Nat) (c : Char) : Option Nat :=
  let value :=
    if '0' ≤ c ∧ c ≤ '9' then some (c.toNat - '0'.toNat)
    else if 'a' ≤ c ∧ c ≤ 'z' then some (c.toNat - 'a'.toNat + 10)
    else none
  value.filter (· < radix)

/-- Digits of a radix, summed up from the left.  Every step rounds. -/
def ofRadix? (radix : Nat) (digits : List Char) : Option Double :=
  if digits.isEmpty then none
  else digits.foldlM
    (fun value c => (digit? radix c).map fun d => value * .ofNat radix + .ofNat d) .zero

/-- The digits after a radix mark such as `0x`. -/
def afterMark? (mark : Char) : List Char → Option (List Char)
  | '0' :: c :: digits => if c = mark then some digits else none
  | _ => none

def legacyOctal? : List Char → Option Double
  | '0' :: c :: digits =>
    if (c :: digits).all fun d => (digit? 8 d).isSome then ofRadix? 8 (c :: digits) else none
  | _ => none

/-- The value of a numeral in lower case without separators, which can be infinite. -/
def read? (text : List Char) : Option Double :=
  let marked (mark : Char) (radix : Nat) := (afterMark? mark text).bind (ofRadix? radix)
  marked 'x' 16 <|> marked 'o' 8 <|> marked 'b' 2 <|> legacyOctal? text <|> Double.ofText? text

/-- The finite value of the text of a number literal. -/
def value? (text : String) : Option Double :=
  let digits := text.toList.filter (· != '_')
  if digits.getLast? = some 'n' then none
  else (read? (digits.map Char.toLower)).filter Double.isFinite

end Fingerprint.Numeral
