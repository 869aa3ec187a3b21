import Fingerprint.Double.Decimal
/-!
# JSON values and their texts

`Json` is what the library writes.  `Json.compact` leaves out all blanks and `Json.pretty` puts
every element on a line of its own.  Numbers that are not finite are written as null.
-/

namespace Fingerprint

inductive Json where
  | null
  | bool (value : Bool)
  | integer (value : Int)
  | number (value : Double)
  | text (value : String)
  | array (items : List Json)
  | object (fields : List (String × Json))
  deriving Inhabited

namespace Double

/-- The JSON text of a finite magnitude: the fewest digits that read back, positional and with a
point from `10 ^ (-5)` to below `10 ^ 16`, scientific elsewhere. -/
def jsonMagnitude (rank : Nat) : String :=
  let decimal := shortest .toEven rank
  if rank = 0 then "0.0"
  else if -5 ≤ decimal.leadingPower ∧ decimal.leadingPower < 16 then
    decimal.positional ++ if decimal.exponent < 0 then "" else ".0"
  else decimal.scientific

def json : Double → String
  | .ranked negative rank _ =>
    if rank = infinityRank then "null"
    else (if negative then "-" else "") ++ jsonMagnitude rank
  | .nan => "null"

end Double

namespace Json

def natural (n : Nat) : Json := integer n

def orNull (value : Option Json) : Json := value.getD null

/-- The two hexadecimal digits of a number below 256, in lower case. -/
def hexByte (n : Nat) : String :=
  String.ofList [Nat.digitChar (n / 16), Nat.digitChar (n % 16)]

/-- A character inside a string.  Only quotes, backslashes and control characters are escaped. -/
def escape (c : Char) : String :=
  if c = '"' then "\\\""
  else if c = '\\' then "\\\\"
  else if c.toNat = 8 then "\\b"
  else if c.toNat = 9 then "\\t"
  else if c.toNat = 10 then "\\n"
  else if c.toNat = 12 then "\\f"
  else if c.toNat = 13 then "\\r"
  else if c.toNat < 32 then "\\u00" ++ hexByte c.toNat
  else c.toString

def quote (text : String) : String :=
  "\"" ++ String.join (text.toList.map escape) ++ "\""

def scalar : Json → String
  | bool true => "true"
  | bool false => "false"
  | integer n => toString n
  | number x => x.json
  | text s => quote s
  | _ => "null"

mutual

def compact : Json → String
  | array items => "[" ++ compactItems items ++ "]"
  | object fields => "\x7b" ++ compactFields fields ++ "\x7d"
  | value => value.scalar

def compactItems : List Json → String
  | [] => ""
  | [item] => compact item
  | item :: rest => compact item ++ "," ++ compactItems rest

def compactFields : List (String × Json) → String
  | [] => ""
  | [(key, value)] => quote key ++ ":" ++ compact value
  | (key, value) :: rest => quote key ++ ":" ++ compact value ++ "," ++ compactFields rest

end

def newline (level : Nat) : String := "\n".pushn ' ' (2 * level)

mutual

def prettyAt (level : Nat) : Json → String
  | array [] => "[]"
  | array items =>
    "[" ++ prettyItems (level + 1) items ++ newline level ++ "]"
  | object [] => "\x7b\x7d"
  | object fields =>
    "\x7b" ++ prettyFields (level + 1) fields ++ newline level ++ "\x7d"
  | value => value.scalar

def prettyItems (level : Nat) : List Json → String
  | [] => ""
  | [item] => newline level ++ prettyAt level item
  | item :: rest =>
    newline level ++ prettyAt level item ++ "," ++ prettyItems level rest

def prettyFields (level : Nat) : List (String × Json) → String
  | [] => ""
  | [(key, value)] => newline level ++ quote key ++ ": " ++ prettyAt level value
  | (key, value) :: rest =>
    newline level ++ quote key ++ ": " ++ prettyAt level value ++ "," ++ prettyFields level rest

end

def pretty (value : Json) : String := prettyAt 0 value

end Json

end Fingerprint
