import Fingerprint.Double.Decimal
import Fingerprint.Toml.Value
/-!
# TOML scalars

Readers of strings, numbers and dates.  A reader takes what it reads off the front of a text and
returns the rest.
-/

namespace Fingerprint.Toml

abbrev Reader (α : Type) := List Char → Option (α × List Char)

/-! ## Blanks and line ends -/

def isBlank (c : Char) : Bool := c = ' ' || c = '\t'

def skipBlanks (text : List Char) : List Char := text.dropWhile isBlank

/-- Characters that stand for themselves in comments and strings. -/
def isPlain (c : Char) : Bool := c = '\t' || (32 ≤ c.toNat && c.toNat ≠ 127)

def newline? : List Char → Option (List Char)
  | '\n' :: rest => some rest
  | '\r' :: '\n' :: rest => some rest
  | _ => none

def skipComment : List Char → List Char
  | '#' :: rest => rest.dropWhile isPlain
  | text => text

/-- The text after the end of a line, blanks and comment included. -/
def lineEnd? (text : List Char) : Option (List Char) :=
  match skipComment (skipBlanks text) with
  | [] => some []
  | text => newline? text

/-! ## Strings -/

def hexDigit? (c : Char) : Option Nat :=
  if c.isDigit then some (c.toNat - '0'.toNat)
  else if 'a' ≤ c ∧ c ≤ 'f' then some (c.toNat - 'a'.toNat + 10)
  else if 'A' ≤ c ∧ c ≤ 'F' then some (c.toNat - 'A'.toNat + 10)
  else none

/-- The character with a hexadecimal code; surrogates and codes beyond the last are none. -/
def scalar? (digits : List Char) : Option Char :=
  (digits.foldlM (fun n c => (hexDigit? c).map (16 * n + ·)) 0).bind fun code =>
    if code < 0xd800 ∨ (0xe000 ≤ code ∧ code < 0x110000) then some (Char.ofNat code) else none

def escape? (c : Char) : Option Char :=
  match c with
  | 'b' => some (Char.ofNat 8)
  | 't' => some '\t'
  | 'n' => some '\n'
  | 'f' => some (Char.ofNat 12)
  | 'r' => some '\r'
  | '"' => some '"'
  | '\\' => some '\\'
  | _ => none

/-- Puts a character in front of what is read, if there is one. -/
def prepend (c : Option Char) (read : Option (List Char × List Char)) :
    Option (List Char × List Char) :=
  c.bind fun c => read.map fun (characters, rest) => (c :: characters, rest)

def basicBody : Reader (List Char)
  | [] => none
  | '"' :: rest => some ([], rest)
  | '\\' :: 'u' :: a :: b :: c :: d :: rest => prepend (scalar? [a, b, c, d]) (basicBody rest)
  | '\\' :: 'U' :: a :: b :: c :: d :: e :: f :: g :: h :: rest =>
    prepend (scalar? [a, b, c, d, e, f, g, h]) (basicBody rest)
  | '\\' :: c :: rest => prepend (escape? c) (basicBody rest)
  | c :: rest => if isPlain c then prepend (some c) (basicBody rest) else none

def literalBody : Reader (List Char)
  | [] => none
  | '\'' :: rest => some ([], rest)
  | c :: rest => if isPlain c then prepend (some c) (literalBody rest) else none

/-- A basic string of several lines after its opening quotes.  After a backslash at the end of a
line all blanks are skipped. -/
def basicLines (skipping : Bool) : Reader (List Char)
  | [] => none
  | '"' :: '"' :: '"' :: '"' :: '"' :: rest => some (['"', '"'], rest)
  | '"' :: '"' :: '"' :: '"' :: rest => some (['"'], rest)
  | '"' :: '"' :: '"' :: rest => some ([], rest)
  | '\r' :: '\n' :: rest =>
    if skipping then basicLines true rest else prepend (some '\n') (basicLines false rest)
  | '\n' :: rest =>
    if skipping then basicLines true rest else prepend (some '\n') (basicLines false rest)
  | '\\' :: 'u' :: a :: b :: c :: d :: rest =>
    prepend (scalar? [a, b, c, d]) (basicLines false rest)
  | '\\' :: 'U' :: a :: b :: c :: d :: e :: f :: g :: h :: rest =>
    prepend (scalar? [a, b, c, d, e, f, g, h]) (basicLines false rest)
  | '\\' :: c :: rest =>
    if (newline? (skipBlanks (c :: rest))).isSome then basicLines true (c :: rest)
    else prepend (escape? c) (basicLines false rest)
  | c :: rest =>
    if skipping && isBlank c then basicLines true rest
    else if isPlain c then prepend (some c) (basicLines false rest)
    else none

def literalLines : Reader (List Char)
  | [] => none
  | '\'' :: '\'' :: '\'' :: '\'' :: '\'' :: rest => some (['\'', '\''], rest)
  | '\'' :: '\'' :: '\'' :: '\'' :: rest => some (['\''], rest)
  | '\'' :: '\'' :: '\'' :: rest => some ([], rest)
  | '\r' :: '\n' :: rest => prepend (some '\n') (literalLines rest)
  | '\n' :: rest => prepend (some '\n') (literalLines rest)
  | c :: rest => if isPlain c then prepend (some c) (literalLines rest) else none

/-- Skips the line end that can follow the opening quotes of several lines. -/
def afterQuotes (text : List Char) : List Char := (newline? text).getD text

def string? (text : List Char) : Option (String × List Char) :=
  let read :=
    match text with
    | '"' :: '"' :: '"' :: rest => basicLines false (afterQuotes rest)
    | '"' :: rest => basicBody rest
    | '\'' :: '\'' :: '\'' :: rest => literalLines (afterQuotes rest)
    | '\'' :: rest => literalBody rest
    | _ => none
  read.map fun (characters, rest) => (String.ofList characters, rest)

/-! ## Numbers -/

/-- Digits with single underscores between them. -/
def digitRun (isDigit : Char → Bool) : List Char → List Char × List Char
  | '_' :: c :: rest =>
    if isDigit c then
      let (digits, rest) := digitRun isDigit (c :: rest)
      (digits, rest)
    else ([], '_' :: c :: rest)
  | c :: rest =>
    if isDigit c then
      let (digits, rest) := digitRun isDigit rest
      (c :: digits, rest)
    else ([], c :: rest)
  | [] => ([], [])

/-- At least one digit, which comes before all underscores. -/
def digits? (isDigit : Char → Bool) (text : List Char) : Option (List Char × List Char) :=
  match text with
  | c :: _ => if isDigit c then some (digitRun isDigit text) else none
  | [] => none

/-- An integer that fits 64 bits with a sign. -/
def integer? (negative : Bool) (magnitude : Nat) : Option Value :=
  if negative then
    if magnitude ≤ twoPow 63 then some (.integer (-magnitude)) else none
  else if magnitude < twoPow 63 then some (.integer magnitude) else none

def radixInteger? (radix : Nat) (text : List Char) : Option (Value × List Char) := do
  let isDigit (c : Char) : Bool := ((hexDigit? c).map (decide <| · < radix)).getD false
  let (digits, rest) ← digits? isDigit text
  let magnitude := digits.foldl (fun n c => radix * n + (hexDigit? c).getD 0) 0
  return (← integer? false magnitude, rest)

/-- The whole part of a decimal number, which has no leading zeros. -/
def whole? (text : List Char) : Option (List Char × List Char) :=
  match text with
  | '0' :: rest => some (['0'], rest)
  | text => digits? Char.isDigit text

def exponent? (text : List Char) : Option (Int × List Char) := do
  let (negative, rest) := Decimal.takeSign text
  let (digits, rest) ← digits? Char.isDigit rest
  return (if negative then -(Decimal.ofDigits digits : Int) else Decimal.ofDigits digits, rest)

/-- A float of the given digits; positive values have to be finite. -/
def float? (negative : Bool) (whole fraction : List Char) (exponent : Int) : Option Value :=
  let value : Double :=
    (⟨Decimal.ofDigits (whole ++ fraction), exponent - fraction.length⟩ : Decimal).toDouble
      negative
  if negative || value.isFinite then some (.float value) else none

def decimal? (negative : Bool) (text : List Char) : Option (Value × List Char) := do
  let (whole, rest) ← whole? text
  match rest with
  | '.' :: rest =>
    let (fraction, rest) ← digits? Char.isDigit rest
    match rest with
    | c :: after =>
      if c = 'e' ∨ c = 'E' then
        let (exponent, rest) ← exponent? after
        return (← float? negative whole fraction exponent, rest)
      else return (← float? negative whole fraction 0, rest)
    | [] => return (← float? negative whole fraction 0, [])
  | c :: after =>
    if c = 'e' ∨ c = 'E' then
      let (exponent, rest) ← exponent? after
      return (← float? negative whole [] exponent, rest)
    else return (← integer? negative (Decimal.ofDigits whole), rest)
  | [] => return (← integer? negative (Decimal.ofDigits whole), [])

/-- A number or one of the words for infinity and NaN, with an optional sign. -/
def number? (text : List Char) : Option (Value × List Char) :=
  match text with
  | '0' :: 'x' :: rest => radixInteger? 16 rest
  | '0' :: 'o' :: rest => radixInteger? 8 rest
  | '0' :: 'b' :: rest => radixInteger? 2 rest
  | text =>
    let (negative, rest) := Decimal.takeSign text
    match rest with
    | 'i' :: 'n' :: 'f' :: rest => some (.float (.infinity negative), rest)
    | 'n' :: 'a' :: 'n' :: rest => some (.float .nan, rest)
    | rest => decimal? negative rest

/-! ## Dates and times -/

def fixed? (width : Nat) (text : List Char) : Option (Nat × List Char) :=
  let digits := text.take width
  if digits.length = width ∧ digits.all Char.isDigit then
    some (Decimal.ofDigits digits, text.drop width)
  else none

def expect? (c : Char) : List Char → Option (List Char)
  | first :: rest => if first = c then some rest else none
  | [] => none

def isLeapYear (year : Nat) : Bool := year % 4 = 0 && (year % 100 ≠ 0 || year % 400 = 0)

def daysIn (year month : Nat) : Nat :=
  if month = 2 then (if isLeapYear year then 29 else 28)
  else if [4, 6, 9, 11].contains month then 30
  else 31

def afterDate? (text : List Char) : Option (List Char) := do
  let (year, rest) ← fixed? 4 text
  let (month, rest) ← fixed? 2 (← expect? '-' rest)
  let (day, rest) ← fixed? 2 (← expect? '-' rest)
  if 1 ≤ month ∧ month ≤ 12 ∧ 1 ≤ day ∧ day ≤ daysIn year month then some rest else none

def afterMinute? (text : List Char) : Option (List Char) := do
  let (hour, rest) ← fixed? 2 text
  let (minute, rest) ← fixed? 2 (← expect? ':' rest)
  if hour ≤ 23 ∧ minute ≤ 59 then some rest else none

def afterTime? (text : List Char) : Option (List Char) := do
  let (second, rest) ← fixed? 2 (← expect? ':' (← afterMinute? text))
  if 60 < second then none
  else match rest with
    | '.' :: c :: after => if c.isDigit then some (after.dropWhile Char.isDigit) else none
    | rest => some rest

def afterOffset? (text : List Char) : Option (List Char) :=
  match text with
  | c :: rest =>
    if c = 'Z' ∨ c = 'z' then some rest
    else if c = '+' ∨ c = '-' then afterMinute? rest
    else some text
  | [] => some []

def datetime? (text : List Char) : Option (Value × List Char) :=
  match afterDate? text with
  | some rest =>
    let time :=
      match rest with
      | c :: after =>
        if ['T', 't', ' '].contains c then (afterTime? after).map afterOffset? else none
      | [] => none
    match time with
    | some rest => rest.map (.datetime, ·)
    | none => some (.datetime, rest)
  | none => (afterTime? text).map (.datetime, ·)

/-- A value that is not an array or a table. -/
def scalarValue? (text : List Char) : Option (Value × List Char) :=
  match text with
  | 't' :: 'r' :: 'u' :: 'e' :: rest => some (.bool true, rest)
  | 'f' :: 'a' :: 'l' :: 's' :: 'e' :: rest => some (.bool false, rest)
  | c :: _ =>
    if c = '"' ∨ c = '\'' then (string? text).map fun (s, rest) => (.text s, rest)
    else datetime? text <|> number? text
  | [] => none

end Fingerprint.Toml
