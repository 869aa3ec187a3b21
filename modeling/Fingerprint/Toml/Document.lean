import Fingerprint.Toml.Scalar
/-!
# TOML documents

Reads a document line by line into the fields of its root table.
-/

namespace Fingerprint.Toml

/-- Arrays and inline tables that may be open at a time, and steps that a key may have. -/
def nestingLimit : Nat := 79

/-! ## Keys -/

def isBareKey (c : Char) : Bool := c.isAlphanum || c = '-' || c = '_'

def keyStep? (text : List Char) : Option (String × List Char) :=
  match text with
  | '"' :: rest => (basicBody rest).map fun (key, rest) => (String.ofList key, rest)
  | '\'' :: rest => (literalBody rest).map fun (key, rest) => (String.ofList key, rest)
  | text =>
    let (key, rest) := text.span isBareKey
    if key.isEmpty then none else some (String.ofList key, rest)

/-- The steps of a key with dots between them and blanks around them, at most `fuel` of them. -/
def keySteps? : Nat → List Char → Option (List String × List Char)
  | 0, _ => none
  | fuel + 1, text => do
    let (step, rest) ← keyStep? (skipBlanks text)
    match skipBlanks rest with
    | '.' :: rest =>
      let (steps, rest) ← keySteps? fuel rest
      return (step :: steps, rest)
    | rest => return ([step], rest)

/-- A key: the steps on the way and the last one. -/
def key? (text : List Char) : Option ((List String × String) × List Char) := do
  let (steps, rest) ← keySteps? nestingLimit text
  match steps.getLast? with
  | some last => return ((steps.dropLast, last), rest)
  | none => none

/-! ## Values -/

/-- Skips blanks, line ends and comments between the items of an array. -/
def skipSpace : Nat → List Char → List Char
  | 0, text => text
  | fuel + 1, text =>
    match skipComment (skipBlanks text) with
    | text =>
      match newline? text with
      | some rest => skipSpace fuel rest
      | none => text

/-- Skips all space in front of a text. -/
def skipAllSpace (text : List Char) : List Char := skipSpace (text.length + 1) text

/-- The items of an array after its bracket or after a comma; at most `fuel` items. -/
def items? (read : Reader Value) : Nat → Reader (List Value)
  | 0, _ => none
  | fuel + 1, text =>
    match skipAllSpace text with
    | ']' :: rest => some ([], rest)
    | text => do
      let (item, rest) ← read text
      match skipAllSpace rest with
      | ']' :: rest => return ([item], rest)
      | ',' :: rest =>
        let (items, rest) ← items? read fuel rest
        return (item :: items, rest)
      | _ => none

def assignment? (read : Reader Value) : Reader ((List String × String) × Value) :=
  fun text => do
    let (key, rest) ← key? text
    let (value, rest) ← read (skipBlanks (← expect? '=' rest))
    return ((key, value), rest)

/-- The fields of an inline table after its brace or after a comma; at most `fuel` fields. -/
def inlineFields? (read : Reader Value) (fields : Fields) : Nat → Reader Fields
  | 0, _ => none
  | fuel + 1, text => do
    let (((path, key), value), rest) ← assignment? read text
    let fields ← fields.addDotted? key value path
    match skipBlanks rest with
    | '\x7d' :: rest => return (fields, rest)
    | ',' :: rest => inlineFields? read fields fuel rest
    | _ => none

/-- A value in which at most `depth` arrays and inline tables are open at a time. -/
def value? (depth : Nat) (text : List Char) : Option (Value × List Char) :=
  match text with
  | '[' :: rest =>
    match depth with
    | 0 => none
    | depth + 1 =>
      (items? (value? depth) (rest.length + 1) rest).map fun (items, rest) =>
        (.array items, rest)
  | '\x7b' :: rest =>
    match depth with
    | 0 => none
    | depth + 1 =>
      match skipBlanks rest with
      | '\x7d' :: rest => some (.table .inline [], rest)
      | rest =>
        (inlineFields? (value? depth) [] (rest.length + 1) rest).map fun (fields, rest) =>
          (.table .inline fields, rest)
  | text => scalarValue? text

/-! ## Lines -/

/-- The root table and the path of the table that is open. -/
structure Draft where
  root : Fields := []
  path : List String := []

/-- Reads a header after its bracket and opens its table. -/
def header? (draft : Draft) (text : List Char) : Option (Draft × List Char) := do
  match text with
  | '[' :: rest =>
    let ((path, key), rest) ← key? rest
    let rest ← lineEnd? (← expect? ']' (← expect? ']' rest))
    return (⟨← draft.root.enter? (Fields.openNext? key) path, path ++ [key]⟩, rest)
  | rest =>
    let ((path, key), rest) ← key? rest
    let rest ← lineEnd? (← expect? ']' rest)
    return (⟨← draft.root.enter? (Fields.openTable? key) path, path ++ [key]⟩, rest)

/-- Reads a key and its value and adds them to the table that is open. -/
def field? (draft : Draft) (text : List Char) : Option (Draft × List Char) := do
  let (((path, key), value), rest) ← assignment? (value? nestingLimit) text
  let rest ← lineEnd? rest
  return (⟨← draft.root.enter? (Fields.addDotted? key value path) draft.path, draft.path⟩, rest)

/-- Reads the lines of a document, at most `fuel` of them. -/
def lines? (draft : Draft) : Nat → List Char → Option Fields
  | 0, _ => none
  | fuel + 1, text =>
    match skipBlanks text with
    | [] => some draft.root
    | '#' :: rest => (lineEnd? ('#' :: rest)).bind (lines? draft fuel)
    | '\n' :: rest => lines? draft fuel rest
    | '\r' :: '\n' :: rest => lines? draft fuel rest
    | '[' :: rest => (header? draft rest).bind fun (draft, rest) => lines? draft fuel rest
    | text => (field? draft text).bind fun (draft, rest) => lines? draft fuel rest

/-- Reads a document into the fields of its root table.  A byte order mark in front is skipped. -/
def ofText? (text : String) : Option Fields :=
  let characters :=
    match text.toList with
    | c :: rest => if c.toNat = 0xfeff then rest else c :: rest
    | [] => []
  lines? {} (characters.length + 1) characters

end Fingerprint.Toml
