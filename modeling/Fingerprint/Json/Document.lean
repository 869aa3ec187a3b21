import Fingerprint.Json.Number
/-!
# JSON documents

`Document` is a JSON text taken apart but not yet interpreted: the fields of objects stand in
order with their repetitions, and escaped surrogates and numbers out of range are still there.
The reader is a machine that takes one character after another and keeps the open arrays and
objects on a stack, so texts may nest to any depth.
-/

namespace Fingerprint

/-- One unit of a string: a character, or a surrogate given by an escape. -/
inductive StringUnit where
  | char (c : Char)
  | surrogate (code : Nat)
  deriving DecidableEq, Repr

inductive Document where
  | null
  | bool (value : Bool)
  | number (value : JsonNumber)
  | text (units : List StringUnit)
  | array (items : List Document)
  | object (fields : List (List StringUnit × Document))

namespace Document

/-! ## Reader -/

/-- An array or object that is still open, with what it holds so far, the last first. -/
inductive Frame where
  | array (items : List Document)
  | object (fields : List (List StringUnit × Document))
  /-- An object in front of the value of a key. -/
  | member (fields : List (List StringUnit × Document)) (key : List StringUnit)

/-- What the reader is in the middle of. -/
inductive Mode where
  | value
  /-- The first value of an array or the end of it. -/
  | firstItem
  | key
  /-- The first key of an object or the end of it. -/
  | firstKey
  | colon
  /-- A value has ended. -/
  | after
  | done (value : Document)
  /-- Inside a string; units are kept in reverse. -/
  | string (isKey : Bool) (units : List StringUnit)
  | escape (isKey : Bool) (units : List StringUnit)
  /-- Inside a numeric escape, with the digits that are left and the code so far. -/
  | unicode (isKey : Bool) (units : List StringUnit) (left code : Nat)
  | word (rest : List Char) (value : Document)
  /-- Inside a number; characters are kept in reverse. -/
  | number (characters : List Char)

structure State where
  mode : Mode
  stack : List Frame

def isBlank (c : Char) : Bool := c = ' ' || c = '\n' || c = '\t' || c = '\r'

namespace State

def close (value : Document) : List Frame → State
  | [] => ⟨.done value, []⟩
  | .array items :: stack => ⟨.after, .array (value :: items) :: stack⟩
  | .member fields key :: stack => ⟨.after, .object ((key, value) :: fields) :: stack⟩
  | .object fields :: stack => ⟨.after, .object fields :: stack⟩

def closeString (isKey : Bool) (units : List StringUnit) (stack : List Frame) : Option State :=
  if isKey then
    match stack with
    | .object fields :: stack => some ⟨.colon, .member fields units.reverse :: stack⟩
    | _ => none
  else some (close (.text units.reverse) stack)

def start (c : Char) (stack : List Frame) : Option State :=
  if c = '"' then some ⟨.string false [], stack⟩
  else if c = '[' then some ⟨.firstItem, .array [] :: stack⟩
  else if c = '\x7b' then some ⟨.firstKey, .object [] :: stack⟩
  else if c = '-' ∨ c.isDigit then some ⟨.number [c], stack⟩
  else if c = 't' then some ⟨.word "rue".toList (.bool true), stack⟩
  else if c = 'f' then some ⟨.word "alse".toList (.bool false), stack⟩
  else if c = 'n' then some ⟨.word "ull".toList .null, stack⟩
  else none

/-- The end of the innermost array or object. -/
def shut (c : Char) : List Frame → Option State
  | .array items :: stack =>
    if c = ']' then some (close (.array items.reverse) stack) else none
  | .object fields :: stack =>
    if c = '\x7d' then some (close (.object fields.reverse) stack) else none
  | _ => none

/-- A character after a value. -/
def next (c : Char) (state : State) : Option State :=
  if isBlank c then some state
  else match state.mode, state.stack with
  | .after, .array items :: stack =>
    if c = ',' then some ⟨.value, .array items :: stack⟩ else shut c state.stack
  | .after, .object fields :: stack =>
    if c = ',' then some ⟨.key, .object fields :: stack⟩ else shut c state.stack
  | _, _ => none

def escaped? (c : Char) : Option Char :=
  match c with
  | '"' => some '"'
  | '\\' => some '\\'
  | '/' => some '/'
  | 'b' => some (Char.ofNat 8)
  | 'f' => some (Char.ofNat 12)
  | 'n' => some '\n'
  | 'r' => some '\r'
  | 't' => some '\t'
  | _ => none

def hexDigit? (c : Char) : Option Nat :=
  if c.isDigit then some (c.toNat - '0'.toNat)
  else if 'a' ≤ c ∧ c ≤ 'f' then some (c.toNat - 'a'.toNat + 10)
  else if 'A' ≤ c ∧ c ≤ 'F' then some (c.toNat - 'A'.toNat + 10)
  else none

def unitOf (code : Nat) : StringUnit :=
  if 0xd800 ≤ code ∧ code < 0xe000 then .surrogate code else .char (Char.ofNat code)

/-- Ends a number and looks at the character after it. -/
def endNumber (characters : List Char) (stack : List Frame) : Option State :=
  (JsonNumber.ofText? characters.reverse).map fun n => close (.number n) stack

def step (state : State) (c : Char) : Option State :=
  let stack := state.stack
  match state.mode with
  | .value => if isBlank c then some state else start c stack
  | .firstItem => if isBlank c then some state else if c = ']' then shut c stack else start c stack
  | .key =>
    if isBlank c then some state else if c = '"' then some ⟨.string true [], stack⟩ else none
  | .firstKey =>
    if isBlank c then some state
    else if c = '"' then some ⟨.string true [], stack⟩
    else shut c stack
  | .colon =>
    if isBlank c then some state else if c = ':' then some ⟨.value, stack⟩ else none
  | .after => next c state
  | .done _ => next c state
  | .string isKey units =>
    if c = '"' then closeString isKey units stack
    else if c = '\\' then some ⟨.escape isKey units, stack⟩
    else if c.toNat < 32 then none
    else some ⟨.string isKey (.char c :: units), stack⟩
  | .escape isKey units =>
    if c = 'u' then some ⟨.unicode isKey units 4 0, stack⟩
    else (escaped? c).map fun c => ⟨.string isKey (.char c :: units), stack⟩
  | .unicode isKey units left code =>
    (hexDigit? c).map fun digit =>
      let code := 16 * code + digit
      if left ≤ 1 then ⟨.string isKey (unitOf code :: units), stack⟩
      else ⟨.unicode isKey units (left - 1) code, stack⟩
  | .word rest value =>
    match rest with
    | [] => none
    | [last] => if c = last then some (close value stack) else none
    | first :: rest => if c = first then some ⟨.word rest value, stack⟩ else none
  | .number characters =>
    if JsonNumber.isPart c then some ⟨.number (c :: characters), stack⟩
    else (endNumber characters stack).bind (next c)

def finish (state : State) : Option Document :=
  let ended :=
    match state.mode with
    | .number characters => endNumber characters state.stack
    | _ => some state
  ended.bind fun state =>
    match state.mode with
    | .done value => some value
    | _ => none

end State

/-- Reads a text that is one JSON value, with blanks around it. -/
def ofText? (text : String) : Option Document :=
  (text.toList.foldlM State.step (⟨.value, []⟩ : State)).bind State.finish

/-! ## Contents -/

/-- The characters of a string; surrogates have to stand in pairs. -/
def characters? : List StringUnit → Option (List Char)
  | [] => some []
  | .char c :: rest => (characters? rest).map (c :: ·)
  | .surrogate high :: .surrogate low :: rest =>
    if high < 0xdc00 ∧ 0xdc00 ≤ low then
      (characters? rest).map
        (Char.ofNat (0x10000 + (high - 0xd800) * 0x400 + (low - 0xdc00)) :: ·)
    else none
  | .surrogate _ :: _ => none

def string? (units : List StringUnit) : Option String := (characters? units).map String.ofList

/-- Arrays and objects that may be open at a time. -/
def nestingLimit : Nat := 127

mutual

/-- Whether everything in a document has a value, and at most `depth` arrays and objects are open
at a time. -/
def isReadable (depth : Nat) : Document → Bool
  | null | bool _ => true
  | number n => n.value?.isSome
  | text units => (characters? units).isSome
  | array items => decide (0 < depth) && areReadable (depth - 1) items
  | object fields => decide (0 < depth) && fieldsReadable (depth - 1) fields

def areReadable (depth : Nat) : List Document → Bool
  | [] => true
  | item :: rest => isReadable depth item && areReadable depth rest

def fieldsReadable (depth : Nat) : List (List StringUnit × Document) → Bool
  | [] => true
  | (key, value) :: rest =>
    (characters? key).isSome && isReadable depth value && fieldsReadable depth rest

end

/-! ## Access -/

def text? : Document → Option String
  | text units => string? units
  | _ => none

def number? : Document → Option JsonNumber.Value
  | number n => n.value?
  | _ => none

/-- A natural number below `2 ^ 64`, written as an integer. -/
def natural? (d : Document) : Option Nat :=
  match d.number? with
  | some (.unsigned n) => some n
  | _ => none

def double? (d : Document) : Option Double := d.number?.map JsonNumber.Value.toDouble

def array? : Document → Option (List Document)
  | array items => some items
  | _ => none

def list? {α : Type} (read : Document → Option α) (d : Document) : Option (List α) :=
  d.array?.bind (·.mapM read)

def fields? : Document → Option (List (String × Document))
  | object fields => fields.mapM fun (key, value) => (string? key).map (·, value)
  | _ => none

/-- The values of a record whose fields have these names: an object, where no name is given twice
and others are ignored, or an array of the values in order, which can lack the last ones. -/
def record? (names : List String) (d : Document) : Option (List (Option Document)) :=
  match d with
  | array items =>
    if items.length ≤ names.length then
      some ((items.map some) ++ List.replicate (names.length - items.length) none)
    else none
  | d =>
    d.fields?.bind fun fields =>
      names.mapM fun name =>
        match fields.filter (·.1 == name) with
        | [] => some none
        | [(_, value)] => some (some value)
        | _ => none

end Document

end Fingerprint
