import Fingerprint.Double.Basic
/-!
# TOML values and tables

A table remembers how it came to be, because that decides how it may be extended: a table that was
opened by a header is extended by other headers only, one that came from a dotted key by dotted
keys as well, and an inline table not at all.
-/

namespace Fingerprint.Toml

/-- What made a table. -/
inductive Origin where
  /-- Braces. -/
  | inline
  /-- A header of its own. -/
  | header
  /-- The header of a table inside it. -/
  | implicit
  /-- A dotted key. -/
  | dotted
  deriving DecidableEq, Repr

inductive Value where
  | text (value : String)
  | integer (value : Int)
  | float (value : Double)
  | bool (value : Bool)
  | datetime
  | array (items : List Value)
  | table (origin : Origin) (fields : List (String × Value))
  /-- Tables opened one after another by doubled headers; the last one is open. -/
  | tables (items : List (List (String × Value)))

/-- The fields of a table in the order of their definition. -/
abbrev Fields := List (String × Value)

namespace Fields

/-- Sets the value of a key that is there. -/
def replace (fields : Fields) (key : String) (value : Value) : Fields :=
  fields.map fun field => if field.1 = key then (key, value) else field

/-- Adds a key that is not there. -/
def add? (fields : Fields) (key : String) (value : Value) : Option Fields :=
  if (fields.lookup key).isSome then none else some (fields ++ [(key, value)])

/-- Replaces the last table of a list of tables. -/
def updateLast? (update : Fields → Option Fields) : List Fields → Option (List Fields)
  | [] => none
  | [last] => (update last).map ([·])
  | first :: rest => (updateLast? update rest).map (first :: ·)

/-- Adds a key below a path of dotted keys.  Tables on the way are made if they are not there, and
the one that gets the key has to come from a dotted key. -/
def addDotted? (key : String) (value : Value) : List String → Fields → Option Fields
  | [], fields => fields.add? key value
  | step :: rest, fields =>
    match fields.lookup step with
    | none =>
      (addDotted? key value rest []).bind fun inner => fields.add? step (.table .dotted inner)
    | some (.table origin inner) =>
      if origin = .inline ∨ origin = .header ∨ (rest = [] ∧ origin ≠ .dotted) then none
      else
        (addDotted? key value rest inner).map fun inner =>
          fields.replace step (.table origin inner)
    | some (.tables items) =>
      if rest = [] then none
      else (updateLast? (addDotted? key value rest) items).map fun items =>
        fields.replace step (.tables items)
    | some _ => none

/-- Changes the table at a path of headers.  Tables on the way are made if they are not there; of
several tables the last one is entered. -/
def enter? (change : Fields → Option Fields) : List String → Fields → Option Fields
  | [], fields => change fields
  | step :: rest, fields =>
    match fields.lookup step with
    | none => (enter? change rest []).bind fun inner => fields.add? step (.table .implicit inner)
    | some (.table origin inner) =>
      if origin = .inline then none
      else (enter? change rest inner).map fun inner => fields.replace step (.table origin inner)
    | some (.tables items) =>
      (updateLast? (enter? change rest) items).map fun items =>
        fields.replace step (.tables items)
    | some _ => none

/-- Opens a table: a new one, or one that so far only its inner tables have named. -/
def openTable? (key : String) (fields : Fields) : Option Fields :=
  match fields.lookup key with
  | none => fields.add? key (.table .header [])
  | some (.table .implicit inner) => some (fields.replace key (.table .header inner))
  | some _ => none

/-- Opens one more table of a list of tables. -/
def openNext? (key : String) (fields : Fields) : Option Fields :=
  match fields.lookup key with
  | none => fields.add? key (.tables [[]])
  | some (.tables items) => some (fields.replace key (.tables (items ++ [[]])))
  | some _ => none

end Fields

end Fingerprint.Toml
