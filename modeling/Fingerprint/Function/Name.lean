import Fingerprint.Tree.Quoted
/-!
# Names of keys and targets

A function without an identifier of its own takes its name from the key or target that it is
stored under.
-/

namespace Fingerprint

/-- Number of nested keys that a name is read through. -/
def keyBudget : Nat := 256

namespace Node

def namingKinds : List String :=
  ["identifier", "property_identifier", "private_property_identifier",
    "shorthand_property_identifier", "shorthand_property_identifier_pattern",
    "statement_identifier", "number", "regex"]

/-- The name that a key stands for, if it has a static one, read through at most the given number
of nested keys.  Concatenations keep their operator. -/
def keyNameWithin : Nat → Node → Except Fault (Option String)
  | 0, _ => .ok none
  | budget + 1, key =>
    let key := key.bare
    let inner (part : Option Node) : Except Fault (Option String) :=
      match part with
      | some part => keyNameWithin budget part
      | none => .ok none
    if namingKinds.contains key.kind then .ok (some key.text)
    else match key.kind with
    | "string" => key.content.map some
    | "null" => .ok (some "null")
    | "template_string" => .ok (some (String.join key.chunks))
    | "computed_property_name" => inner key.parts.head?
    | "member_expression" => inner (key.child? "property")
    | "binary_expression" => do
      match ← inner (key.child? "left") with
      | none => .ok none
      | some left =>
        match ← inner (key.child? "right") with
        | none => .ok none
        | some right => .ok (some (left ++ key.operator?.getD "" ++ right))
    | _ => .ok none

/-- The name that an identifier, a literal key or a computed key stands for. -/
def keyName (key : Node) : Except Fault (Option String) := keyNameWithin keyBudget key

/-- The name that an assignment target or a binding gives: of a member, the name of its last
key. -/
def targetName (target : Node) : Except Fault (Option String) :=
  let target := target.bare
  let key :=
    match target.kind with
    | "member_expression" => target.child? "property"
    | "subscript_expression" => target.child? "index"
    | _ => some target
  match key with
  | some key => key.keyName
  | none => .ok none

def ownName (function : Node) : Except Fault (Option String) :=
  match function.child? "name" with
  | some name => name.keyName
  | none => .ok none

end Node

end Fingerprint
