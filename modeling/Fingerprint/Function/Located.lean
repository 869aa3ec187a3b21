import Fingerprint.Function.Name
import Fingerprint.Token.OfFunction
import Fingerprint.Tree.Walk
/-!
# Located functions

Every function below a root is located once, with its local name and its tokens.  A function that
is stored somewhere is located at the node that stores it, its holder, which can name it; any
other function is located at itself.
-/

namespace Fingerprint

structure Located where
  name : String
  tokens : List String
  deriving DecidableEq, Repr

namespace Located

/-- The name of a function that has none. -/
def anonymous : String := "[anonymous]"

end Located

namespace Node

/-- Fields of the value and of the naming target of the nodes that hold a value. -/
def holderFields : List (String × String × String) :=
  [("variable_declarator", "value", "name"),
    ("assignment_expression", "right", "left"),
    ("augmented_assignment_expression", "right", "left"),
    ("assignment_pattern", "right", "left"),
    ("object_assignment_pattern", "right", "left"),
    ("pair", "value", "key"),
    ("field_definition", "value", "property")]

def firstPart? (n : Node) : Option Nat := n.children.findIdx? isSignificant

/-- Index of the child that a node holds as its value. -/
def value? (n : Node) : Option Nat :=
  if n.kind = "return_statement" then n.firstPart?
  else (holderFields.lookup n.kind).bind fun (value, _) =>
    n.children.findIdx? fun c => c.field == some value

/-- The function that a node holds, in or out of parentheses. -/
def held? (n : Node) : Option Node :=
  ((n.value?.bind (n.children[·]?)).map bare).filter isFunction

/-- The node that names what a node holds. -/
def target? (n : Node) : Option Node :=
  (holderFields.lookup n.kind).bind fun (_, target) => n.child? target

/-- Whether the node at the end of these steps, the last step first, is the value of a holder
among them, but for parentheses. -/
def isHeld : List Step → Bool
  | [] => false
  | ⟨parent, index⟩ :: above =>
    if parent.kind = "parenthesized_expression" then
      parent.firstPart? == some index && isHeld above
    else parent.value? == some index

/-- The local name of a function: its own, or what the target says, if there is one. -/
def localName (function : Node) (target : Option Node) : Except Fault String := do
  match ← function.ownName with
  | some name => pure name
  | none =>
    match target with
    | none => pure Located.anonymous
    | some target => return (← target.targetName).getD Located.anonymous

def located (options : TokenOptions) (function : Node) (target : Option Node) :
    Except Fault Located := do
  let name ← function.localName target
  let tokens ← function.tokens options
  pure ⟨name, tokens⟩

end Node

namespace Site

/-- What is located at a site that lies `depth` steps below the root of the walk. -/
def locate (options : TokenOptions) (depth : Nat) (s : Site) :
    Except Fault (Signal Located) :=
  match s.node.held? with
  | some function => (function.located options s.node.target?).map .emit
  | none =>
    if s.node.isFunction && !Node.isHeld (s.above.take (depth - 1)) then
      (s.node.located options none).map .emit
    else .ok .pass

/-- The functions below a root, nested as their sites are. -/
def functions (options : TokenOptions) (root : Site) : Except Fault (List (Entry Located)) :=
  root.walk fun _ s => s.locate options (s.above.length - root.above.length)

end Site

end Fingerprint
