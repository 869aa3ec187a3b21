/-!
# Concrete trees

A source unit is seen as its concrete tree: every node, the anonymous tokens and the comments
included, with its kind, its field in the parent and its text.  The accessors here are the only
way the rest of the library looks at a node.
-/

namespace Fingerprint

/-- A place in a source text, both coordinates counted from zero; columns are bytes. -/
structure Position where
  line : Nat
  column : Nat
  deriving DecidableEq, Repr

/-- What a node is by itself. -/
structure Label where
  /-- Number of the node in pre-order. -/
  number : Nat
  kind : String
  /-- Whether the node is more than a token of the grammar. -/
  named : Bool
  /-- Name of the field under which the node hangs in its parent. -/
  field : Option String
  /-- First byte in the source. -/
  start : Nat
  position : Position
  text : String
  deriving DecidableEq, Repr

structure Node where
  label : Label
  children : List Node

namespace Node

def number (n : Node) : Nat := n.label.number

def kind (n : Node) : String := n.label.kind

def named (n : Node) : Bool := n.label.named

def field (n : Node) : Option String := n.label.field

def start (n : Node) : Nat := n.label.start

def text (n : Node) : String := n.label.text

/-- Comments may stand anywhere and never count. -/
def isComment (n : Node) : Bool := n.kind == "comment" || n.kind == "html_comment"

/-- Named nodes other than comments. -/
def isSignificant (n : Node) : Bool := n.named && !n.isComment

/-- The significant children. -/
def parts (n : Node) : List Node := n.children.filter isSignificant

/-- The first child that hangs under a field. -/
def child? (n : Node) (field : String) : Option Node :=
  n.children.find? fun c => c.field == some field

/-- Operators are tokens, so the kind of one is its text. -/
def operator? (n : Node) : Option String := (n.child? "operator").map kind

/-- Kinds of the nodes that are functions in their own right. -/
def functionKinds : List String :=
  ["function_declaration", "generator_function_declaration", "function_expression", "function",
    "generator_function", "arrow_function", "method_definition"]

def isFunction (n : Node) : Bool := functionKinds.contains n.kind

/-! ## Parentheses -/

mutual

/-- The node without the parentheses around it.  Empty parentheses stay. -/
def bare : Node → Node
  | n@⟨label, children⟩ =>
    if label.kind = "parenthesized_expression" then bareFirst n children else n

/-- The first significant node of a list, bared, or `outer` if there is none. -/
def bareFirst (outer : Node) : List Node → Node
  | [] => outer
  | c :: rest => if c.isSignificant then bare c else bareFirst outer rest

end

end Node

end Fingerprint
