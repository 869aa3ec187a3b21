import Fingerprint.Token.Form
import Fingerprint.Token.Operands
/-!
# Tokens of expressions and parameters

Slots are filled with the tokens of nested expressions.  A budget counts the levels that may
still be nested; `Expression.token` is the one place where it is spent, and below it stands a
single token that says so.
-/

namespace Fingerprint

/-- A reading of nodes as texts at one level of nesting. -/
abbrev Reading := Node → String

namespace Node

/-- A binding: identifiers are bare, patterns are read as expressions. -/
def bindingText (read : Reading) (n : Node) : String :=
  if n.kind = "identifier" then n.text else read n

/-- The key of a property; `below` reads what is inside a computed key. -/
def keyText (read below : Reading) (key : Node) : String :=
  if ["property_identifier", "private_property_identifier", "identifier"].contains key.kind then
    key.text
  else if key.kind = "computed_property_name" then
    "[" ++ Token.commas (key.parts.map below) ++ "]"
  else read key

/-- One entry of an object or of an object pattern, whose own level is `read`. -/
def entryText (read below : Reading) (entry : Node) : String :=
  let key (field : String) := ((entry.child? field).map (keyText read below)).getD ""
  if ["pair", "pair_pattern"].contains entry.kind then
    "Property[" ++ key "key" ++ "," ++ ((entry.child? "value").map below).getD "" ++ "]"
  else if ["shorthand_property_identifier", "shorthand_property_identifier_pattern"].contains
      entry.kind then
    "Property[" ++ entry.text ++ "]"
  else if entry.kind = "method_definition" then "Method[" ++ key "name" ++ "]"
  else read entry

/-- One declarator of a variable declaration: what it binds and what that is set to. -/
def declaratorText (read : Reading) (n : Node) : String :=
  "Declarator[" ++ Token.commas
    (((n.child? "name").map (bindingText read)).toList ++
      ((n.child? "value").map read).toList) ++ "]"

def declarationKeyword (n : Node) : String :=
  if n.kind = "variable_declaration" then "var"
  else ((n.child? "kind").map kind).getD "let"

def declarators (n : Node) : List Node := n.parts.filter (·.kind == "variable_declarator")

def variablesToken (read : Reading) (n : Node) : Token :=
  .shaped .declaration "Variable"
    (n.declarationKeyword :: n.declarators.map (declaratorText read))

/-- One clause of a loop header; a declaration there is read one level further down. -/
def clauseText (read below : Reading) (n : Node) : String :=
  if Form.declarationKinds.contains n.kind then (variablesToken below n).text
  else if n.kind = "expression_statement" then Token.commas (n.parts.map read)
  else if n.kind = "empty_statement" then ""
  else read n

def cases (n : Node) : List Node := ((n.child? "body").map parts).getD []

/-- The texts that fill a slot.  `read` reads one level below the node and `below` two. -/
def fill (read below : Reading) (n : Node) : Slot → List String
  | .operand field => [((n.child? field).map read).getD ""]
  | .operator => [n.operator?.getD "?"]
  | .word text => [text]
  | .text => [n.text]
  | .textOf field => [((n.child? field).map text).getD ""]
  | .nameOf field => ((n.child? field).map text).toList
  | .kindOf field => ((n.child? field).map kind).toList
  | .parts => n.parts.map read
  | .partsOf field => ((n.child? field).map fun c => c.parts.map read).getD []
  | .arguments =>
    match n.child? "arguments" with
    | none => []
    | some arguments =>
      if arguments.kind = "template_string" then [(Token.shaped .literal "Template" []).text]
      else arguments.parts.map read
  | .update =>
    let operator := n.operator?.getD "?"
    let argument := ((n.child? "argument").map read).getD ""
    match n.child? "operator", n.child? "argument" with
    | some o, some a =>
      if o.start < a.start then [operator, argument] else [argument, operator]
    | _, _ => [argument, operator]
  | .star => if n.children.any (·.kind == "*") then ["*"] else []
  | .entries => n.parts.map (entryText read below)
  | .sequence => n.operands.map read
  | .heritage =>
    (n.parts.filter (·.kind == "class_heritage")).flatMap fun c => c.parts.map read
  | .clause field => [((n.child? field).map (clauseText read below)).getD ""]
  | .tests => n.cases.map fun case => ((case.child? "value").map read).getD "default"
  | .caught =>
    (((n.child? "handler").bind (child? · "parameter")).map (bindingText read)).toList

def shape (read below : Reading) (n : Node) (form : Form) : Token :=
  .shaped form.category (form.head.name n) (form.slots.flatMap (fill read below n))

/-- The token of an expression without its parentheses. -/
def expressionShape (read below : Reading) (n : Node) : Token :=
  match Form.expressions.lookup n.kind with
  | some form => shape read below n form
  | none => .fallback .expression n.kind

end Node

namespace Expression

/-- The token of an expression with a budget of nested levels. -/
def token : Nat → Node → Token
  | 0, _ => .tooDeep .expression
  | budget + 1, n =>
    Node.expressionShape (fun c => (token budget c).text)
      (fun c =>
        match budget with
        | 0 => (Token.tooDeep .expression).text
        | less + 1 => (token less c).text)
      n.bare

def text (budget : Nat) : Reading := fun n => (token budget n).text

theorem token_succ (budget : Nat) (n : Node) :
    token (budget + 1) n = Node.expressionShape (text budget) (text (budget - 1)) n.bare := by
  cases budget <;> rfl

end Expression

namespace Parameter

def entryText (read : Reading) (budget : Nat) (entry : Node) : String :=
  if entry.kind = "pair_pattern" then
    ((entry.child? "key").map
      (Node.keyText (Expression.text budget) (Expression.text (budget - 1)))).getD "" ++ ":" ++
      ((entry.child? "value").map read).getD ""
  else read entry

/-- The token of a parameter whose inner parameters are read by `read` and whose expressions have
`budget` levels left. -/
def shape (read : Node → Token) (budget : Nat) (n : Node) : Token :=
  let inner (c : Node) : String := (read c).text
  let initial := Expression.text budget
  match n.kind with
  | "identifier" | "shorthand_property_identifier_pattern" =>
    .shaped .parameter "Identifier" [n.text]
  | "assignment_pattern" | "object_assignment_pattern" =>
    .shaped .parameter "Assignment"
      [((n.child? "left").map inner).getD "", ((n.child? "right").map initial).getD ""]
  | "rest_pattern" => .shaped .parameter "Rest" (n.parts.map inner)
  | "object_pattern" => .shaped .parameter "Object" (n.parts.map (entryText inner budget))
  | "array_pattern" => .shaped .parameter "Array" (n.parts.map inner)
  | "required_parameter" | "optional_parameter" =>
    let pattern := ((n.child? "pattern").map read).getD (.fallback .parameter n.kind)
    match n.child? "value" with
    | some value => .shaped .parameter "Assignment" [pattern.text, initial value]
    | none => pattern
  | "this" => .shaped .parameter "This" []
  | kind => .fallback .parameter kind

def token : Nat → Node → Token
  | 0, _ => .tooDeep .parameter
  | budget + 1, n => shape (token budget) budget n

end Parameter

end Fingerprint
