import Fingerprint.Token.Basic
import Fingerprint.Tree.Node
/-!
# Forms of tokens

The shape of a token depends on the kind of its node alone: `Form` says which token a kind gets
and which slots fill its brackets.  The tables of this module are the vocabulary of expressions
and of statement headers, but for variable declarations; how a slot is filled is said elsewhere.
-/

namespace Fingerprint

/-- What fills one place of a token's brackets, read off the node. -/
inductive Slot where
  /-- The expression under a field, an empty text if there is none. -/
  | operand (field : String)
  /-- The operator, a question mark if there is none. -/
  | operator
  | word (text : String)
  | text
  /-- The text under a field, empty if there is none. -/
  | textOf (field : String)
  /-- The text under a field; no place if there is none. -/
  | nameOf (field : String)
  /-- The kind of the token under a field; no place if there is none. -/
  | kindOf (field : String)
  | parts
  /-- Every part of the node under a field as an expression. -/
  | partsOf (field : String)
  /-- Arguments of a call; a template is one argument. -/
  | arguments
  /-- Operator and argument in the order in which they are written. -/
  | update
  /-- The star of a delegating yield, if there is one. -/
  | star
  /-- Entries of an object or of an object pattern. -/
  | entries
  | sequence
  | heritage
  | clause (field : String)
  | tests
  | caught
  deriving DecidableEq, Repr

/-- The name of a token's kind, which for some nodes depends on a detail. -/
inductive Head where
  | fixed (name : String)
  /-- Big integers end in the letter n. -/
  | numeral
  | connective
  /-- Tagged templates, optional and plain calls. -/
  | call
  /-- Optional and plain access. -/
  | member
  /-- Loops over keys and over values. -/
  | loop
  /-- The clauses that a try statement has. -/
  | attempt
  deriving DecidableEq, Repr

structure Form where
  category : Category
  head : Head
  slots : List Slot
  deriving DecidableEq, Repr

namespace Form

private def plain (category : Category) (name : String) (slots : List Slot) : Form :=
  ⟨category, .fixed name, slots⟩

private def each (kinds : List String) (form : Form) : List (String × Form) :=
  kinds.map (·, form)

def className : List Slot := [.nameOf "name", .heritage]

def expressions : List (String × Form) :=
  each ["identifier", "shorthand_property_identifier", "shorthand_property_identifier_pattern",
      "private_property_identifier", "property_identifier", "undefined"]
    (plain .expression "Identifier" [.text]) ++
  each ["this"] (plain .expression "This" []) ++
  each ["super"] (plain .expression "Super" []) ++
  each ["string"] (plain .literal "String" []) ++
  each ["template_string"] (plain .literal "Template" []) ++
  each ["number"] ⟨.literal, .numeral, []⟩ ++
  each ["regex"] (plain .literal "RegExp" []) ++
  each ["true", "false"] (plain .literal "Boolean" []) ++
  each ["null"] (plain .literal "Null" []) ++
  each ["binary_expression"]
    ⟨.expression, .connective, [.operand "left", .operator, .operand "right"]⟩ ++
  each ["unary_expression"] (plain .expression "Unary" [.operator, .operand "argument"]) ++
  each ["update_expression"] (plain .expression "Update" [.update]) ++
  each ["assignment_expression"]
    (plain .expression "Assignment" [.operand "left", .word "=", .operand "right"]) ++
  each ["augmented_assignment_expression"]
    (plain .expression "Assignment" [.operand "left", .operator, .operand "right"]) ++
  each ["ternary_expression"]
    (plain .expression "Conditional"
      [.operand "condition", .operand "consequence", .operand "alternative"]) ++
  each ["sequence_expression"] (plain .expression "Sequence" [.sequence]) ++
  each ["call_expression"] ⟨.expression, .call, [.operand "function", .arguments]⟩ ++
  each ["new_expression"]
    (plain .expression "New" [.operand "constructor", .partsOf "arguments"]) ++
  each ["member_expression"] ⟨.expression, .member, [.operand "object", .textOf "property"]⟩ ++
  each ["subscript_expression"]
    (plain .expression "ComputedMember" [.operand "object", .operand "index"]) ++
  each ["await_expression"] (plain .expression "Await" [.parts]) ++
  each ["yield_expression"] (plain .expression "Yield" [.star, .parts]) ++
  each ["spread_element"] (plain .expression "Spread" [.parts]) ++
  each ["array"] (plain .expression "Array" [.parts]) ++
  each ["object"] (plain .expression "Object" [.entries]) ++
  each ["function_expression", "function"] (plain .expression "Function" [.nameOf "name"]) ++
  each ["generator_function"] (plain .expression "Generator" [.nameOf "name"]) ++
  each ["arrow_function"] (plain .expression "ArrowFunction" []) ++
  each ["class"] (plain .expression "Class" className) ++
  each ["meta_property"] (plain .expression "MetaProperty" [.text]) ++
  each ["object_pattern"] (plain .expression "ObjectPattern" [.entries]) ++
  each ["array_pattern"] (plain .expression "ArrayPattern" [.parts]) ++
  each ["assignment_pattern", "object_assignment_pattern"]
    (plain .expression "AssignmentPattern" [.operand "left", .operand "right"]) ++
  each ["rest_pattern"] (plain .expression "Rest" [.parts])

def statements : List (String × Form) :=
  each ["function_declaration"] (plain .declaration "Function" [.nameOf "name"]) ++
  each ["generator_function_declaration"] (plain .declaration "Generator" [.nameOf "name"]) ++
  each ["class_declaration"] (plain .declaration "Class" className) ++
  each ["for_statement"]
    (plain .statement "For" [.clause "initializer", .clause "condition", .clause "increment"]) ++
  each ["for_in_statement"]
    ⟨.statement, .loop, [.kindOf "kind", .operand "left", .operand "right"]⟩ ++
  each ["while_statement"] (plain .statement "While" [.operand "condition"]) ++
  each ["do_statement"] (plain .statement "DoWhile" [.operand "condition"]) ++
  each ["return_statement"] (plain .statement "Return" [.parts]) ++
  each ["throw_statement"] (plain .statement "Throw" [.parts]) ++
  each ["break_statement"] (plain .statement "Break" [.nameOf "label"]) ++
  each ["continue_statement"] (plain .statement "Continue" [.nameOf "label"]) ++
  each ["try_statement"] ⟨.statement, .attempt, [.caught]⟩ ++
  each ["switch_statement"] (plain .statement "Switch" [.operand "value", .tests]) ++
  each ["labeled_statement"] (plain .statement "Labeled" [.textOf "label"]) ++
  each ["with_statement"] (plain .statement "With" [.operand "object"]) ++
  each ["debugger_statement"] (plain .statement "Debugger" [])

def declarationKinds : List String := ["variable_declaration", "lexical_declaration"]

/-- The form of one link of a chain of conditions. -/
def link (name : String) : Form := plain .statement name [.operand "condition"]

end Form

namespace Head

def name : Head → Node → String
  | fixed name, _ => name
  | numeral, n => if n.text.toList.getLast? = some 'n' then "BigInt" else "Numeric"
  | connective, n =>
    if ["&&", "||", "??"].contains (n.operator?.getD "?") then "Logical" else "Binary"
  | call, n =>
    if ((n.child? "arguments").map Node.kind) = some "template_string" then "TaggedTemplate"
    else if (n.child? "optional_chain").isSome then "OptionalCall"
    else "Call"
  | member, n => if (n.child? "optional_chain").isSome then "OptionalMember" else "Member"
  | loop, n => if n.operator? = some "of" then "ForOf" else "ForIn"
  | attempt, n =>
    "Try" ++ (if (n.child? "handler").isSome then "-Catch" else "") ++
      (if (n.child? "finalizer").isSome then "-Finally" else "")

end Head

end Fingerprint
