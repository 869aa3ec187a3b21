import Fingerprint.Tree.Site
/-!
# Directive prologues

The string statements at the start of a program or of a function body are directives.
-/

namespace Fingerprint

/-- A statement that is a string and nothing else. -/
def Node.isStringStatement (n : Node) : Bool :=
  n.kind == "expression_statement" &&
    match n.parts with
    | [only] => only.kind == "string"
    | _ => false

/-- The leading string statements of a block or program. -/
def Node.leadingStrings (n : Node) : List Node := n.parts.takeWhile Node.isStringStatement

namespace Site

/-- Whether the statements directly below can be directives. -/
def opensPrologue (s : Site) : Bool :=
  if s.node.kind = "program" then true
  else if s.node.kind = "statement_block" then
    match s.parentNode? with
    | some owner => owner.isFunction
    | none => false
  else false

/-- A directive is a string statement with nothing but string statements before it, where
directives may stand. -/
def isDirective (s : Site) : Bool :=
  s.node.isStringStatement &&
    match s.parent? with
    | some parent => parent.opensPrologue && s.earlier.all Node.isStringStatement
    | none => false

end Site

end Fingerprint
