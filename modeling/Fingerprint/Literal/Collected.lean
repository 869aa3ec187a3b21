import Fingerprint.Literal.Numeral
import Fingerprint.Literal.Value
import Fingerprint.Tree.Prologue
import Fingerprint.Tree.Quoted
import Fingerprint.Tree.Walk
/-!
# Collected literals

The literals of a source unit are its strings, numbers, regular expressions and templates, but for
directives, empty texts and the most common numbers.
-/

namespace Fingerprint

namespace Literal

/-- What a number literal contributes.  Numbers without a finite value keep their text. -/
def ofNumeral (negated : Bool) (text : String) : Signal Literal :=
  match Numeral.value? text with
  | some value =>
    let value := if negated then -value else value
    if isCommon value then .prune else .emitAndStop (.number value)
  | none =>
    if text.isEmpty then .prune
    else .emitAndStop (.text (if negated then "-" ++ text else text))

def ofText (content : String) : Signal Literal :=
  if content.isEmpty then .prune else .emitAndStop (.text content)

end Literal

namespace Node

def negatedNumber? (n : Node) : Option Node :=
  if n.kind = "unary_expression" ∧ n.operator? = some "-" then
    (n.child? "argument").filter (·.kind == "number")
  else none

/-- The text of a regular expression, rebuilt from its pattern and flags. -/
def regexText (n : Node) : String :=
  let part (field : String) := ((n.child? field).map text).getD ""
  "/" ++ part "pattern" ++ "/" ++ part "flags"

/-- The chunks of a template with a mark for every substitution. -/
def templateText (n : Node) : String := String.intercalate "$\x7b\x7d" n.chunks

/-- What a node other than a directive contributes. -/
def literal (n : Node) : Except Fault (Signal Literal) :=
  match n.kind with
  | "string" => n.content.map Literal.ofText
  | "number" => .ok (Literal.ofNumeral false n.text)
  | "regex" => .ok (.emitAndStop (.text n.regexText))
  | "template_string" => .ok (Literal.ofText n.templateText)
  | "true" | "false" | "null" | "undefined" => .ok .prune
  | _ =>
    match n.negatedNumber? with
    | some number => .ok (Literal.ofNumeral true number.text)
    | none => .ok .pass

end Node

namespace Site

def literal (s : Site) : Except Fault (Signal Literal) :=
  if s.isDirective then .ok .prune else s.node.literal

/-- The literals below a root, ascending and without repetition. -/
def literals (root : Site) : Except Fault (List Literal) :=
  (root.walk fun _ s => s.literal).map fun found => Literal.ascending (Entry.toListAll found)

end Site

end Fingerprint
