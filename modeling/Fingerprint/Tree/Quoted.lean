import Fingerprint.Tree.Node
/-!
# Strings and templates

The content of a string literal is its text without the two quotes, and the static chunks of a
template are the texts between its substitutions.  Quotes that cannot be cut off are one of the
faults that end the reading of a tree.
-/

namespace Fingerprint

inductive Fault where
  /-- A node of the given kind lacks a child that its kind always has. -/
  | malformed (kind place missing : String)
  /-- The quotes of a string cannot be cut off its text without cutting a character. -/
  | torn (kind : String)
  deriving DecidableEq, Repr

def Fault.message : Fault → String
  | .malformed kind place missing =>
    "Malformed " ++ kind ++ " node at " ++ place ++ ": missing " ++ missing
  | .torn kind => "Torn " ++ kind ++ " node"

/-- A text without its first and last byte; texts shorter than two bytes have nothing between
them.  There is no answer if one of these bytes is only part of a character. -/
def unquote? (text : String) : Option String :=
  match text.toList with
  | [] => some ""
  | [c] => if c.utf8Size = 1 then some "" else none
  | first :: c :: rest =>
    if first.utf8Size = 1 ∧ (rest.getLastD c).utf8Size = 1 then
      some (String.ofList (c :: rest).dropLast)
    else none

namespace Node

/-- Content of a string literal, escapes left as they are. -/
def content (n : Node) : Except Fault String :=
  match unquote? n.text with
  | some content => .ok content
  | none => .error (.torn n.kind)

/-- Chunks of a list of template parts: each substitution ends one and starts the next. -/
def chunksOf : List Node → List String
  | [] => [""]
  | c :: rest =>
    if c.kind = "template_substitution" then "" :: chunksOf rest
    else
      match chunksOf rest with
      | [] => [c.text]
      | first :: later => (c.text ++ first) :: later

/-- The static texts of a template, one more than it has substitutions. -/
def chunks (n : Node) : List String := chunksOf n.parts

end Node

end Fingerprint
