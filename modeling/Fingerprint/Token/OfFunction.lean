import Fingerprint.Token.Statement
import Fingerprint.Tree.Prologue
import Fingerprint.Tree.Quoted
/-!
# Tokens of functions

A function gets the tokens of its parameters and of its body.  Functions nested in it are single
tokens here; they get tokens of their own.
-/

namespace Fingerprint

structure TokenOptions where
  mode : TokenMode := .full
  /-- Nested levels of statements and expressions together that are told apart. -/
  maxDepth : Nat := 256
  deriving DecidableEq, Repr

namespace Node

/-- The token of a directive, which shows the content of its string. -/
def directiveToken (n : Node) : Except Fault Token := do
  let content ← match n.parts with
    | only :: _ => only.content
    | [] => pure ""
  pure (.shaped .directive "Directive" [content])

def parameters (n : Node) : List Node :=
  match n.child? "parameters" with
  | some list => list.parts
  | none => (n.child? "parameter").toList

/-- The tokens of a body.  Directives stand only in the block of a function. -/
def bodyTokens (mode : TokenMode) (budget : Nat) (isFunction : Bool) (body : Node) :
    Except Fault (List Token) :=
  if body.kind = "statement_block" then do
    let directives := if isFunction then body.leadingStrings else []
    let leading ← directives.mapM directiveToken
    pure (leading ++
      (body.parts.drop directives.length).flatMap (Statement.tokens mode budget))
  else pure [Expression.token budget body]

/-- Shows a place with both coordinates counted from one. -/
def place (n : Node) : String :=
  "line " ++ toString (n.label.position.line + 1) ++ " column " ++
    toString (n.label.position.column + 1)

def functionTokens (options : TokenOptions) (n : Node) : Except Fault (List Token) :=
  match n.child? "body" with
  | none => .error (.malformed n.kind n.place "body")
  | some body => do
    let budget := options.maxDepth + 1
    let parameters :=
      match options.mode with
      | .full => n.parameters.map (Parameter.token budget)
      | .skipDeclarations => []
    let rest ← bodyTokens options.mode budget n.isFunction body
    pure (parameters ++ rest)

/-- The sorted texts of the tokens of a function. -/
def tokens (options : TokenOptions) (n : Node) : Except Fault (List String) :=
  (n.functionTokens options).map fun tokens => sortTexts (tokens.map Token.text)

end Node

end Fingerprint
