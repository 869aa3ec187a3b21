/-!
# Tokens

A token names one construct of a function: its category, its kind and, in brackets, the texts of
what it is made of.  Constructs that have no token of their own degrade to the kind of their node.
-/

namespace Fingerprint

inductive Category where
  | declaration
  | directive
  | expression
  | literal
  | parameter
  | statement
  /-- Constructs that fit nowhere else. -/
  | unknown
  deriving DecidableEq, Repr

namespace Category

def all : List Category :=
  [declaration, directive, expression, literal, parameter, statement, unknown]

def text : Category → String
  | declaration => "DECLARATION"
  | directive => "DIRECTIVE"
  | expression => "EXPRESSION"
  | literal => "LITERAL"
  | parameter => "PARAMETER"
  | statement => "STATEMENT"
  | unknown => "UNKNOWN"

end Category

inductive Token where
  /-- A known construct with the texts of its parts. -/
  | shaped (category : Category) (kind : String) (parts : List String)
  /-- A construct known by the kind of its node only. -/
  | fallback (category : Category) (kind : String)
  deriving DecidableEq, Repr

namespace Token

def commas (parts : List String) : String := String.intercalate "," parts

def text : Token → String
  | shaped category kind [] => category.text ++ ":" ++ kind
  | shaped category kind parts => category.text ++ ":" ++ kind ++ "[" ++ commas parts ++ "]"
  | fallback category kind => "t_" ++ category.text ++ ":" ++ kind

/-- Stands for whatever is nested too deeply. -/
def tooDeep (category : Category) : Token := fallback category "depth-limit"

end Token

/-! ## Token texts -/

/-- The part of a token's text before its first bracket. -/
def tokenKind (token : String) : String :=
  String.ofList (token.toList.takeWhile (· != '['))

/-- Byte order of texts, which is also the order of their characters. -/
def textLe (a b : String) : Bool := decide (a ≤ b)

def sortTexts (texts : List String) : List String := texts.mergeSort textLe

def statementTypes (tokens : List String) : List String := sortTexts (tokens.map tokenKind)

end Fingerprint
