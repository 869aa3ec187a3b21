import Fingerprint.Token.Expression
/-!
# Tokens of statements

A statement gives a header token and then the tokens of the statements in its bodies, which count
one level further down.  `Node.pieces` says which those are, and `Statement.tokens` spends the
budget of levels.
-/

namespace Fingerprint

inductive TokenMode where
  | full
  /-- Leaves out parameters and variable declarations. -/
  | skipDeclarations
  deriving DecidableEq, Repr

/-- What a statement consists of: tokens of its own and statements one level down. -/
inductive Piece where
  | token (token : Token)
  | inner (statement : Node)

namespace Node

/-- The statements of a body: those of a block, or the body itself. -/
def bodyStatements (n : Node) : List Node :=
  if n.kind = "statement_block" then n.parts else [n]

/-- The statements of the body under a chain of fields. -/
def bodyUnder (n : Node) : List String → List Node
  | [] => n.bodyStatements
  | field :: rest =>
    match n.child? field with
    | some c => c.bodyUnder rest
    | none => []

/-- The statements of a case, all its parts but its test. -/
def caseStatements (n : Node) : List Node :=
  (n.children.eraseP fun c => c.field == some "value").filter isSignificant

/-- The statements in the bodies of a statement, other than a condition. -/
def inner (n : Node) : List Node :=
  match n.kind with
  | "statement_block" => n.parts
  | "for_statement" | "for_in_statement" | "while_statement" | "do_statement"
  | "labeled_statement" | "with_statement" => n.bodyUnder ["body"]
  | "try_statement" =>
    n.bodyUnder ["body"] ++ n.bodyUnder ["handler", "body"] ++ n.bodyUnder ["finalizer", "body"]
  | "switch_statement" => n.cases.flatMap caseStatements
  | _ => []

/-! ## Chains of conditions -/

/-- The end of a chain of conditions. -/
inductive ChainEnd where
  /-- There is no last alternative. -/
  | open
  /-- The last alternative, which can be missing after its keyword. -/
  | otherwise (statement : Option Node)

mutual

/-- The later links of a chain that starts at a condition, and how it ends. -/
def chain : Node → List Node × ChainEnd
  | ⟨_, children⟩ => chainAt children

def chainAt : List Node → List Node × ChainEnd
  | [] => ([], .open)
  | c :: rest =>
    if c.field = some "alternative" then
      match c with
      | ⟨label, children⟩ =>
        if label.kind = "else_clause" then chainElse children
        else if label.kind = "if_statement" then
          let (links, last) := chainAt children
          (⟨label, children⟩ :: links, last)
        else ([], .otherwise (some ⟨label, children⟩))
    else chainAt rest

def chainElse : List Node → List Node × ChainEnd
  | [] => ([], .otherwise none)
  | c :: rest =>
    if c.isSignificant then
      if c.kind = "if_statement" then
        let (links, last) := chain c
        (c :: links, last)
      else ([], .otherwise (some c))
    else chainElse rest

end

/-- The pieces of one link: its condition and the statements under it. -/
def linkPieces (read below : Reading) (name : String) (n : Node) : List Piece :=
  .token (shape read below n (Form.link name)) :: (n.bodyUnder ["consequence"]).map .inner

def chainPieces (read below : Reading) (n : Node) : List Piece :=
  let (links, last) := n.chain
  linkPieces read below "If" n ++ links.flatMap (linkPieces read below "Else-If") ++
    match last with
    | .open => []
    | .otherwise statement =>
      .token (.shaped .statement "Else" []) ::
        ((statement.map bodyStatements).getD []).map .inner

/-! ## Statements -/

mutual

/-- The declaration that an export exports; other statements and bare exports stay. -/
def exported : Node → Node
  | n@⟨label, children⟩ =>
    if label.kind = "export_statement" then exportedAmong n children else n

def exportedAmong (outer : Node) : List Node → Node
  | [] => outer
  | c :: rest => if c.field = some "declaration" then exported c else exportedAmong outer rest

end

def statementCategory (kind : String) : Category :=
  if "_statement".toList.isSuffixOf kind.toList then .statement
  else if "declaration".toList.isSuffixOf kind.toList then .declaration
  else .unknown

/-- The pieces of a statement.  `read` reads expressions one level below it and `below` two; an
expression statement is as deep as its expressions, which `level` reads. -/
def pieces (mode : TokenMode) (level : Node → Token) (read below : Reading) (n : Node) :
    List Piece :=
  if n.kind = "expression_statement" then n.parts.map fun c => .token (level c)
  else if Form.declarationKinds.contains n.kind then
    match mode with
    | .full => [.token (variablesToken read n)]
    | .skipDeclarations => []
  else if n.kind = "if_statement" then chainPieces read below n
  else if n.kind = "statement_block" ∨ n.kind = "empty_statement" then n.inner.map .inner
  else
    match Form.statements.lookup n.kind with
    | some form => .token (shape read below n form) :: n.inner.map .inner
    | none => [.token (.fallback (statementCategory n.kind) n.kind)]

end Node

namespace Statement

def tokens (mode : TokenMode) : Nat → Node → List Token
  | 0, _ => [.tooDeep .statement]
  | budget + 1, n =>
    (n.exported.pieces mode (Expression.token (budget + 1)) (Expression.text budget)
      (Expression.text (budget - 1))).flatMap fun piece =>
        match piece with
        | .token token => [token]
        | .inner statement => tokens mode budget statement

end Statement

end Fingerprint
