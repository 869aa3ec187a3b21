/-!
# Strategies

What two signatures are compared by.
-/

namespace Fingerprint

/-- What the size of an overlap is related to. -/
inductive Overlap where
  /-- The union of both sets. -/
  | jaccard
  /-- The unknown set alone. -/
  | coverage
  deriving DecidableEq, Repr

inductive Strictness where
  /-- Repeated tokens count once. -/
  | loose
  /-- Repeated tokens count as often as they occur. -/
  | strict
  deriving DecidableEq, Repr

inductive Strategy where
  | literals (overlap : Overlap)
  | functionNames (overlap : Overlap)
  | statementTypes (overlap : Overlap)
  | functionTokens (strictness : Strictness)
  deriving DecidableEq, Repr

namespace Strategy

def all : List Strategy :=
  [literals .jaccard, literals .coverage, functionNames .jaccard, functionNames .coverage,
    statementTypes .jaccard, statementTypes .coverage, functionTokens .loose,
    functionTokens .strict]

def default : Strategy := functionTokens .loose

def name : Strategy → String
  | literals .jaccard => "literals-jaccard"
  | literals .coverage => "literals-coverage"
  | functionNames .jaccard => "function-names-jaccard"
  | functionNames .coverage => "function-names-coverage"
  | statementTypes .jaccard => "statement-types-jaccard"
  | statementTypes .coverage => "statement-types-coverage"
  | functionTokens .loose => "function-tokens-loose"
  | functionTokens .strict => "function-tokens-strict"

def ofName? (name : String) : Option Strategy := all.find? (·.name == name)

end Strategy

end Fingerprint
