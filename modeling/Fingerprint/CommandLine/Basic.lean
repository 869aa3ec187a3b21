import Fingerprint.Matching.Strategy
/-!
# Command lines

What a command line asks for, and why one is refused.
-/

namespace Fingerprint

/-- Prints the signature of a file. -/
structure ExtractRequest where
  file : String
  skipDeclarations : Bool := false
  pretty : Bool := false
  deriving DecidableEq, Repr

/-- Ranks the libraries of a corpus by their likeness to a file. -/
structure MatchRequest where
  file : String
  corpus : String
  strategy : Option Strategy := none
  topN : Option Nat := none
  noCandidateFilter : Bool := false
  skipDeclarations : Bool := false
  pretty : Bool := false
  deriving DecidableEq, Repr

/-- Prints the candidate libraries of several files. -/
structure CandidatesRequest where
  files : List String
  corpus : String
  pretty : Bool := false
  deriving DecidableEq, Repr

inductive Command where
  | extract (request : ExtractRequest)
  | matching (request : MatchRequest)
  | candidates (request : CandidatesRequest)
  deriving DecidableEq, Repr

structure CommandLine where
  config : Option String := none
  verbose : Bool := false
  command : Command
  deriving DecidableEq, Repr

inductive UsageError where
  | unknownArgument
  /-- A value is missing, or empty where it names a file. -/
  | invalidValue
  /-- A value is none of those that its option takes. -/
  | valueValidation
  /-- An option is given twice. -/
  | argumentConflict
  | missingRequiredArgument
  /-- A value is attached to an option that takes none. -/
  | tooManyValues
  | invalidSubcommand
  | missingSubcommand
  | missingEverything
  deriving DecidableEq, Repr

inductive Halt where
  | refused (error : UsageError)
  | help
  /-- Shows the version, of a subcommand if one is named. -/
  | version (command : Option String)
  deriving DecidableEq, Repr

end Fingerprint
