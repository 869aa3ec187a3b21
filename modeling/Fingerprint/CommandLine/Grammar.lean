import Fingerprint.CommandLine.Basic
import Fingerprint.Double.Basic
/-!
# Grammar of command lines

A command line has two levels, the program's own options and those of a subcommand.  At each level
arguments are taken one by one; a value is checked only when the next option or file begins, or at
the end of the level.
-/

namespace Fingerprint.CommandLine

/-- What the value of an option has to be. -/
inductive ValueKind where
  | path
  | strategy
  | count
  deriving DecidableEq, Repr

inductive OptionKind where
  | flag
  | value (kind : ValueKind)
  | help
  | version
  deriving DecidableEq, Repr

structure OptionRule where
  long : String
  short : Option Char := none
  kind : OptionKind
  deriving DecidableEq, Repr

inductive FileCount where
  | none
  | one
  | many
  deriving DecidableEq, Repr

structure Level where
  /-- The subcommand of the level, none for the program itself. -/
  name : Option String
  options : List OptionRule
  files : FileCount
  required : List String
  deriving DecidableEq, Repr

def commonOptions : List OptionRule :=
  [⟨"config", some 'c', .value .path⟩, ⟨"verbose", some 'v', .flag⟩, ⟨"help", some 'h', .help⟩,
    ⟨"version", some 'V', .version⟩]

def flagRule (long : String) : OptionRule := ⟨long, none, .flag⟩

def valueRule (long : String) (kind : ValueKind) : OptionRule := ⟨long, none, .value kind⟩

def rootLevel : Level := ⟨none, commonOptions, .none, []⟩

def extractLevel : Level :=
  ⟨some "extract", commonOptions ++ [flagRule "skip-declarations", flagRule "pretty"], .one, []⟩

def matchLevel : Level :=
  ⟨some "match",
    commonOptions ++ [valueRule "corpus" .path, valueRule "strategy" .strategy,
      valueRule "top-n" .count, flagRule "no-candidate-filter", flagRule "skip-declarations",
      flagRule "pretty"],
    .one, ["corpus"]⟩

def candidatesLevel : Level :=
  ⟨some "candidates", commonOptions ++ [valueRule "corpus" .path, flagRule "pretty"], .many,
    ["corpus"]⟩

def subcommands : List (String × Level) :=
  [("extract", extractLevel), ("x", extractLevel), ("match", matchLevel), ("m", matchLevel),
    ("candidates", candidatesLevel), ("c", candidatesLevel)]

/-! ## Values -/

/-- A natural number below `2 ^ 64`, with an optional plus sign. -/
def count? (text : String) : Option Nat :=
  let digits := match text.toList with
    | '+' :: rest => rest
    | digits => digits
  if digits.isEmpty ∨ !digits.all Char.isDigit then none
  else
    let n := digits.foldl (fun n c => 10 * n + (c.toNat - '0'.toNat)) 0
    if n < twoPow 64 then some n else none

def ValueKind.refusal? (kind : ValueKind) (text : String) : Option UsageError :=
  match kind with
  | path => if text.isEmpty then some .invalidValue else none
  | strategy => if (Strategy.ofName? text).isSome then none else some .valueValidation
  | count => if (count? text).isSome then none else some .valueValidation

/-! ## Reading one level -/

/-- What has been given and checked at a level. -/
structure Given where
  flags : List String := []
  values : List (String × String) := []
  files : List String := []
  deriving DecidableEq, Repr

namespace Given

def has (given : Given) (long : String) : Bool :=
  given.flags.contains long || (given.values.lookup long).isSome

def isEmpty (given : Given) : Bool :=
  given.flags.isEmpty && given.values.isEmpty && given.files.isEmpty

end Given

/-- What has been given and is not checked yet. -/
inductive Pending where
  | nothing
  /-- An option that takes a value, with the value if it has come. -/
  | option (long : String) (kind : ValueKind) (value : Option String)
  /-- Files that follow each other, the last first. -/
  | files (names : List String)
  deriving DecidableEq, Repr

structure Scan where
  given : Given := {}
  pending : Pending := .nothing
  filesOnly : Bool := false
  deriving DecidableEq, Repr

def refuse {α : Type} (error : UsageError) : Except Halt α := .error (.refused error)

namespace Scan

def setValue (given : Given) (long : String) (kind : ValueKind) (value : String) :
    Except Halt Given :=
  if given.has long then refuse .argumentConflict
  else match kind.refusal? value with
    | some error => refuse error
    | none => .ok { given with values := given.values ++ [(long, value)] }

def settle (scan : Scan) : Except Halt Scan :=
  match scan.pending with
  | .nothing => .ok scan
  | .option _ _ none => refuse .invalidValue
  | .option long kind (some value) => do
    let given ← setValue scan.given long kind value
    pure { scan with given := given, pending := .nothing }
  | .files names =>
    if names.any String.isEmpty then refuse .invalidValue
    else
      let given := { scan.given with files := scan.given.files ++ names.reverse }
      .ok { scan with given := given, pending := .nothing }

def awaitsValue (scan : Scan) : Bool :=
  match scan.pending with
  | .option _ _ none => true
  | _ => false

def takeFlag (level : Level) (scan : Scan) (rule : OptionRule) : Except Halt Scan := do
  let scan ← scan.settle
  match rule.kind with
  | .help => .error .help
  | .version => .error (.version level.name)
  | _ =>
    if scan.given.has rule.long then refuse .argumentConflict
    else
      let given := { scan.given with flags := scan.given.flags ++ [rule.long] }
      pure { scan with given := given }

/-- Takes an option that has a value, which can be attached to it. -/
def takeOption (scan : Scan) (rule : OptionRule) (kind : ValueKind) (attached : Option String) :
    Except Halt Scan := do
  let scan ← scan.settle
  match attached with
  | some value =>
    let given ← setValue scan.given rule.long kind value
    pure { scan with given := given }
  | none => pure { scan with pending := .option rule.long kind none }

/-- Splits a long option at its first equals sign. -/
def splitValue (text : List Char) : List Char × Option (List Char) :=
  match text.span (· ≠ '=') with
  | (name, []) => (name, none)
  | (name, _ :: value) => (name, some value)

/-- Takes a long option, given without its dashes. -/
def takeLong (level : Level) (scan : Scan) (text : List Char) : Except Halt Scan :=
  let (name, value) := splitValue text
  match level.options.find? (·.long == String.ofList name) with
  | none => refuse .unknownArgument
  | some rule =>
    match rule.kind, value with
    | .value kind, value => scan.takeOption rule kind (value.map String.ofList)
    | _, some _ => refuse .tooManyValues
    | _, none => scan.takeFlag level rule

/-- Takes a group of short options, given without its dash.  An option with a value takes the
rest of the group for it. -/
def takeShort (level : Level) (scan : Scan) : List Char → Except Halt Scan
  | [] => .ok scan
  | c :: rest =>
    match level.options.find? (·.short == some c) with
    | none => refuse .unknownArgument
    | some rule =>
      match rule.kind with
      | .value kind =>
        let attached :=
          match rest with
          | [] => none
          | '=' :: value => some (String.ofList value)
          | value => some (String.ofList value)
        scan.takeOption rule kind attached
      | _ => do
        let scan ← scan.takeFlag level rule
        takeShort level scan rest

def takeFile (level : Level) (scan : Scan) (name : String) : Except Halt Scan :=
  match level.files with
  | .none =>
    if scan.filesOnly && (subcommands.lookup name).isSome || scan.filesOnly && name == "help" then
      refuse .unknownArgument
    else refuse .invalidSubcommand
  | .one =>
    match scan.pending with
    | .files _ => refuse .unknownArgument
    | _ =>
      if scan.given.files.isEmpty then do
        let scan ← scan.settle
        pure { scan with pending := .files [name] }
      else refuse .unknownArgument
  | .many =>
    match scan.pending with
    | .files names => .ok { scan with pending := .files (name :: names) }
    | _ => do
      let scan ← scan.settle
      pure { scan with pending := .files [name] }

def take (level : Level) (scan : Scan) (argument : String) : Except Halt Scan :=
  if scan.filesOnly then scan.takeFile level argument
  else
    match argument.toList with
    | ['-', '-'] => .ok { scan with filesOnly := true }
    | '-' :: '-' :: text => scan.takeLong level text
    | '-' :: c :: text => scan.takeShort level (c :: text)
    | _ =>
      match scan.pending with
      | .option long kind none => .ok { scan with pending := .option long kind (some argument) }
      | _ => scan.takeFile level argument

end Scan

/-! ## Both levels -/

def readSubcommand (level : Level) (arguments : List String) : Except Halt Given := do
  let scan ← arguments.foldlM (Scan.take level) {}
  let given := (← scan.settle).given
  if given.files.isEmpty ∨ !level.required.all given.has then refuse .missingRequiredArgument
  else pure given

/-- What `help` shows depends on the names after it. -/
def readHelp (names : List String) : Halt :=
  match names with
  | [] => .help
  | [name] =>
    if (subcommands.lookup name).isSome ∨ name = "help" then .help
    else .refused .invalidSubcommand
  | _ => .refused .invalidSubcommand

/-- The end of the program's own level without a subcommand. -/
def withoutSubcommand (scan : Scan) : Except Halt (Given × Level × Given) := do
  let scan ← scan.settle
  refuse (if scan.given.isEmpty then .missingEverything else .missingSubcommand)

/-- Reads the program's own options, then the subcommand, and checks what was pending between
them last. -/
def readLevels (scan : Scan) : List String → Except Halt (Given × Level × Given)
  | [] => withoutSubcommand scan
  | argument :: rest =>
    if scan.filesOnly ∨ scan.awaitsValue then do
      readLevels (← scan.take rootLevel argument) rest
    else
      match subcommands.lookup argument with
      | some level => do
        let given ← readSubcommand level rest
        let scan ← scan.settle
        pure (scan.given, level, given)
      | none =>
        if argument = "help" then .error (readHelp rest)
        else do readLevels (← scan.take rootLevel argument) rest

def commandOf (level : Level) (given : Given) : Command :=
  let file := given.files.headD ""
  let corpus := (given.values.lookup "corpus").getD ""
  let flag (long : String) : Bool := given.flags.contains long
  if level = extractLevel then
    .extract
      { file := file, skipDeclarations := flag "skip-declarations", pretty := flag "pretty" }
  else if level = matchLevel then
    .matching
      { file := file
        corpus := corpus
        strategy := (given.values.lookup "strategy").bind Strategy.ofName?
        topN := (given.values.lookup "top-n").bind count?
        noCandidateFilter := flag "no-candidate-filter"
        skipDeclarations := flag "skip-declarations"
        pretty := flag "pretty" }
  else .candidates { files := given.files, corpus := corpus, pretty := flag "pretty" }

/-- Reads the arguments of the program.  The common options can stand at both levels; the value of
the inner one counts. -/
def ofArguments (arguments : List String) : Except Halt CommandLine := do
  let (outer, level, inner) ← readLevels {} arguments
  pure
    { config := (inner.values.lookup "config") <|> (outer.values.lookup "config")
      verbose := outer.flags.contains "verbose" || inner.flags.contains "verbose"
      command := commandOf level inner }

end Fingerprint.CommandLine
