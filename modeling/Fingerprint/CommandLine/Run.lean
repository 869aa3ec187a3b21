import Fingerprint.CommandLine.Grammar
import Fingerprint.Files
import Fingerprint.Language
import Fingerprint.Settings
import Fingerprint.Signature.Json
/-!
# Runs

Runs a command over the files it can see.
-/

namespace Fingerprint

inductive RunError where
  | fileNotFound (path : String)
  | unsupportedLanguage (extension : String)
  /-- There is no tree for a source. -/
  | unparsed
  | fault (fault : Fault)
  | settings (error : SettingsError)
  | unreadable (error : ReadError)
  /-- A file of the corpus cannot be read. -/
  | unreadableLibrary (path : String) (error : ReadError)
  deriving DecidableEq, Repr

namespace RunError

def message : RunError → String
  | .fileNotFound path => "File not found: " ++ path
  | .unsupportedLanguage extension => "Unsupported language for extension: " ++ extension
  | .unparsed => "Failed to parse source: no tree"
  | .fault cause => cause.message
  | .settings cause => "Configuration error: " ++ cause.message
  | .unreadable cause => "IO error: " ++ cause.message
  | .unreadableLibrary path _ => "reading library signature " ++ path

def chain (error : RunError) : String :=
  match error with
  | .unreadable cause => error.message ++ ": " ++ cause.message
  | .unreadableLibrary _ cause => error.message ++ ": " ++ cause.message
  | _ => error.message

def exitCode : RunError → Nat
  | .fileNotFound _ | .unreadable _ | .unreadableLibrary .. => 1
  | .unsupportedLanguage _ => 2
  | .unparsed => 3
  | .fault (.malformed ..) => 4
  | .settings _ => 5
  | .fault (.torn _) => 134

end RunError

namespace CommandLine

/-- The settings of a run; without a file they are the default ones. -/
def settingsOf (files : Files) (config : Option String) : Except RunError Settings :=
  match config with
  | none => .ok {}
  | some path =>
    if !files.hasPath path then .ok {}
    else
      match files.read path with
      | .error error => .error (.unreadable error)
      | .ok text => (Settings.ofText text).mapError .settings

def signatureOf (files : Files) (options : TokenOptions) (path : String) :
    Except RunError Signature :=
  match files.content? path with
  | none => .error (.fileNotFound path)
  | some content =>
    match Language.ofPath path with
    | .error extension => .error (.unsupportedLanguage extension)
    | .ok _ =>
      match content with
      | .directory => .error (.unreadable .isDirectory)
      | .bytes => .error (.unreadable .notUtf8)
      | .text _ => .error .unparsed
      | .source _ tree => (Signature.extract options ⟨tree, []⟩).mapError .fault

/-- The id that the name of a library's file gives. -/
def libraryOfName? (name : String) : Option LibraryId :=
  match Path.splitExtension name with
  | (stem, some "json") => LibraryId.ofText? stem
  | _ => none

/-- Reads the signature of one file of a corpus.  Names that are no ids and texts that are no
signatures are skipped. -/
def loadLibrary (files : Files) (directory name : String) :
    Except RunError (Option (LibraryId × Signature)) :=
  match libraryOfName? name with
  | none => .ok none
  | some id =>
    let path := Path.join directory name
    match files.read path with
    | .error error => .error (.unreadableLibrary path error)
    | .ok text => .ok ((Signature.ofText? text).map (id, ·))

/-- Loads the corpus in a directory, its files in the order of their names. -/
def loadCorpus (files : Files) (directory : String) : Except RunError Corpus :=
  if !files.isDirectoryPath directory then .error (.fileNotFound directory)
  else do
    let loaded ← (files.namesIn directory).mapM (loadLibrary files directory)
    pure (Corpus.ofEntries (loaded.filterMap id))

def optionsOf (settings : Settings) (skipDeclarations : Bool) : TokenOptions :=
  if skipDeclarations then { settings.extract with mode := .skipDeclarations }
  else settings.extract

def runExtract (files : Files) (settings : Settings) (r : ExtractRequest) :
    Except RunError Json := do
  let signature ← signatureOf files (optionsOf settings r.skipDeclarations) r.file
  pure signature.toJson

def rankOptionsOf (settings : Settings) (r : MatchRequest) : RankOptions where
  topN := r.topN.getD settings.rank.topN
  useCandidateFilter := settings.rank.useCandidateFilter && !r.noCandidateFilter
  fallbackToFullCorpus := settings.rank.fallbackToFullCorpus

def runMatch (files : Files) (settings : Settings) (r : MatchRequest) :
    Except RunError Json := do
  let unknown ← signatureOf files (optionsOf settings r.skipDeclarations) r.file
  let corpus ← loadCorpus files r.corpus
  let strategy := r.strategy.getD settings.strategy
  pure (rankingToJson (corpus.rank strategy (rankOptionsOf settings r) unknown))

/-- The signature of one file of several; whatever fails for it only leaves it out. -/
def unitOf (files : Files) (options : TokenOptions) (path : String) :
    Except RunError (Option (String × Signature)) :=
  match signatureOf files options path with
  | .ok signature => .ok (some (path, signature))
  | .error (.fault (.torn kind)) => .error (.fault (.torn kind))
  | .error _ => .ok none

def runCandidates (files : Files) (settings : Settings) (r : CandidatesRequest) :
    Except RunError Json := do
  let corpus ← loadCorpus files r.corpus
  let units ← r.files.mapM (unitOf files settings.extract)
  pure (.object ((candidateMap corpus (units.filterMap id)).map fun (name, ids) =>
    (name, .array (ids.map LibraryId.toJson))))

def run (files : Files) (line : CommandLine) : Except RunError String := do
  let settings ← settingsOf files line.config
  let print (pretty : Bool) (json : Json) : String := if pretty then json.pretty else json.compact
  match line.command with
  | .extract r => return print r.pretty (← runExtract files settings r)
  | .matching r => return print r.pretty (← runMatch files settings r)
  | .candidates r => return print r.pretty (← runCandidates files settings r)

/-! ## Outcomes -/

structure Outcome where
  exitCode : Nat := 0
  output : String := ""
  error : Option String := none
  deriving DecidableEq, Repr

def programName : String := "jsfinger"

def versionText (command : Option String) : String :=
  match command with
  | none => programName ++ " 0.1.0"
  | some name => programName ++ "-" ++ name ++ " 0.1.0"

def helpText : String :=
  "Identify embedded JavaScript libraries by structural signature\n\n" ++
    "Usage: " ++ programName ++ " [OPTIONS] <extract|match|candidates>"

def outcome (files : Files) (arguments : List String) : Outcome :=
  match ofArguments arguments with
  | .error (.refused _) => { exitCode := 2, error := some "usage" }
  | .error .help => { output := helpText ++ "\n" }
  | .error (.version command) => { output := versionText command ++ "\n" }
  | .ok line =>
    match run files line with
    | .ok text => { output := text ++ "\n" }
    | .error (.fault (.torn kind)) => { exitCode := (RunError.fault (.torn kind)).exitCode }
    | .error error => { exitCode := error.exitCode, error := some ("Error: " ++ error.chain) }

end CommandLine

end Fingerprint
