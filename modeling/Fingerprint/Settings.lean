import Fingerprint.Corpus.Basic
import Fingerprint.Json.Value
import Fingerprint.Toml.Document
/-!
# Settings

The settings of a run come from a TOML document in which everything is optional.
-/

namespace Fingerprint

structure Settings where
  extract : TokenOptions := {}
  strategy : Strategy := .default
  rank : RankOptions := {}
  logLevel : String := "info"
  deriving DecidableEq, Repr

inductive SettingsError where
  /-- The text is no document, or a setting has a value of the wrong kind. -/
  | unreadable
  | unknownLevel (level : String)
  /-- A ranking has to have room for a library. -/
  | emptyRanking
  deriving DecidableEq, Repr

def logLevels : List String := ["error", "warn", "info", "debug", "trace"]

def SettingsError.message : SettingsError → String
  | .unreadable => "Failed to parse config"
  | .unknownLevel level =>
    "Invalid log level: " ++ level ++ ". Must be one of: " ++ String.intercalate ", " logLevels
  | .emptyRanking => "matching.top_n must be at least 1"

namespace TokenMode

def name : TokenMode → String
  | full => "full"
  | skipDeclarations => "skip-declarations"

def ofName? (name : String) : Option TokenMode :=
  [full, skipDeclarations].find? (·.name == name)

end TokenMode

/-! ## Reading -/

namespace Toml.Value

def text? : Value → Option String
  | text s => some s
  | _ => none

def bool? : Value → Option Bool
  | bool b => some b
  | _ => none

def natural? : Value → Option Nat
  | integer n => if 0 ≤ n then some n.toNat else none
  | _ => none

/-- Whether an array or a table has nothing in it. -/
def isEmpty : Value → Bool
  | array [] | table _ [] | tables [] => true
  | _ => false

/-- A name, given as a text or as the one key of a table with an empty value. -/
def tag? : Value → Option String
  | text s => some s
  | table _ [(key, value)] => if value.isEmpty then some key else none
  | _ => none

/-- The values of a section whose settings have these names: a table, or an array of the values
in order.  Others are ignored. -/
def section? (names : List String) : Value → Option (List (Option Value))
  | table _ fields => some (names.map fun name => fields.lookup name)
  | array items => some ((List.range names.length).map (items[·]?))
  | tables items =>
    some ((List.range names.length).map fun i => items[i]?.map (table .header))
  | _ => none

end Toml.Value

namespace Settings

open Toml

def setting? {α : Type} (default : α) (read : Value → Option α) : Option Value → Option α
  | some v => read v
  | none => some default

def readExtract? (v : Value) : Option TokenOptions := do
  match ← v.section? ["mode", "max_expression_depth"] with
  | [mode, depth] =>
    return ⟨← setting? .full (fun v => v.tag?.bind TokenMode.ofName?) mode,
      ← setting? 256 Value.natural? depth⟩
  | _ => none

def readMatching? (v : Value) : Option (Strategy × RankOptions) := do
  let names := ["strategy", "top_n", "use_candidate_filter", "fallback_to_full_corpus"]
  match ← v.section? names with
  | [strategy, topN, filter, fallback] =>
    return (← setting? .default (fun v => v.text?.bind Strategy.ofName?) strategy,
      ⟨← setting? 100 Value.natural? topN, ← setting? true Value.bool? filter,
        ← setting? true Value.bool? fallback⟩)
  | _ => none

def readLogging? (v : Value) : Option String := do
  match ← v.section? ["level"] with
  | [level] => setting? "info" Value.text? level
  | _ => none

def ofFields? (fields : Fields) : Option Settings := do
  let (strategy, rank) ←
    setting? (.default, {}) readMatching? (fields.lookup "matching")
  return {
    extract := ← setting? {} readExtract? (fields.lookup "extract")
    strategy := strategy
    rank := rank
    logLevel := ← setting? "info" readLogging? (fields.lookup "logging") }

/-- Checks what a document cannot say by its form. -/
def check (s : Settings) : Except SettingsError Settings :=
  if !logLevels.contains s.logLevel then .error (.unknownLevel s.logLevel)
  else if s.rank.topN = 0 then .error .emptyRanking
  else .ok s

def ofText (text : String) : Except SettingsError Settings :=
  match (Toml.ofText? text).bind ofFields? with
  | some s => s.check
  | none => .error .unreadable

/-! ## Writing -/

def text (s : Settings) : String :=
  "[extract]\n" ++
  "mode = \"" ++ s.extract.mode.name ++ "\"\n" ++
  "max_expression_depth = " ++ toString s.extract.maxDepth ++ "\n\n" ++
  "[matching]\n" ++
  "strategy = \"" ++ s.strategy.name ++ "\"\n" ++
  "top_n = " ++ toString s.rank.topN ++ "\n" ++
  "use_candidate_filter = " ++ toString s.rank.useCandidateFilter ++ "\n" ++
  "fallback_to_full_corpus = " ++ toString s.rank.fallbackToFullCorpus ++ "\n\n" ++
  "[logging]\n" ++
  "level = \"" ++ s.logLevel ++ "\"\n"

def toJson (s : Settings) : Json :=
  .object [
    ("extract", .object [("mode", .text s.extract.mode.name),
      ("max_expression_depth", .natural s.extract.maxDepth)]),
    ("matching", .object [("strategy", .text s.strategy.name),
      ("top_n", .natural s.rank.topN),
      ("use_candidate_filter", .bool s.rank.useCandidateFilter),
      ("fallback_to_full_corpus", .bool s.rank.fallbackToFullCorpus)]),
    ("logging", .object [("level", .text s.logLevel)])]

end Settings

end Fingerprint
