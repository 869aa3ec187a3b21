import Fingerprint.Corpus.Basic
import Fingerprint.Json.Document
import Fingerprint.Json.Value
/-!
# Signatures and rankings as JSON

How signatures and rankings are written and read.  Integers among the literals are written without
a point; records can be read from an object or from an array of their fields.
-/

namespace Fingerprint

/-! ## Writing -/

def textsToJson (texts : List String) : Json := .array (texts.map .text)

def Literal.toJson : Literal → Json
  | number value =>
    match value.safeInteger? with
    | some n => .integer n
    | none => .number value
  | text value => .text value

def FunctionSignature.toJson (f : FunctionSignature) : Json :=
  .object [("type", .text f.type), ("name", .text f.name), ("index", .natural f.index),
    ("fnStatementTypes", textsToJson f.statementTypes),
    ("fnStatementTokens", textsToJson f.statementTokens)]

namespace Signature

def fields (s : Signature) : List (String × Json) :=
  [("functionSignature", .array (s.functions.map FunctionSignature.toJson)),
    ("literalSignature", .array (s.literals.map Literal.toJson))]

def toJson (s : Signature) : Json := .object s.fields

end Signature

namespace Confidence

def fields (c : Confidence) : List (String × Json) :=
  [("val", .number c.val), ("num", .natural c.num), ("den", .natural c.den)]

def toJson (c : Confidence) : Json := .object c.fields

end Confidence

def FunctionMatch.toJson (m : FunctionMatch) : Json :=
  .object [("unknownIndex", .natural m.unknownIndex), ("matchedIndex", .natural m.matchedIndex),
    ("prob", m.prob.toJson)]

namespace Comparison

/-- The fields of a comparison; an empty list of matches is left out. -/
def fields (c : Comparison) : List (String × Json) :=
  c.confidence.fields ++
    if c.matched.isEmpty then [] else [("matches", .array (c.matched.map FunctionMatch.toJson))]

def toJson (c : Comparison) : Json := .object c.fields

end Comparison

def LibraryId.toJson (id : LibraryId) : Json := .text id.text

def RankedLibrary.toJson (r : RankedLibrary) : Json :=
  .object (("library", r.library.toJson) :: r.comparison.fields)

def rankingToJson (ranking : List RankedLibrary) : Json :=
  .array (ranking.map RankedLibrary.toJson)

/-! ## Reading -/

namespace Document

def required? {α : Type} (read : Document → Option α) (field : Option Document) : Option α :=
  field.bind read

def optional? {α : Type} (default : α) (read : Document → Option α) :
    Option Document → Option α
  | some d => read d
  | none => some default

end Document

open Document

def Literal.ofDocument? (d : Document) : Option Literal :=
  (d.text?.map .text) <|> (d.double?.map .number)

def FunctionSignature.ofDocument? (d : Document) : Option FunctionSignature := do
  let values ← d.record?
    ["type", "name", "index", "fnStatementTypes", "fnStatementTokens"]
  match values with
  | [type, name, index, types, tokens] =>
    return {
      type := ← optional? "fn" text? type
      name := ← required? text? name
      index := ← required? natural? index
      statementTypes := ← optional? [] (list? text?) types
      statementTokens := ← optional? [] (list? text?) tokens }
  | _ => none

namespace Signature

def ofDocument? (d : Document) : Option Signature := do
  let values ← d.record? ["functionSignature", "literalSignature"]
  match values with
  | [functions, literals] =>
    return {
      functions := ← optional? [] (list? FunctionSignature.ofDocument?) functions
      literals := ← optional? [] (list? Literal.ofDocument?) literals }
  | _ => none

def ofText? (text : String) : Option Signature := (Document.ofText? text).bind ofDocument?

end Signature

namespace Confidence

def ofFields? : List (Option Document) → Option Confidence
  | [val, num, den] => do
    return ⟨← required? double? val, ← required? natural? num, ← required? natural? den⟩
  | _ => none

def ofDocument? (d : Document) : Option Confidence :=
  (d.record? ["val", "num", "den"]).bind ofFields?

end Confidence

def FunctionMatch.ofDocument? (d : Document) : Option FunctionMatch := do
  let values ← d.record? ["unknownIndex", "matchedIndex", "prob"]
  match values with
  | [unknown, matched, prob] =>
    return ⟨← required? natural? unknown, ← required? natural? matched,
      ← required? Confidence.ofDocument? prob⟩
  | _ => none

namespace RankedLibrary

def libraryOf? (d : Document) : Option LibraryId := d.text?.bind LibraryId.ofText?

/-- Reads one library of a ranking, which is an object.  Fields that it does not know have to be
readable all the same. -/
def ofDocument? (d : Document) : Option RankedLibrary := do
  let fields ← match d with
    | .object fields => some fields
    | _ => none
  if !fieldsReadable (nestingLimit - 2) fields then none
  let values ← d.record? ["library", "val", "num", "den", "matches"]
  match values with
  | [library, val, num, den, found] =>
    return {
      library := ← required? libraryOf? library
      comparison :=
        { confidence := ← Confidence.ofFields? [val, num, den]
          matched := ← optional? [] (list? FunctionMatch.ofDocument?) found } }
  | _ => none

def ofText? (text : String) : Option (List RankedLibrary) :=
  (Document.ofText? text).bind (list? ofDocument?)

end RankedLibrary

end Fingerprint
