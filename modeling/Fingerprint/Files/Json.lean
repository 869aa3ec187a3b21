import Fingerprint.Files
import Fingerprint.Json.Document
import Fingerprint.Tree.Rows
/-!
# Files as JSON

Files are handed in as an object from paths to contents: a string is a text, an object with
`source` and `tree` is a source text with its tree, one with `hex` holds bytes, and an empty one is
a directory.
-/

namespace Fingerprint

namespace Document

/-- The value of the last field with a name. -/
def get? (d : Document) (name : String) : Option Document :=
  d.fields?.bind fun fields => fields.reverse.lookup name

end Document

/-- One row of a tree: kind, named flag, field or null, start, stop and number of children. -/
def Row.ofDocument? (d : Document) : Option Row :=
  match d.array? with
  | some [kind, named, field, start, stop, children] => do
    return {
      kind := ← kind.text?
      named := (← named.natural?) == 1
      field := ← match field with
        | .null => some none
        | field => field.text?.map some
      start := ← start.natural?
      stop := ← stop.natural?
      children := ← children.natural? }
  | _ => none

def Node.ofDocument? (source : String) (d : Document) : Option Node :=
  (d.list? Row.ofDocument?).bind (Node.ofRows? source)

/-- The bytes that pairs of hexadecimal digits spell. -/
def bytesOfHex? : List Char → Option (List UInt8)
  | [] => some []
  | a :: b :: rest => do
    let high ← Document.State.hexDigit? a
    let low ← Document.State.hexDigit? b
    return UInt8.ofNat (16 * high + low) :: (← bytesOfHex? rest)
  | [_] => none

def FileContent.ofBytes (bytes : List UInt8) : FileContent :=
  match String.fromUTF8? ⟨bytes.toArray⟩ with
  | some content => .text content
  | none => .bytes

def FileContent.ofDocument? (d : Document) : Option FileContent :=
  match d.fields?, d.get? "source", d.get? "hex" with
  | some [], _, _ => some .directory
  | _, some written, _ => do
    let content ← written.text?
    return .source content (← Node.ofDocument? content (← d.get? "tree"))
  | _, none, some digits => (digits.text?.bind fun t => bytesOfHex? t.toList).map ofBytes
  | _, none, none => d.text?.map .text

namespace Files

/-- The location of a relative path without steps back. -/
def location (path : String) : List String :=
  (path.splitOn "/").filter fun name => name ≠ "" ∧ name ≠ "."

def ofDocument? (d : Document) : Option Files := do
  (← d.fields?).mapM fun (path, content) =>
    return (location path, ← FileContent.ofDocument? content)

end Files

end Fingerprint
