/-!
# Library ids

A library is identified by its name and version, written with an at sign between them.
-/

namespace Fingerprint

structure LibraryId where
  name : String
  version : String
  deriving DecidableEq, Repr

namespace LibraryId

def text (id : LibraryId) : String := id.name ++ "@" ++ id.version

/-- Splits a list at its last at sign. -/
def splitLast? : List Char → Option (List Char × List Char)
  | [] => none
  | c :: rest =>
    match splitLast? rest with
    | some (before, after) => some (c :: before, after)
    | none => if c = '@' then some ([], rest) else none

/-- Reads an id.  Names can hold at signs, versions cannot, and neither is empty. -/
def ofText? (text : String) : Option LibraryId :=
  match splitLast? text.toList with
  | some (name, version) =>
    if name.isEmpty ∨ version.isEmpty then none
    else some ⟨String.ofList name, String.ofList version⟩
  | none => none

/-- By name, then by version. -/
def le (a b : LibraryId) : Bool :=
  decide (a.name < b.name) || (a.name == b.name && decide (a.version ≤ b.version))

end LibraryId

end Fingerprint
