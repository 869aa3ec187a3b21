import Fingerprint.Files
/-!
# Languages

The languages of the JavaScript family, told apart by the extensions of their files.
-/

namespace Fingerprint

inductive Language where
  | javaScript
  | jsx
  | typeScript
  | tsx
  deriving DecidableEq, Repr

namespace Language

def default : Language := javaScript

def name : Language → String
  | javaScript => "javascript"
  | jsx => "jsx"
  | typeScript => "typescript"
  | tsx => "tsx"

def all : List Language := [javaScript, jsx, typeScript, tsx]

def ofName? (name : String) : Option Language := all.find? (·.name == name)

def extensions : List (String × Language) :=
  [("js", javaScript), ("mjs", javaScript), ("cjs", javaScript), ("bundle", javaScript),
    ("jsbundle", javaScript), ("jsx", jsx), ("ts", typeScript), ("mts", typeScript),
    ("cts", typeScript), ("tsx", tsx)]

/-- The language of an extension in any case.  The only letter outside ASCII that has a lower case
inside is the sign for kelvin, and no extension has a k, so ASCII letters are all that matter. -/
def ofExtension? (extension : String) : Option Language := extensions.lookup extension.toLower

/-- The language of a file, or the extension that is not supported. -/
def ofPath (path : String) : Except String Language :=
  match Path.extension? path with
  | none => .error "none"
  | some extension =>
    match ofExtension? extension with
    | some language => .ok language
    | none => .error extension

end Language

end Fingerprint
