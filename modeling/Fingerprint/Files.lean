import Fingerprint.Tree.Node
/-!
# Files

The files a run can see: their contents by the names on the way to them.  Every name on the way is
a directory.  Above the directory of the run there are directories too, with nothing else in them
that can be seen.
-/

namespace Fingerprint

/-! ## Paths -/

namespace Path

/-- The last name of a path, if it names a file: separators and single dots at the end do not
count, and two dots are no name. -/
def fileName? (path : String) : Option String :=
  let names := (path.splitOn "/").filter fun name => name ≠ "" ∧ name ≠ "."
  names.getLast?.filter (· ≠ "..")

/-- Splits a name at its last dot.  A name without a dot, or with none but a leading one, has no
extension. -/
def splitExtension (name : String) : String × Option String :=
  let reversed := name.toList.reverse
  let extension := reversed.takeWhile (· ≠ '.')
  match reversed.drop (extension.length + 1) with
  | [] => (name, none)
  | stem => (String.ofList stem.reverse, some (String.ofList extension.reverse))

def extension? (path : String) : Option String := (fileName? path).bind (splitExtension · |>.2)

def join (directory name : String) : String :=
  if directory.endsWith "/" then directory ++ name else directory ++ "/" ++ name

end Path

/-! ## Contents -/

inductive FileContent where
  | text (content : String)
  | source (content : String) (tree : Node)
  /-- Bytes that are no text. -/
  | bytes
  | directory

inductive ReadError where
  | notUtf8
  | isDirectory
  deriving DecidableEq, Repr

def ReadError.message : ReadError → String
  | .notUtf8 => "stream did not contain valid UTF-8"
  | .isDirectory => "Is a directory (os error 21)"

/-- Contents by location; a location is the list of names on the way from the directory of the
run.  The locations above it consist of steps up. -/
abbrev Files := List (List String × FileContent)

namespace Files

/-- Whether a location is the directory of the run or one above it. -/
def isAbove (location : List String) : Bool := location.all (· == "..")

/-- Whether a location is a directory, given as such or on the way to another file. -/
def isDirectory (files : Files) (location : List String) : Bool :=
  isAbove location || files.any fun (other, content) =>
    (other == location && match content with
      | .directory => true
      | _ => false) ||
      (location.length < other.length && other.take location.length == location)

/-- Goes on from a location by one name of a path.  Only directories can be gone on from. -/
def enter (files : Files) (location : Option (List String)) (name : String) :
    Option (List String) :=
  location.bind fun location =>
    if !files.isDirectory location then none
    else if name.isEmpty ∨ name = "." then some location
    else if name = ".." then
      if isAbove location then some (location ++ [".."]) else some location.dropLast
    else some (location ++ [name])

/-- The location that a path leads to.  Absolute paths start above the directory of the run. -/
def locate? (files : Files) (path : String) : Option (List String) :=
  if path.isEmpty then none
  else (path.splitOn "/").foldl files.enter (some (if path.startsWith "/" then [".."] else []))

def content? (files : Files) (path : String) : Option FileContent :=
  (files.locate? path).bind fun location =>
    if files.isDirectory location then some .directory
    else files.lookup location

def hasPath (files : Files) (path : String) : Bool := (files.content? path).isSome

def isDirectoryPath (files : Files) (path : String) : Bool :=
  match files.content? path with
  | some .directory => true
  | _ => false

/-- The names in a directory, in ascending order. -/
def namesIn (files : Files) (path : String) : List String :=
  match files.locate? path with
  | none => []
  | some location =>
    let names := files.filterMap fun (other, _) =>
      if other.take location.length = location then other[location.length]? else none
    names.eraseDups.mergeSort fun a b => decide (a ≤ b)

/-- The text of a file; a missing one has none. -/
def read (files : Files) (path : String) : Except ReadError String :=
  match files.content? path with
  | some (.text content) => .ok content
  | some (.source content _) => .ok content
  | some .directory => .error .isDirectory
  | some .bytes => .error .notUtf8
  | none => .ok ""

end Files

end Fingerprint
