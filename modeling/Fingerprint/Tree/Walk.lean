import Fingerprint.Tree.Site
/-!
# Filtered walks

A walk offers every significant node below a root, in pre-order, to a visitor, which says whether
to keep something for the node and whether to go on below it.  What was kept forms a forest that
has the nesting of the keeping nodes only: a node that keeps nothing hands what is found below it
to the entry around it.
-/

namespace Fingerprint

/-- A visitor's answer for one node. -/
structure Signal (α : Type) where
  data : Option α
  descend : Bool
  deriving DecidableEq, Repr

namespace Signal

variable {α : Type}

/-- Nothing here; go on below. -/
def pass : Signal α := ⟨none, true⟩

/-- Nothing here and nothing to look for below. -/
def prune : Signal α := ⟨none, false⟩

/-- Keep `data` and go on below. -/
def emit (data : α) : Signal α := ⟨some data, true⟩

/-- Keep `data` and skip what is below. -/
def emitAndStop (data : α) : Signal α := ⟨some data, false⟩

end Signal

/-- Something kept at a location, with what was kept below it. -/
structure Entry (α : Type) where
  path : String
  data : α
  children : List (Entry α)

namespace Entry

variable {α : Type}

mutual

/-- Number of entries in a tree of entries. -/
def size : Entry α → Nat
  | ⟨_, _, children⟩ => 1 + sizes children

/-- Number of entries in a forest. -/
def sizes : List (Entry α) → Nat
  | [] => 0
  | e :: rest => size e + sizes rest

end

mutual

/-- What a tree of entries keeps, in pre-order. -/
def toList : Entry α → List α
  | ⟨_, data, children⟩ => data :: toListAll children

def toListAll : List (Entry α) → List α
  | [] => []
  | e :: rest => toList e ++ toListAll rest

end

end Entry

namespace Signal

/-- The entries of a node whose lower nodes gave `inner`. -/
def collect {α : Type} (signal : Signal α) (path : String) (inner : List (Entry α)) :
    List (Entry α) :=
  match signal.data with
  | some data => [⟨path, data, inner⟩]
  | none => inner

end Signal

namespace Node

/-- A child is addressed by its field, or else by its index among all children. -/
def childPath (path : String) (index : Nat) (child : Node) : String :=
  match child.field with
  | some field => path ++ "." ++ field
  | none => path ++ "[" ++ toString index ++ "]"

variable {m : Type → Type} [Monad m] {α : Type}

mutual

/-- Walks one significant node. -/
def walkAt (visit : String → Site → m (Signal α)) (path : String) (above : List Step) :
    Node → m (List (Entry α))
  | n@⟨_, children⟩ => do
    let signal ← visit path ⟨n, above⟩
    if signal.descend then
      let inner ← walkAll visit path above n 0 children
      pure (signal.collect path inner)
    else pure (signal.collect path [])

/-- Walks the significant nodes among the children of `parent` from `index` on. -/
def walkAll (visit : String → Site → m (Signal α)) (path : String) (above : List Step)
    (parent : Node) (index : Nat) : List Node → m (List (Entry α))
  | [] => pure []
  | c :: rest => do
    if c.isSignificant then
      let here ← walkAt visit (childPath path index c) (⟨parent, index⟩ :: above) c
      let later ← walkAll visit path above parent (index + 1) rest
      pure (here ++ later)
    else walkAll visit path above parent (index + 1) rest

end

end Node

/-- Walks what is below a root.  The root itself is not offered; its kind starts every path. -/
def Site.walk {m : Type → Type} [Monad m] {α : Type} (visit : String → Site → m (Signal α))
    (root : Site) : m (List (Entry α)) :=
  Node.walkAll visit root.node.kind root.above root.node 0 root.node.children

end Fingerprint
