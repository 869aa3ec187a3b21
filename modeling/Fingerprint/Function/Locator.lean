import Fingerprint.Function.Located
import Fingerprint.Tree.Traversal
/-!
# The locator and its record

The visitor that locates functions does not look back at the way that leads to a node.  It keeps a
record of the functions that it has located, by the numbers of their nodes, and passes by a
function that is on record already.
-/

namespace Fingerprint

/-- A computation that can see the numbers on record and put further ones there. -/
abbrev Recording : Type → Type := StateT (List Nat) (Except Fault)

namespace Node

/-- Names a function, puts it on record and reads its tokens. -/
def locateOnRecord (options : TokenOptions) (function : Node) (target : Option Node) :
    Recording (Signal Located) := do
  let name ← function.localName target
  modify (function.number :: ·)
  let tokens ← function.tokens options
  pure (.emit ⟨name, tokens⟩)

/-- What is located at a node: the function that it holds, or else the node itself, unless it is on
record. -/
def visit (options : TokenOptions) (n : Node) : Recording (Signal Located) := do
  let record ← get
  match n.held?.filter fun function => !record.contains function.number with
  | some function => function.locateOnRecord options n.target?
  | none =>
    if n.isFunction && !record.contains n.number then n.locateOnRecord options none
    else pure .pass

end Node

/-- The functions below a root as the visitor locates them, which starts without a record. -/
def Site.functionsOnRecord (options : TokenOptions) (root : Site) :
    Except Fault (List (Entry Located)) :=
  (root.traverse fun _ s => s.node.visit options).run' []

end Fingerprint
