import Fingerprint.Tree.Node
/-!
# Sites

A site is a node together with the way down to it, so that parents and earlier siblings can be
seen from it.
-/

namespace Fingerprint

/-- One step of a way down: the parent and the index of the child taken, among all children. -/
structure Step where
  parent : Node
  index : Nat

/-- A node and the steps that lead to it, the last step first. -/
structure Site where
  node : Node
  above : List Step := []

namespace Site

def parent? (s : Site) : Option Site :=
  match s.above with
  | [] => none
  | step :: above => some ⟨step.parent, above⟩

def parentNode? (s : Site) : Option Node := s.above.head?.map Step.parent

/-- The significant nodes that stand before this one under the same parent. -/
def earlier (s : Site) : List Node :=
  match s.above with
  | [] => []
  | step :: _ => (step.parent.children.take step.index).filter Node.isSignificant

def child (s : Site) (index : Nat) (c : Node) : Site := ⟨c, ⟨s.node, index⟩ :: s.above⟩

/-! ## Pre-order -/

mutual

/-- Every site at or below a node, in pre-order. -/
def below (above : List Step) : Node → List Site
  | n@⟨_, children⟩ => ⟨n, above⟩ :: belowAll above n 0 children

def belowAll (above : List Step) (parent : Node) (index : Nat) : List Node → List Site
  | [] => []
  | c :: rest =>
    below (⟨parent, index⟩ :: above) c ++ belowAll above parent (index + 1) rest

end

/-- Every site of a tree, in pre-order; the site of node number `k` is at place `k`. -/
def all (root : Node) : List Site := below [] root

end Site

end Fingerprint
