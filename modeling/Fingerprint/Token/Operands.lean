import Fingerprint.Tree.Node
/-!
# Operands of comma sequences

A sequence nests in sequences of its own; its operands are those of all of them, ordered by their
place in the source.  A sequence in parentheses is one operand.
-/

namespace Fingerprint.Node

mutual

/-- Operands of a sequence, its own before those of the nested sequences, of which the last
comes first. -/
def gathered : Node → List Node
  | ⟨_, children⟩ =>
    let (own, nested) := gatheredOf children
    own ++ nested

/-- Operands among some parts of a sequence, and the operands of the sequences among them. -/
def gatheredOf : List Node → List Node × List Node
  | [] => ([], [])
  | c :: rest =>
    let (own, nested) := gatheredOf rest
    if !c.isSignificant then (own, nested)
    else if c.kind = "sequence_expression" then (own, nested ++ gathered c)
    else (c :: own, nested)

end

def operands (n : Node) : List Node :=
  n.gathered.mergeSort fun a b => decide (a.start ≤ b.start)

end Fingerprint.Node
