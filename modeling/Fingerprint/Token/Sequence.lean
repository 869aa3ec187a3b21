import Fingerprint.Token.Expression
/-!
# Sequences without recursion

Sequences can be nested deeper than a call stack is high.  Their operands are therefore gathered by
a loop, which keeps the sequences that it has not looked into on a stack.  It meets them out of
order, so the operands are sorted by their place in the source before they are read.
-/

namespace Fingerprint

/-- The gathering of a sequence's operands under way. -/
structure Gathering where
  /-- The sequences that have not been looked into, the next one first. -/
  pending : List Node
  operands : List Node := []

namespace Gathering

/-- Takes one part of a sequence: a nested sequence is looked into later, anything else is an
operand. -/
def take (g : Gathering) (part : Node) : Gathering :=
  if part.kind = "sequence_expression" then { g with pending := part :: g.pending }
  else { g with operands := g.operands ++ [part] }

/-- Looks into the sequence on top of the stack. -/
def step? (g : Gathering) : Option Gathering :=
  match g.pending with
  | [] => none
  | current :: rest => some (current.parts.foldl take { g with pending := rest })

theorem sizeOf_foldl_take (g : Gathering) (parts : List Node) :
    sizeOf (parts.foldl take g).pending < sizeOf g.pending + sizeOf parts := by
  induction parts generalizing g with
  | nil =>
    rw [List.foldl_nil, List.nil.sizeOf_spec]
    omega
  | cons part rest ih =>
    have hpart : sizeOf (g.take part).pending ≤ 1 + sizeOf part + sizeOf g.pending := by
      rw [take]
      split
      · exact Nat.le_of_eq (List.cons.sizeOf_spec _ _)
      · exact Nat.le_add_left _ _
    have hrest := ih (g.take part)
    rw [List.foldl_cons, List.cons.sizeOf_spec]
    omega

theorem sizeOf_filter_le (p : Node → Bool) (nodes : List Node) :
    sizeOf (nodes.filter p) ≤ sizeOf nodes := by
  induction nodes with
  | nil => exact Nat.le_refl _
  | cons n rest ih =>
    rw [List.filter_cons]
    split <;> simp only [List.cons.sizeOf_spec] <;> omega

theorem sizeOf_step?_lt {g next : Gathering} (h : g.step? = some next) :
    sizeOf next.pending < sizeOf g.pending := by
  obtain ⟨_ | ⟨⟨label, children⟩, rest⟩, operands⟩ := g
  · cases h
  · cases h
    have htaken := sizeOf_foldl_take ⟨rest, operands⟩ (Node.parts ⟨label, children⟩)
    have hparts : sizeOf (Node.parts ⟨label, children⟩) ≤ sizeOf children := sizeOf_filter_le _ _
    simp only [List.cons.sizeOf_spec, Node.mk.sizeOf_spec] at htaken ⊢
    omega

/-- Goes on until the stack is empty. -/
def run (g : Gathering) : List Node :=
  match h : g.step? with
  | none => g.operands
  | some next =>
    have := sizeOf_step?_lt h
    run next
termination_by sizeOf g.pending

/-- A sequence that has not been looked into. -/
def start (n : Node) : Gathering := { pending := [n] }

end Gathering

namespace Node

/-- The texts of a sequence's operands. -/
def sequence (read : Reading) (n : Node) : List String :=
  ((Gathering.start n).run.mergeSort fun a b => decide (a.start ≤ b.start)).map read

end Node

end Fingerprint
