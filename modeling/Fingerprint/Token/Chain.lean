import Fingerprint.Token.Statement
/-!
# Chains of conditions

A chain of conditions can have more links than a call stack is high.  It is therefore walked by a
loop, and its tokens are pushed to those that are there already, as those of other statements are.
-/

namespace Fingerprint

namespace Node

/-- What the alternative of a condition consists of, if it has one: a statement, or none after a
bare keyword. -/
def alternative? (n : Node) : Option (Option Node) :=
  (n.child? "alternative").map fun c => if c.kind = "else_clause" then c.parts.head? else some c

theorem sizeOf_lt_of_mem_children {c n : Node} (h : c ∈ n.children) : sizeOf c < sizeOf n := by
  obtain ⟨label, children⟩ := n
  have hlt : sizeOf c < sizeOf children := List.sizeOf_lt_of_mem h
  rw [mk.sizeOf_spec]
  omega

theorem sizeOf_lt_of_alternative? {c n : Node} (h : n.alternative? = some (some c)) :
    sizeOf c < sizeOf n := by
  obtain ⟨a, ha, hc⟩ := Option.map_eq_some_iff.1 h
  have ha := sizeOf_lt_of_mem_children (List.mem_of_find?_eq_some ha)
  split at hc
  · have hc := (List.mem_filter.1 (List.mem_of_head? hc)).1
    exact Nat.lt_trans (sizeOf_lt_of_mem_children hc) ha
  · cases hc
    exact ha

def conditionText (read : Reading) (n : Node) : String :=
  ((n.child? "condition").map read).getD ""

/-- The token of one link of a chain. -/
def linkToken (read : Reading) (tag : String) (n : Node) : Token :=
  .shaped .statement tag [n.conditionText read]

end Node

namespace Statement

/-- A way to push the tokens of a statement to others. -/
abbrev Pushing := List Token → Node → List Token

/-- Pushes the tokens of a chain from one of its links on. -/
def pushChain (push : Pushing) (read : Reading) (n : Node) (tag : String) (pushed : List Token) :
    List Token :=
  let pushed := (n.bodyUnder ["consequence"]).foldl push (pushed ++ [n.linkToken read tag])
  match _h : n.alternative? with
  | none => pushed
  | some none => pushed ++ [.shaped .statement "Else" []]
  | some (some next) =>
    if next.kind = "if_statement" then pushChain push read next "Else-If" pushed
    else next.bodyStatements.foldl push (pushed ++ [.shaped .statement "Else" []])
termination_by sizeOf n
decreasing_by exact Node.sizeOf_lt_of_alternative? _h

def push (mode : TokenMode) : Nat → Pushing
  | 0, pushed, _ => pushed ++ [.tooDeep .statement]
  | budget + 1, pushed, n =>
    if n.exported.kind = "if_statement" then
      pushChain (push mode budget) (Expression.text budget) n.exported "If" pushed
    else
      (n.exported.pieces mode (Expression.token (budget + 1)) (Expression.text budget)
        (Expression.text (budget - 1))).foldl
        (fun pushed piece =>
          match piece with
          | .token token => pushed ++ [token]
          | .inner statement => push mode budget pushed statement)
        pushed

end Statement

end Fingerprint
