import Mathlib.Tactic.Common
import Fingerprint.Proofs.Tree.Parentheses
/-!
# Where braces may come

The bodies of loops and conditions are statements, and any statement can stand in a block of its
own.  Such a place is known by the kind of the node and by the field of the child.  A condition that
goes on a chain of conditions does not count here, since a block would end the chain.
-/

namespace Fingerprint

namespace Node

def blockKinds : List String := ["program", "statement_block"]

theorem placesOf_of_block {kind : String} (h : kind ∈ blockKinds) : placesOf kind = [] := by
  have hplaces : ∀ kind ∈ blockKinds, placesOf kind = [] := by decide
  exact hplaces kind h

/-- The fields of the bodies that are single statements, for each kind of node that has such
bodies. -/
def bodyPlaces : List (String × List (Option String)) :=
  [("if_statement", [some "consequence", some "alternative"]),
    ("else_clause", [none]),
    ("for_statement", [some "body"]),
    ("for_in_statement", [some "body"]),
    ("while_statement", [some "body"]),
    ("do_statement", [some "body"]),
    ("labeled_statement", [some "body"]),
    ("with_statement", [some "body"])]

def bodyPlacesOf (kind : String) : List (Option String) := (bodyPlaces.lookup kind).getD []

def hostKinds : List String := bodyPlaces.map Prod.fst

def wrapperKinds : List String := ["parenthesized_expression", "statement_block"]

def chainsTo (n c : Node) : Bool :=
  (n.kind == "else_clause" || c.field == some "alternative") &&
    ["if_statement", "else_clause"].contains c.kind

/-- Whether braces may come around a child. -/
def hosts (n c : Node) : Bool :=
  c.isSignificant && (bodyPlacesOf n.kind).contains c.field && !blockKinds.contains c.kind &&
    !n.chainsTo c

theorem bodyPlacesOf_eq_nil {kind : String} (h : kind ∉ hostKinds) : bodyPlacesOf kind = [] := by
  rw [bodyPlacesOf]
  cases hplaces : bodyPlaces.lookup kind with
  | none => rfl
  | some places => exact absurd (List.mem_map_of_mem (mem_of_lookup_eq_some hplaces)) h

theorem field_mem_bodyPlacesOf_of_hosts {n c : Node} (h : n.hosts c = true) :
    c.field ∈ bodyPlacesOf n.kind := by
  simp only [hosts, Bool.and_eq_true, List.contains_iff_mem] at h
  exact h.1.1.2

theorem isSignificant_of_hosts {n c : Node} (h : n.hosts c = true) : c.isSignificant = true := by
  simp only [hosts, Bool.and_eq_true] at h
  exact h.1.1.1

theorem kind_not_mem_of_hosts {n c : Node} (h : n.hosts c = true) : c.kind ∉ blockKinds := by
  simp only [hosts, Bool.and_eq_true, Bool.not_eq_true'] at h
  rw [← List.contains_iff_mem, h.1.2]
  exact Bool.false_ne_true

theorem chainsTo_eq_false_of_hosts {n c : Node} (h : n.hosts c = true) : n.chainsTo c = false := by
  simp only [hosts, Bool.and_eq_true, Bool.not_eq_true'] at h
  exact h.2

/-- The alternative of a condition that gets braces ends the chain. -/
theorem kind_ne_of_hosts {n c : Node} (h : n.hosts c = true)
    (hlast : n.kind = "else_clause" ∨ c.field = some "alternative") :
    c.kind ≠ "else_clause" ∧ c.kind ≠ "if_statement" := by
  have hchain := chainsTo_eq_false_of_hosts h
  rw [chainsTo, Bool.and_eq_false_iff] at hchain
  have hkind := hchain.resolve_left (by rcases hlast with hlast | hlast <;> simp [hlast])
  simp only [List.contains_eq_mem, List.mem_cons, List.not_mem_nil, or_false,
    decide_eq_false_iff_not, not_or] at hkind
  exact ⟨hkind.2, hkind.1⟩

structure Embraced (r : Node → Node → Prop) (c d : Node) : Prop where
  isSignificant : c.isSignificant = true
  kind_left : c.kind ∉ blockKinds
  named : d.named = true
  kind : d.kind = "statement_block"
  inside : ∃ inner, d.parts = [inner] ∧ r c inner

/-- Nodes that are related, but for braces around the second. -/
def Braced (r : Node → Node → Prop) (c d : Node) : Prop := r c d ∨ Embraced r c d

/-- Children of a node with bodies and of one that is related to it: under the same field, and
related but for parentheses and braces where these may come. -/
structure Housed (eased : Prop) (r : Node → Node → Prop) (n c d : Node) : Prop where
  field_eq : c.field = d.field
  braced : Beneath eased r n c d ∨ n.hosts c = true ∧ Embraced r c d

section

variable {eased : Prop} {r : Node → Node → Prop} {n c d : Node}

theorem Embraced.isSignificant_eq (h : Embraced r c d) : c.isSignificant = d.isSignificant := by
  rw [h.isSignificant, Node.isSignificant, isComment, h.named, h.kind]
  rfl

namespace Housed

theorem of_beneath (h : Beneath eased r n c d) : Housed eased r n c d := ⟨h.field_eq, .inl h⟩

variable (h : Housed eased r n c d)
include h

theorem beneath (hfield : c.field ∉ bodyPlacesOf n.kind) : Beneath eased r n c d :=
  h.braced.resolve_right fun hbraced => hfield (field_mem_bodyPlacesOf_of_hosts hbraced.1)

theorem toBraced (hfield : c.field ∉ placesOf n.kind) : Braced r c d :=
  h.braced.imp (fun hbeneath => hbeneath.strict fun _ => takes_eq_false_of_field hfield) And.right

end Housed

end

end Node

end Fingerprint
