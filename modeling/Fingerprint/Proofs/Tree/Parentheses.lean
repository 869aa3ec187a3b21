import Mathlib.Tactic.Common
import Fingerprint.Proofs.Arranged
import Fingerprint.Proofs.Tree.Nodes
import Fingerprint.Tree.Prologue
/-!
# Where parentheses may stand

The grammar lets parentheses stand around an expression wherever it asks for one.  Such a place is
known by the kind of the node and by the field of the child.  Two places do not count here: an
operand of a sequence that is a sequence itself, which parentheses turn into a single operand, and
the string of a statement that is nothing else, which is a directive only without them.
-/

namespace Fingerprint

namespace Node

def expressionKinds : List String :=
  ["identifier", "this", "undefined", "string", "template_string", "number", "regex", "true",
    "false", "null", "binary_expression", "unary_expression", "update_expression",
    "assignment_expression", "augmented_assignment_expression", "ternary_expression",
    "sequence_expression", "call_expression", "new_expression", "member_expression",
    "subscript_expression", "await_expression", "yield_expression", "parenthesized_expression",
    "array", "object", "function_expression", "function", "generator_function", "arrow_function",
    "class", "meta_property", "jsx_element", "jsx_self_closing_element", "jsx_fragment",
    "as_expression", "satisfies_expression", "non_null_expression", "type_assertion",
    "instantiation_expression"]

/-- The fields of the places for expressions, for each kind of node that has such places. -/
def places : List (String × List (Option String)) :=
  [("binary_expression", [some "left", some "right"]),
    ("unary_expression", [some "argument"]),
    ("update_expression", [some "argument"]),
    ("assignment_expression", [some "left", some "right"]),
    ("augmented_assignment_expression", [some "left", some "right"]),
    ("ternary_expression", [some "condition", some "consequence", some "alternative"]),
    ("sequence_expression", [none, some "left", some "right"]),
    ("call_expression", [some "function"]),
    ("new_expression", [some "constructor"]),
    ("member_expression", [some "object"]),
    ("subscript_expression", [some "object", some "index"]),
    ("await_expression", [none]),
    ("yield_expression", [none]),
    ("spread_element", [none]),
    ("parenthesized_expression", [none]),
    ("array", [none]),
    ("arguments", [none]),
    ("computed_property_name", [none]),
    ("template_substitution", [none]),
    ("pair", [some "value"]),
    ("array_pattern", [none]),
    ("rest_pattern", [none]),
    ("pair_pattern", [some "value"]),
    ("assignment_pattern", [some "left", some "right"]),
    ("object_assignment_pattern", [some "right"]),
    ("required_parameter", [some "value"]),
    ("optional_parameter", [some "value"]),
    ("variable_declarator", [some "value"]),
    ("field_definition", [some "value"]),
    ("public_field_definition", [some "value"]),
    ("enum_assignment", [some "value"]),
    ("arrow_function", [some "body"]),
    ("class_heritage", [none]),
    ("extends_clause", [none, some "value"]),
    ("decorator", [none]),
    ("jsx_expression", [none]),
    ("as_expression", [none]),
    ("satisfies_expression", [none]),
    ("non_null_expression", [none]),
    ("type_assertion", [none]),
    ("expression_statement", [none]),
    ("return_statement", [none]),
    ("throw_statement", [none]),
    ("if_statement", [some "condition"]),
    ("while_statement", [some "condition"]),
    ("do_statement", [some "condition"]),
    ("for_statement", [some "initializer", some "condition", some "increment"]),
    ("for_in_statement", [some "left", some "value", some "right"]),
    ("switch_statement", [some "value"]),
    ("switch_case", [some "value"]),
    ("with_statement", [some "object"]),
    ("export_statement", [some "value"])]

def placesOf (kind : String) : List (Option String) := (places.lookup kind).getD []

def isExpression (n : Node) : Bool := n.named && expressionKinds.contains n.kind

def takes (n c : Node) : Bool :=
  c.isExpression && (placesOf n.kind).contains c.field &&
    !(n.kind == "sequence_expression" && c.kind == "sequence_expression") && !n.isStringStatement

theorem isExpression_of_takes {n c : Node} (h : n.takes c = true) : c.isExpression = true := by
  simp only [takes, Bool.and_eq_true] at h
  exact h.1.1.1

theorem field_mem_placesOf_of_takes {n c : Node} (h : n.takes c = true) :
    c.field ∈ placesOf n.kind := by
  simp only [takes, Bool.and_eq_true, List.contains_iff_mem] at h
  exact h.1.1.2

theorem isStringStatement_of_takes {n c : Node} (h : n.takes c = true) :
    n.isStringStatement = false := by
  simp only [takes, Bool.and_eq_true, Bool.not_eq_true'] at h
  exact h.2

theorem takes_eq_false_of_isStringStatement {n : Node} (h : n.isStringStatement = true) (c : Node) :
    n.takes c = false := by
  simp [takes, h]

theorem kind_ne_of_takes {n c : Node} (h : n.takes c = true) (hn : n.kind = "sequence_expression") :
    c.kind ≠ "sequence_expression" := by
  simp only [takes, hn, Bool.and_eq_true, Bool.not_eq_true', BEq.rfl, Bool.true_and] at h
  exact ne_of_beq_false h.1.2

theorem takes_eq_false_of_field {n c : Node} (hfield : c.field ∉ placesOf n.kind) :
    n.takes c = false := by
  rw [← Bool.not_eq_true]
  exact fun htakes => hfield (field_mem_placesOf_of_takes htakes)

theorem takes_eq_false_of_kind {n : Node} (hkind : placesOf n.kind = []) (c : Node) :
    n.takes c = false :=
  takes_eq_false_of_field (by rw [hkind]; exact List.not_mem_nil)

def placeFields : List (Option String) :=
  [none, some "left", some "right", some "argument", some "condition", some "consequence",
    some "alternative", some "function", some "constructor", some "object", some "index",
    some "value", some "body", some "initializer", some "increment"]

theorem placesOf_subset (kind : String) : placesOf kind ⊆ placeFields := by
  have hplaces : ∀ entry ∈ places, entry.2 ⊆ placeFields := by decide
  rw [placesOf]
  cases hfields : places.lookup kind with
  | none => exact List.nil_subset _
  | some fields => exact hplaces _ (mem_of_lookup_eq_some hfields)

theorem not_mem_placesOf (field : String) (h : some field ∉ placeFields) {kind : String} :
    some field ∉ placesOf kind :=
  fun hfield => h (placesOf_subset kind hfield)

theorem kind_mem_of_isExpression {n : Node} (h : n.isExpression = true) :
    n.kind ∈ expressionKinds := by
  rw [isExpression, Bool.and_eq_true, List.contains_iff_mem] at h
  exact h.2

theorem kind_ne_of_isExpression {n : Node} (h : n.isExpression = true) {kind : String}
    (hkind : kind ∉ expressionKinds) : n.kind ≠ kind := by
  rintro rfl
  exact hkind (kind_mem_of_isExpression h)

theorem isStringStatement_of_ne {n : Node} (h : n.kind ≠ "expression_statement") :
    n.isStringStatement = false := by
  rw [isStringStatement, beq_false_of_ne h, Bool.false_and]

theorem isStringStatement_of_isExpression {n : Node} (h : n.isExpression = true) :
    n.isStringStatement = false :=
  isStringStatement_of_ne (kind_ne_of_isExpression h (by decide))

theorem isStringStatement_eq_of_parts {r : Node → Node → Prop} {a b : Node}
    (hkind : a.kind = b.kind) (hparts : List.Forall₂ r a.parts b.parts)
    (hstring : ∀ c d, r c d → a.parts = [c] → (c.kind == "string") = (d.kind == "string")) :
    a.isStringStatement = b.isStringStatement := by
  rw [isStringStatement, isStringStatement, hkind]
  congr 1
  revert hparts hstring
  generalize a.parts = as, b.parts = bs
  rintro (- | ⟨hcd, - | ⟨-, -⟩⟩) hstring
  · rfl
  · exact hstring _ _ hcd rfl
  · rfl

theorem isSignificant_of_isExpression {n : Node} (h : n.isExpression = true) :
    n.isSignificant = true := by
  have hcomment : n.kind ≠ "comment" := kind_ne_of_isExpression h (by decide)
  have hhtml : n.kind ≠ "html_comment" := kind_ne_of_isExpression h (by decide)
  rw [isExpression, Bool.and_eq_true] at h
  simp [isSignificant, isComment, h.1, hcomment, hhtml]

/-! ## Patterns -/

def listPatternKinds : List String := ["array_pattern", "rest_pattern", "object_pattern"]

/-- The field of the pattern inside of a pattern that is no list, or of a parameter. -/
def patternFields : List (String × String) :=
  [("assignment_pattern", "left"), ("object_assignment_pattern", "left"),
    ("pair_pattern", "value"), ("required_parameter", "pattern"),
    ("optional_parameter", "pattern")]

def binds (n c : Node) : Bool :=
  listPatternKinds.contains n.kind ||
    patternFields.any fun (kind, field) => n.kind == kind && c.field == some field

mutual

def patterns : Node → List Node
  | n@⟨_, children⟩ => n :: patternsOf n children

def patternsOf (n : Node) : List Node → List Node
  | [] => []
  | c :: rest => (if n.binds c then patterns c else []) ++ patternsOf n rest

end

theorem patterns_eq_cons (n : Node) : n.patterns = n :: patternsOf n n.children := by
  cases n
  rfl

theorem mem_patterns_self (n : Node) : n ∈ n.patterns := by
  rw [patterns_eq_cons]
  exact List.mem_cons_self ..

theorem patterns_subset_patternsOf {n c : Node} (hbinds : n.binds c = true) {children : List Node}
    (hc : c ∈ children) : c.patterns ⊆ patternsOf n children := by
  induction children with
  | nil => cases hc
  | cons d rest ih =>
    rw [patternsOf]
    rcases List.mem_cons.1 hc with rfl | hc
    · rw [if_pos hbinds]
      exact List.subset_append_left _ _
    · exact List.subset_append_of_subset_right _ (ih hc)

theorem patterns_subset {n c : Node} (hbinds : n.binds c = true) (hc : c ∈ n.children) :
    c.patterns ⊆ n.patterns := by
  rw [patterns_eq_cons n]
  exact List.subset_cons_of_subset _ (patterns_subset_patternsOf hbinds hc)

theorem binds_of_list {n : Node} {kind : String} (hkind : n.kind = kind)
    (hlist : kind ∈ listPatternKinds) (c : Node) : n.binds c = true := by
  rw [binds, hkind, List.contains_iff_mem.2 hlist, Bool.true_or]

theorem binds_of_field {n c : Node} {kind field : String} (hkind : n.kind = kind)
    (hfields : (kind, field) ∈ patternFields) (hc : c.field = some field) : n.binds c = true := by
  rw [binds, Bool.or_eq_true, List.any_eq_true]
  exact .inr ⟨(kind, field), hfields, by simp [hkind, hc]⟩

/-! ## One expression in parentheses -/

structure Enclosed (r : Node → Node → Prop) (c d : Node) : Prop where
  isExpression : c.isExpression = true
  named : d.named = true
  kind : d.kind = "parenthesized_expression"
  inside : ∃ inner, d.parts = [inner] ∧ r c inner

/-- Nodes that are related, but for parentheses around the second if these are allowed. -/
def Eased (eased : Prop) (r : Node → Node → Prop) (c d : Node) : Prop :=
  r c d ∨ eased ∧ Enclosed r c d

/-- Children of a node and of one that is related to it: under the same field, and related but for
parentheses where they may stand. -/
structure Beneath (eased : Prop) (r : Node → Node → Prop) (n c d : Node) : Prop where
  field_eq : c.field = d.field
  eased : r c d ∨ eased ∧ n.takes c = true ∧ Enclosed r c d

section

variable {eased : Prop} {r : Node → Node → Prop} {n c d : Node}

namespace Enclosed

variable (h : Enclosed r c d)
include h

theorem isExpression_right : d.isExpression = true := by
  rw [Node.isExpression, h.named, h.kind]
  decide

theorem isSignificant : d.isSignificant = true :=
  isSignificant_of_isExpression h.isExpression_right

theorem bare_eq {inner : Node} (hinner : d.parts = [inner]) : d.bare = inner.bare := by
  have hfirst : d.children.find? Node.isSignificant = some inner := by
    rw [← List.head?_filter]
    exact congrArg List.head? hinner
  rw [bare_of_parentheses h.kind, hfirst]
  rfl

theorem string_eq {a : Node} (hkind : a.kind = "expression_statement")
    (hplain : a.isStringStatement = false) (honly : a.parts = [c]) :
    (c.kind == "string") = (d.kind == "string") := by
  rw [isStringStatement, hkind, honly] at hplain
  rw [h.kind]
  exact hplain

theorem kind_ne {kind : String} (hkind : kind ∉ expressionKinds) : c.kind ≠ kind ∧ d.kind ≠ kind :=
  ⟨kind_ne_of_isExpression h.isExpression hkind,
    kind_ne_of_isExpression h.isExpression_right hkind⟩

end Enclosed

namespace Eased

theorem strict (h : Eased eased r c d) (heased : ¬eased) : r c d :=
  h.resolve_right fun henclosed => heased henclosed.1

theorem of_kind_ne (h : Eased eased r c d) (hc : c.kind ∉ expressionKinds) : r c d :=
  h.resolve_right fun henclosed => hc (kind_mem_of_isExpression henclosed.2.isExpression)

theorem kind_eq_iff (hr : ∀ {c d : Node}, r c d → c.kind = d.kind) (h : Eased eased r c d)
    {kind : String} (hkind : kind ∉ expressionKinds) : c.kind = kind ↔ d.kind = kind := by
  rcases h with h | ⟨-, h⟩
  · rw [hr h]
  · obtain ⟨hc, hd⟩ := h.kind_ne hkind
    exact iff_of_false hc hd

end Eased

namespace Beneath

theorem of_rel (h : r c d) (hfield : c.field = d.field) : Beneath eased r n c d := ⟨hfield, .inl h⟩

theorem toEased (h : Beneath eased r n c d) : Eased eased r c d :=
  h.eased.imp_right fun ⟨heased, _, henclosed⟩ => ⟨heased, henclosed⟩

theorem strict (h : Beneath eased r n c d) (htakes : eased → n.takes c = false) : r c d :=
  h.eased.resolve_right fun ⟨heased, hplace, _⟩ => by simp [htakes heased] at hplace

end Beneath

end

end Node

end Fingerprint
