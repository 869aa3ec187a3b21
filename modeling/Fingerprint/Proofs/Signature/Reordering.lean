import Mathlib.Tactic.Common
import Fingerprint.Proofs.Function.NamesAlike
import Fingerprint.Proofs.Signature.Alike
import Fingerprint.Tree.Rows
/-!
# The order of statements does not count

The tokens of a function, the functions of a unit and its literals are sorted, so a signature does
not show the order of the statements in a block.  Two things do depend on it: strings in front of a
unit or of a function's body are directives, and a repeated name gets a number.  Blocks with strings
for statements keep their order here, and names have no numbers.
-/

namespace Fingerprint

namespace Node

/-! ## Blocks in another order -/

/-- A block in which no statement is a mere string. -/
def isPlainBlock (n : Node) : Bool :=
  blockKinds.contains n.kind && n.parts.all (!·.isStringStatement)

/-- Two trees with the same nodes, where the children of plain blocks may stand in another order.
Every node is the same in both, but for its number. -/
inductive Reordered : Node → Node → Prop
  | mk {label label' : Label} {children mid children' : List Node}
    (hlabel : { label with number := label'.number } = label')
    (hchildren : List.Forall₂ Reordered children mid)
    (hmid : Rearranged (isPlainBlock ⟨label, children⟩ = true) mid children') :
    Reordered ⟨label, children⟩ ⟨label', children'⟩

/-- Whether no block stands where a node looks into another one for a list.  The grammar has
arguments, parameters, clauses of `try` and bodies of `switch` there, and never a block. -/
def opensNoBlock (n : Node) : Bool := n.opened.all (!blockKinds.contains ·.kind)

theorem Reordered.refl (n : Node) : Reordered n n := by
  induction n using Node.induction with
  | node n ih =>
    obtain ⟨label, children⟩ := n
    exact .mk rfl (List.forall₂_same.2 ih) (.refl _)

namespace Reordered

variable {a b : Node} (h : Reordered a b)
include h

theorem label_eq : { a.label with number := b.number } = b.label := by
  obtain ⟨hlabel, -, -⟩ := h
  exact hlabel

theorem kind_eq : a.kind = b.kind := (congrArg Label.kind h.label_eq :)

theorem named_eq : a.named = b.named := (congrArg Label.named h.label_eq :)

theorem field_eq : a.field = b.field := (congrArg Label.field h.label_eq :)

theorem start_eq : a.start = b.start := (congrArg Label.start h.label_eq :)

theorem text_eq : a.text = b.text := (congrArg Label.text h.label_eq :)

theorem isSignificant_eq : a.isSignificant = b.isSignificant := by
  rw [isSignificant, isSignificant, isComment, isComment, h.kind_eq, h.named_eq]

end Reordered

theorem mem_blockKinds_of_isPlainBlock {n : Node} (hn : n.isPlainBlock = true) :
    n.kind ∈ blockKinds := by
  rw [isPlainBlock, Bool.and_eq_true, List.contains_iff_mem] at hn
  exact hn.1

theorem isStringStatement_of_isPlainBlock {n : Node} (hn : n.isPlainBlock = true) :
    ∀ c ∈ n.parts, c.isStringStatement = false := by
  rw [isPlainBlock, Bool.and_eq_true, List.all_eq_true] at hn
  intro c hc
  simpa using hn.2 c hc

def Shuffled (a b : Node) : Prop := Reordered a b ∧ ∀ n ∈ a.nodes, n.opensNoBlock = true

theorem Shuffled.children {a b : Node} (h : Shuffled a b) :
    ∃ mid, List.Forall₂ Shuffled a.children mid ∧
      Rearranged (a.isPlainBlock = true) mid b.children := by
  obtain ⟨⟨-, hchildren, hmid⟩, hgrammar⟩ := h
  refine ⟨_, (forall₂_mem hchildren).imp ?_, hmid⟩
  rintro c d ⟨hc, -, hcd⟩
  exact ⟨hcd, fun n hn => hgrammar n (mem_nodes_iff.2 (.inr ⟨c, hc, hn⟩))⟩

theorem alike_shuffled : Alike True False isPlainBlock Shuffled where
  kind_eq h := h.1.kind_eq
  named_eq h := h.1.named_eq
  kind_mem ha :=
    List.mem_append_left _ (List.mem_append_right _ (mem_blockKinds_of_isPlainBlock ha))
  children h ha := by
    obtain ⟨mid, hchildren, hmid⟩ := h.children
    -- Only the children of plain blocks can have moved.
    rw [hmid.eq (by simp [ha])] at hchildren
    exact .of_forall₂ (hchildren.imp fun _ _ hcd => .of_rel hcd hcd.1.field_eq)
  statements h ha _ := by
    refine ⟨isStringStatement_of_isPlainBlock ha, ?_⟩
    obtain ⟨mid, hchildren, hmid⟩ := h.children
    have hparts := forall₂_filter (fun c d (hcd : Shuffled c d) => hcd.1.isSignificant_eq) hchildren
    exact ⟨_, hparts.imp fun _ _ hcd => hcd.1, .inr ⟨trivial, hmid.perm.filter _⟩⟩
  hosted {a b} _ ha hhost := by
    have hdisjoint : ∀ kind ∈ blockKinds, kind ∉ hostKinds := by decide
    exact absurd hhost (hdisjoint _ (mem_blockKinds_of_isPlainBlock ha))

theorem spelled_shuffled : Spelled True False isPlainBlock Shuffled := by
  refine .of_spelledBy alike_shuffled (fun ha => .inl (mem_blockKinds_of_isPlainBlock ha))
    (fun _ _ _ hcd => hcd.1.text_eq)
    (alike_shuffled.order_of_start_lt_iff not_false fun h h' => by rw [h.1.start_eq, h'.1.start_eq])
    (fun {a b c} h hc => ?_) False.elim False.elim
  have hblock := List.all_eq_true.1 (h.2 a a.mem_nodes_self) c hc
  rw [← Bool.not_eq_true]
  intro hplain
  simp [mem_blockKinds_of_isPlainBlock hplain] at hblock

end Node

/-! ## Signatures -/

/-- **The order of statements does not count.**  If the statements of plain blocks are put in
another order, anywhere in a tree in which blocks stand for statements only, then the signature that
was extracted is extracted again, unless a name in it got a number. -/
theorem Signature.extract_reordered {root root' : Site} (h : Node.Reordered root.node root'.node)
    (hparent : root.parentNode?.map Node.kind = root'.parentNode?.map Node.kind)
    (hgrammar : ∀ n ∈ root.node.nodes, n.opensNoBlock = true) {options : TokenOptions}
    (hnames : ∀ forest, root.functions options = .ok forest →
      Located.named forest = Located.unnumbered forest)
    {s : Signature} (hs : extract options root = .ok s) : extract options root' = .ok s := by
  have hsame : (extract options root).toOption = (extract options root').toOption :=
    Site.extract_alike Node.spelled_shuffled ⟨h, hgrammar⟩ hparent not_false options
      fun forest _ hforest hlike => Located.flatten_eq_of_unnumbered hlike (hnames forest hforest)
  rw [← toOption_eq_some] at hs ⊢
  rw [← hsame, hs]

theorem Signature.functions_eq_flatten {root : Site} {options : TokenOptions} {s : Signature}
    (hs : extract options root = .ok s) {forest : List (Entry Located)}
    (hforest : root.functions options = .ok forest) : s.functions = Located.flatten forest := by
  obtain ⟨found, hfound, hs⟩ := bind_eq_ok.1 hs
  rw [hforest] at hfound
  cases hfound
  obtain ⟨literals, -, hs⟩ := bind_eq_ok.1 hs
  cases hs
  rfl

def Node.declares (name : String) (statements : List Node) : Node :=
  .plain "function_declaration" none [
    ⟨⟨0, "identifier", true, some "name", 0, ⟨0, 0⟩, name⟩, []⟩,
    .plain "formal_parameters" (some "parameters") [],
    .plain "statement_block" (some "body") statements]

def Node.calls (name : String) : Node :=
  .plain "expression_statement" none [.plain "call_expression" none [
    ⟨⟨0, "identifier", true, some "function", 0, ⟨0, 0⟩, name⟩, []⟩,
    .plain "arguments" (some "arguments") []]]

def Node.returns (numeral : String) : Node :=
  .plain "return_statement" none [⟨⟨0, "number", true, none, 0, ⟨0, 0⟩, numeral⟩, []⟩]

def Node.inOrder : Node :=
  .plain "program" none [.declares "f" [.calls "a", .returns "8"], .declares "g" []]

def Node.outOfOrder : Node :=
  .plain "program" none [.declares "g" [], .declares "f" [.returns "8", .calls "a"]]

theorem Node.reordered_outOfOrder : Reordered inOrder outOfOrder := by
  have hblock : Reordered (.plain "statement_block" (some "body") [.calls "a", .returns "8"])
      (.plain "statement_block" (some "body") [.returns "8", .calls "a"]) :=
    .mk rfl (.cons (.refl _) (.cons (.refl _) .nil)) (.inr ⟨by decide, .swap ..⟩)
  have hfunction : Reordered (.declares "f" [.calls "a", .returns "8"])
      (.declares "f" [.returns "8", .calls "a"]) :=
    .mk rfl (.cons (.refl _) (.cons (.refl _) (.cons hblock .nil))) (.refl _)
  exact .mk rfl (.cons hfunction (.cons (.refl _) .nil)) (.inr ⟨by decide, .swap ..⟩)

theorem Signature.extract_reordered_outOfOrder :
    ∃ s, extract {} ⟨Node.inOrder, []⟩ = .ok s ∧ s.functions.length = 2 ∧ s.literals.length = 1 ∧
      extract {} ⟨Node.outOfOrder, []⟩ = .ok s := by
  have hgrammar : ∀ n ∈ Node.inOrder.nodes, n.opensNoBlock = true := by decide +kernel
  have hnames : (((⟨Node.inOrder, []⟩ : Site).functions {}).toOption.map fun forest =>
      (Located.unnumbered forest).map Prod.fst) = some ["f", "g"] := by
    decide +kernel
  have hliterals : (extract {} ⟨Node.inOrder, []⟩).toOption.map (fun s => s.literals.length) =
      some 1 := by
    decide +kernel
  obtain ⟨forest, hforest, hnames⟩ := Option.map_eq_some_iff.1 hnames
  obtain ⟨s, hs, hliterals⟩ := Option.map_eq_some_iff.1 hliterals
  rw [toOption_eq_some] at hforest hs
  have hplain : Located.named forest = Located.unnumbered forest :=
    (Located.named_eq_unnumbered_iff forest).2 (by rw [hnames]; decide)
  have hfunctions : s.functions.length = 2 := by
    have hlength := congrArg List.length hnames
    rw [List.length_map, ← hplain] at hlength
    rw [functions_eq_flatten hs hforest, Located.flatten, List.length_mapIdx, List.length_mergeSort]
    exact hlength
  have hmoved : Node.Reordered (Site.mk Node.inOrder []).node (Site.mk Node.outOfOrder []).node :=
    Node.reordered_outOfOrder
  refine ⟨s, hs, hfunctions, hliterals, extract_reordered hmoved rfl hgrammar ?_ hs⟩
  intro other hother
  rw [hforest] at hother
  cases hother
  exact hplain

end Fingerprint
