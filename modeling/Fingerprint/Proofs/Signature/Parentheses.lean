import Mathlib.Tactic.Common
import Fingerprint.Proofs.Function.NamesAlike
import Fingerprint.Proofs.Literal.Parentheses
import Fingerprint.Proofs.Signature.Alike
import Fingerprint.Tree.Traversal
/-!
# Parentheses are transparent

A tree in which expressions are put in parentheses has the functions that it had before: the same
names, in the same order, with the same tokens.  Its literals may differ, since a minus sign in
front of a parenthesis belongs to no number, but they are still found.
-/

namespace Fingerprint

namespace Node

/-! ## Expressions in parentheses -/

/-- Two nodes that are the same by themselves: a node keeps its text unless something comes in below
it, and the nodes that are read in the order of the source keep this order. -/
structure Agrees (n n' : Node) : Prop where
  kind : n.kind = n'.kind
  named : n.named = n'.named
  text : n.size = n'.size → n.text = n'.text
  order : ∀ slot ∈ n.slots, SameOrder (slot.compared n) (slot.compared n')

instance (n n' : Node) : Decidable (Agrees n n') :=
  decidable_of_iff
    (n.kind = n'.kind ∧ n.named = n'.named ∧ (n.size = n'.size → n.text = n'.text) ∧
      ∀ slot ∈ n.slots, SameOrder (slot.compared n) (slot.compared n'))
    ⟨fun ⟨hkind, hnamed, htext, horder⟩ => ⟨hkind, hnamed, htext, horder⟩,
      fun h => ⟨h.kind, h.named, h.text, h.order⟩⟩

mutual

/-- Whether a second tree is the first one with parentheses around some of its expressions, each
pair of them under the field and in the place of what it encloses. -/
def parenthesized : Node → Node → Bool
  | n@⟨_, children⟩, n' => decide (Agrees n n') && parenthesizedAll n children n'.children

def parenthesizedAll (n : Node) : List Node → List Node → Bool
  | [], [] => true
  | c :: rest, c' :: rest' =>
    c.field == c'.field &&
      (parenthesized c c' ||
        n.takes c && c'.named && c'.kind == "parenthesized_expression" &&
          match c'.parts with
          | [inner] => parenthesized c inner
          | _ => false) &&
      parenthesizedAll n rest rest'
  | _, _ => false

end

theorem parenthesized_iff {n n' : Node} :
    parenthesized n n' = true ↔ Agrees n n' ∧ parenthesizedAll n n.children n'.children = true := by
  cases n
  rw [parenthesized, Bool.and_eq_true, decide_eq_true_iff]

def isPlain (n : Node) : Bool := n.nodes.all fun m => m.children.all (!m.takes ·)

/-- What the grammar promises of a node.  Names, strings and the like have no expressions in them,
lists of parameters, clauses and cases have none among their elements, and no string without a quote
stands beside a negated number, even where the parser skipped something there. -/
def isRegular (n : Node) : Bool :=
  n.spelledBy.all isPlain && n.reserved.all (fun p => !p.1.takes p.2) &&
    (n.negatedNumber?.isNone || n.parts.all fun c =>
      c.kind == "number" || c.nodes.all fun m => m.kind != "string" || m.isQuoted)

/-- Whether a function has no parentheses in the patterns of its parameters, where they are no part
of the language. -/
def bindsBare (n : Node) : Bool :=
  !n.isFunction || n.parameters.all isBinding

structure Eases (a b : Node) : Prop where
  parenthesized : parenthesized a b = true
  regular : ∀ n ∈ a.nodes, n.isRegular = true
  bindsBare : ∀ n ∈ b.nodes, n.bindsBare = true

theorem Eases.agrees {a b : Node} (h : Eases a b) : Agrees a b :=
  (parenthesized_iff.1 h.parenthesized).1

theorem isRegular_iff {n : Node} :
    n.isRegular = true ↔ (∀ c ∈ n.spelledBy, c.isPlain = true) ∧
      (∀ p ∈ n.reserved, p.1.takes p.2 = false) ∧
      (n.negatedNumber? = none ∨ ∀ c ∈ n.parts,
        c.kind = "number" ∨ ∀ m ∈ c.nodes, m.kind = "string" → m.isQuoted = true) := by
  simp only [isRegular, Bool.and_eq_true, Bool.or_eq_true, List.all_eq_true, Bool.not_eq_true',
    Option.isNone_iff_eq_none, beq_iff_eq, bne_iff_ne, and_assoc, imp_iff_not_or, ne_eq]

theorem forall₂_of_parenthesizedAll {n : Node} : ∀ {as bs : List Node},
    (∀ c ∈ as, ∀ m ∈ c.nodes, m.isRegular = true) →
      (∀ d ∈ bs, ∀ m ∈ d.nodes, m.bindsBare = true) → parenthesizedAll n as bs = true →
        List.Forall₂ (Beneath True Eases n) as bs
  | [], [], _, _, _ => .nil
  | [], _ :: _, _, _, h => by simp [parenthesizedAll] at h
  | _ :: _, [], _, _, h => by simp [parenthesizedAll] at h
  | c :: rest, c' :: rest', hregular, hbare, h => by
    obtain ⟨hc, hrest⟩ := List.forall_mem_cons.1 hregular
    obtain ⟨hc', hrest'⟩ := List.forall_mem_cons.1 hbare
    simp only [parenthesizedAll, Bool.and_eq_true, Bool.or_eq_true, beq_iff_eq] at h
    obtain ⟨⟨hfield, hrelated⟩, hlater⟩ := h
    refine .cons ⟨hfield, ?_⟩ (forall₂_of_parenthesizedAll hrest hrest' hlater)
    rcases hrelated with hsame | ⟨⟨⟨htakes, hnamed⟩, hkind⟩, hinside⟩
    · exact .inl ⟨hsame, hc, hc'⟩
    · refine .inr ⟨trivial, htakes, isExpression_of_takes htakes, hnamed, hkind, ?_⟩
      split at hinside
      · rename_i inner hinner
        have hmem : inner ∈ c'.children := mem_children_of_mem_parts (by simp [hinner])
        exact ⟨inner, hinner, hinside, hc,
          fun m hm => hc' m (mem_nodes_iff.2 (.inr ⟨inner, hmem, hm⟩))⟩
      · cases hinside

theorem Eases.children {a b : Node} (h : Eases a b) :
    List.Forall₂ (Beneath True Eases a) a.children b.children := by
  refine forall₂_of_parenthesizedAll (fun c hc m hm => ?_) (fun d hd m hm => ?_)
    (parenthesized_iff.1 h.parenthesized).2
  · exact h.regular m (mem_nodes_iff.2 (.inr ⟨c, hc, hm⟩))
  · exact h.bindsBare m (mem_nodes_iff.2 (.inr ⟨d, hd, hm⟩))

theorem alike_eases : Alike False True (fun _ => false) Eases where
  kind_eq h := h.agrees.kind
  named_eq h := h.agrees.named
  kind_mem ha := nomatch ha
  children h _ := .of_forall₂ h.children
  statements _ ha := nomatch ha
  hosted _ ha := nomatch ha

theorem sizes_eq_of_forall₂ {as bs : List Node}
    (h : List.Forall₂ (fun c d => c.size = d.size) as bs) : sizes as = sizes bs := by
  induction h with
  | nil => rfl
  | cons hcd _ ih => rw [sizes, sizes, hcd, ih]

/-- Where there is no place for an expression nothing comes in. -/
theorem Eases.size_eq {a : Node} : ∀ {b : Node}, Eases a b → a.isPlain = true → a.size = b.size := by
  induction a using Node.induction with
  | node a ih =>
    intro b h hplain
    rw [isPlain, List.all_eq_true] at hplain
    have hself := List.all_eq_true.1 (hplain a a.mem_nodes_self)
    have hsizes : sizes a.children = sizes b.children := by
      refine sizes_eq_of_forall₂ ((forall₂_mem h.children).imp ?_)
      rintro c d ⟨hc, -, hcd⟩
      refine ih c hc (hcd.strict fun _ => by simpa using hself c hc) ?_
      rw [isPlain, List.all_eq_true]
      exact fun m hm => hplain m (mem_nodes_iff.2 (.inr ⟨c, hc, hm⟩))
    obtain ⟨label, children⟩ := a
    obtain ⟨label', children'⟩ := b
    rw [size, size, hsizes]

theorem spelled_eases : Spelled False True (fun _ => false) Eases := by
  have hregular : ∀ {a b : Node}, Eases a b → a.isRegular = true :=
    fun {a b} hab => hab.regular a a.mem_nodes_self
  refine .of_spelledBy alike_eases nofun (fun hab hc _ hcd => hcd.agrees.text ?_)
    (fun hab hslot => hab.agrees.order _ hslot) (fun _ _ => rfl)
    (fun _ _ _ hab => (isRegular_iff.1 (hregular hab)).2.1) fun _ {a b} hab hfunction => ?_
  · exact hcd.size_eq ((isRegular_iff.1 (hregular hab)).1 _ hc)
  · have hbare := hab.bindsBare b b.mem_nodes_self
    rw [bindsBare, ← alike_eases.isFunction_eq hab, hfunction] at hbare
    exact List.all_eq_true.1 hbare

end Node

/-! ## Literals are found all the same -/

namespace Site

variable {root root' : Site}

/-- Below a negated number no string is torn, so a walk that goes on there meets no fault. -/
theorem isSome_walk_of_negated {x : Site} (hregular : x.node.isRegular = true) {number : Node}
    (hnumber : x.node.negatedNumber? = some number) :
    (x.walk fun _ s => s.literal).toOption.isSome = true := by
  have hbeside := (Node.isRegular_iff.1 hregular).2.2.resolve_left (by simp [hnumber])
  cases hwalk : x.walk fun _ s => s.literal with
  | ok found => rfl
  | error fault =>
    obtain ⟨s, hs, hfault⟩ := exists_offered_of_walk_eq_error hwalk
    obtain ⟨-, hkind, htorn⟩ := eq_torn_of_literal hfault
    obtain ⟨i, c, hc, hsig, hs⟩ := mem_offered_iff.1 hs
    rcases hbeside c (List.mem_filter.2 ⟨List.mem_of_getElem? hc, hsig⟩) with hnumber | hquoted
    · rcases hs with rfl | ⟨hdescends, -⟩
      · exact absurd (hkind.symm.trans hnumber) (by decide)
      · have hsealed := (descends_literal_iff.1 hdescends).1
        rw [isSealed, Bool.or_eq_false_iff, Node.isWhole_eq_false] at hsealed
        exact absurd (show c.kind ∈ Node.literalKinds by rw [hnumber]; decide) hsealed.2.1
    · have hmem : s.node ∈ c.nodes := by
        rcases hs with rfl | ⟨-, hs⟩
        · exact c.mem_nodes_self
        · exact node_mem_nodes_of_mem_inside ((offered_sublist _).subset hs)
      rw [hquoted _ hmem hkind] at htorn
      cases htorn

section

variable (hnode : Node.Eases root.node root'.node)
  (hparent : root.parentNode?.map Node.kind = root'.parentNode?.map Node.kind)
include hnode hparent

theorem isSome_literals_eq : root.literals.toOption.isSome = root'.literals.toOption.isSome := by
  rw [literals, literals, toOption_map, toOption_map, Option.isSome_map, Option.isSome_map]
  have hparts : ∀ {s s' : Site}, SitesAlike Node.Eases root root' s s' →
      Arranged False (Past literal (OfferedAlike Node.Eases root root')) s.parts s'.parts :=
    fun hs => (parts_alike Node.spelled_eases hs).imp fun _ _ => past_of_partsAlike
  refine isSome_walk_eq (fun hs => hparts hs.toSitesAlike) (fun {x x'} hx => ?_)
    (hparts (sitesAlike_root hnode hparent))
  rcases Node.negatedNumber?_cases Node.spelled_eases hx.node with
    hnegated | ⟨-, hapart, number, hnumber⟩
  · left
    rw [literal, literal, hx.directive,
      Node.literal_eq_of_negatedNumber? Node.spelled_eases hx.node hnegated]
  · have hkind := hx.node.agrees.kind ▸ Node.kind_of_negatedNumber? hnumber
    refine .inr ⟨⟨_, literal_of_negatedNumber? hnumber, Literal.ofNumeral_descend true _⟩, ?_,
      isSome_walk_of_negated (hx.node.regular _ x.node.mem_nodes_self) hnumber⟩
    rw [literal_of_unary hkind hapart]
    rfl

end

end Site

/-! ## Functions stay the same -/

/-- **Parentheses are transparent.**  If expressions of a tree are put in parentheses, wherever the
grammar lets them, then the same functions are extracted below roots that correspond, or nothing is
extracted from either.  This holds for every choice of options.  Of the trees it is asked that their
names, strings and lists are as the grammar has them, and of the second one that there are no
parentheses in the patterns of parameters. -/
theorem Signature.functions_parenthesized {root root' : Site}
    (h : Node.parenthesized root.node root'.node = true)
    (hparent : root.parentNode?.map Node.kind = root'.parentNode?.map Node.kind)
    (hregular : ∀ n ∈ root.node.nodes, n.isRegular = true)
    (hbare : ∀ n ∈ root'.node.nodes, n.bindsBare = true) (options : TokenOptions) :
    (extract options root).toOption.map functions =
      (extract options root').toOption.map functions := by
  have hnode : Node.Eases root.node root'.node := ⟨h, hregular, hbare⟩
  have hliterals := Site.isSome_literals_eq hnode hparent
  have hforests := Site.functions_alike Node.spelled_eases hnode hparent options
  simp only [extract, toOption_bind]
  rcases rel_cases hforests with ⟨hnone, hnone'⟩ | ⟨forest, forest', hforest, hforest', hlike⟩
  · rw [hnone, hnone']
    rfl
  · have hsame := Located.flatten_eq_of_like (hlike.forall₂ not_false)
    rw [hforest, hforest', Option.bind_some, Option.bind_some, hsame]
    revert hliterals
    cases root.literals.toOption <;> cases root'.literals.toOption <;> simp [pure, Except.pure,
      Except.toOption]

/-- The rows of `let g = () => -8;`. -/
def Node.bindingArrow : List Row :=
  [⟨"program", true, none, 0, 17, 1⟩,
    ⟨"lexical_declaration", true, none, 0, 17, 3⟩,
    ⟨"let", false, some "kind", 0, 3, 0⟩,
    ⟨"variable_declarator", true, none, 4, 16, 3⟩,
    ⟨"identifier", true, some "name", 4, 5, 0⟩,
    ⟨"=", false, none, 6, 7, 0⟩,
    ⟨"arrow_function", true, some "value", 8, 16, 3⟩,
    ⟨"formal_parameters", true, some "parameters", 8, 10, 2⟩,
    ⟨"(", false, none, 8, 9, 0⟩,
    ⟨")", false, none, 9, 10, 0⟩,
    ⟨"=>", false, none, 11, 13, 0⟩,
    ⟨"unary_expression", true, some "body", 14, 16, 2⟩,
    ⟨"-", false, some "operator", 14, 15, 0⟩,
    ⟨"number", true, some "argument", 15, 16, 0⟩,
    ⟨";", false, none, 16, 17, 0⟩]

def Node.bindingEnclosedArrow : List Row :=
  [⟨"program", true, none, 0, 21, 1⟩,
    ⟨"lexical_declaration", true, none, 0, 21, 3⟩,
    ⟨"let", false, some "kind", 0, 3, 0⟩,
    ⟨"variable_declarator", true, none, 4, 20, 3⟩,
    ⟨"identifier", true, some "name", 4, 5, 0⟩,
    ⟨"=", false, none, 6, 7, 0⟩,
    ⟨"parenthesized_expression", true, some "value", 8, 20, 3⟩,
    ⟨"(", false, none, 8, 9, 0⟩,
    ⟨"arrow_function", true, none, 9, 19, 3⟩,
    ⟨"formal_parameters", true, some "parameters", 9, 11, 2⟩,
    ⟨"(", false, none, 9, 10, 0⟩,
    ⟨")", false, none, 10, 11, 0⟩,
    ⟨"=>", false, none, 12, 14, 0⟩,
    ⟨"unary_expression", true, some "body", 15, 19, 2⟩,
    ⟨"-", false, some "operator", 15, 16, 0⟩,
    ⟨"parenthesized_expression", true, some "argument", 16, 19, 3⟩,
    ⟨"(", false, none, 16, 17, 0⟩,
    ⟨"number", true, none, 17, 18, 0⟩,
    ⟨")", false, none, 18, 19, 0⟩,
    ⟨")", false, none, 19, 20, 0⟩,
    ⟨";", false, none, 20, 21, 0⟩]

theorem Signature.functions_parenthesized_boundArrow :
    ∃ t t', Node.ofRows? "let g = () => -8;" Node.bindingArrow = some t ∧
      Node.ofRows? "let g = (() => -(8));" Node.bindingEnclosedArrow = some t' ∧
      Node.parenthesized t t' = true ∧ (∀ n ∈ t.nodes, n.isRegular = true) ∧
      (∀ n ∈ t'.nodes, n.bindsBare = true) ∧
      (extract {} ⟨t, []⟩).toOption.map functions = some [
        { name := "g"
          index := 0
          statementTypes := ["EXPRESSION:Unary"]
          statementTokens := ["EXPRESSION:Unary[-,LITERAL:Numeric]"] }] ∧
      (extract {} ⟨t, []⟩).toOption.map functions =
        (extract {} ⟨t', []⟩).toOption.map functions := by
  obtain ⟨t, t', ht, ht', hsame, hregular, hbare, hfunctions⟩ :
      ∃ t t', Node.ofRows? "let g = () => -8;" Node.bindingArrow = some t ∧
        Node.ofRows? "let g = (() => -(8));" Node.bindingEnclosedArrow = some t' ∧
        Node.parenthesized t t' = true ∧ (∀ n ∈ t.nodes, n.isRegular = true) ∧
        (∀ n ∈ t'.nodes, n.bindsBare = true) ∧
        (extract {} ⟨t, []⟩).toOption.map functions = some [
          { name := "g"
            index := 0
            statementTypes := ["EXPRESSION:Unary"]
            statementTokens := ["EXPRESSION:Unary[-,LITERAL:Numeric]"] }] :=
    Node.exists_trees (by decide +kernel)
  have hroot : Node.parenthesized (Site.mk t []).node (Site.mk t' []).node = true := hsame
  exact ⟨t, t', ht, ht', hsame, hregular, hbare, hfunctions,
    functions_parenthesized hroot rfl hregular hbare {}⟩

end Fingerprint
