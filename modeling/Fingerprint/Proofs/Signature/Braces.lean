import Mathlib.Tactic.Common
import Fingerprint.Proofs.Function.NamesAlike
import Fingerprint.Proofs.Signature.Alike
import Fingerprint.Proofs.Token.Abstraction
/-!
# Blocks are transparent

Braces around the body of a loop or of a condition do not change the signature: a block and the
statement in it count as one level, and neither is the statement a directive in braces if it was
none without.
-/

namespace Fingerprint

namespace Node

/-! ## Statements in braces -/

/-- Two nodes that are the same by themselves: the texts that they are known by agree, and the nodes
that are read in the order of the source keep this order. -/
structure ReadsSame (n n' : Node) : Prop where
  kind : n.kind = n'.kind
  named : n.named = n'.named
  spelled : n.kind ∈ "string" :: namingKinds → n.text = n'.text
  chunks : n.kind = "template_string" → n.chunks = n'.chunks
  regexText : n.kind = "regex" → n.regexText = n'.regexText
  shown : ∀ slot ∈ n.slots, (slot.shown n).map text = (slot.shown n').map text
  order : ∀ slot ∈ n.slots, SameOrder (slot.compared n) (slot.compared n')

instance (n n' : Node) : Decidable (ReadsSame n n') :=
  decidable_of_iff
    (n.kind = n'.kind ∧ n.named = n'.named ∧
      (n.kind ∈ "string" :: namingKinds → n.text = n'.text) ∧
      (n.kind = "template_string" → n.chunks = n'.chunks) ∧
      (n.kind = "regex" → n.regexText = n'.regexText) ∧
      (∀ slot ∈ n.slots, (slot.shown n).map text = (slot.shown n').map text) ∧
      ∀ slot ∈ n.slots, SameOrder (slot.compared n) (slot.compared n'))
    ⟨fun ⟨hkind, hnamed, hspelled, hchunks, hregex, hshown, horder⟩ =>
      ⟨hkind, hnamed, hspelled, hchunks, hregex, hshown, horder⟩,
      fun h => ⟨h.kind, h.named, h.spelled, h.chunks, h.regexText, h.shown, h.order⟩⟩

mutual

/-- Whether a second tree is the first one with braces around some of the statements that are bodies,
each block under the field and in the place of the statement in it. -/
def sameButBraces : Node → Node → Bool
  | n@⟨_, children⟩, n' => decide (ReadsSame n n') && sameButBracesAll n children n'.children

def sameButBracesAll (n : Node) : List Node → List Node → Bool
  | [], [] => true
  | c :: rest, c' :: rest' =>
    c.field == c'.field &&
      (sameButBraces c c' ||
        n.hosts c && c'.named && c'.kind == "statement_block" &&
          match c'.parts with
          | [inner] => sameButBraces c inner
          | _ => false) &&
      sameButBracesAll n rest rest'
  | _, _ => false

end

theorem sameButBraces_iff {n n' : Node} :
    sameButBraces n n' = true ↔
      ReadsSame n n' ∧ sameButBracesAll n n.children n'.children = true := by
  cases n
  rw [sameButBraces, Bool.and_eq_true, decide_eq_true_iff]

def isHost (n : Node) : Bool := hostKinds.contains n.kind

/-- Whether no statement with bodies stands where a node looks for a list, as the grammar has it. -/
def opensNoHost (n : Node) : Bool := n.opened.all (!·.isHost)

structure Braces (a b : Node) : Prop where
  same : sameButBraces a b = true
  opensNoHost : ∀ n ∈ a.nodes, n.opensNoHost = true

theorem Braces.readsSame {a b : Node} (h : Braces a b) : ReadsSame a b :=
  (sameButBraces_iff.1 h.same).1

theorem forall₂_of_sameButBracesAll {n : Node} : ∀ {as bs : List Node},
    (∀ c ∈ as, ∀ m ∈ c.nodes, m.opensNoHost = true) → sameButBracesAll n as bs = true →
      List.Forall₂ (Housed False Braces n) as bs
  | [], [], _, _ => .nil
  | [], _ :: _, _, h => by simp [sameButBracesAll] at h
  | _ :: _, [], _, h => by simp [sameButBracesAll] at h
  | c :: rest, c' :: rest', hgrammar, h => by
    obtain ⟨hc, hrest⟩ := List.forall_mem_cons.1 hgrammar
    simp only [sameButBracesAll, Bool.and_eq_true, Bool.or_eq_true, beq_iff_eq] at h
    obtain ⟨⟨hfield, hrelated⟩, hlater⟩ := h
    refine .cons ⟨hfield, ?_⟩ (forall₂_of_sameButBracesAll hrest hlater)
    rcases hrelated with hsame | ⟨⟨⟨hhosts, hnamed⟩, hkind⟩, hinside⟩
    · exact .inl (.of_rel ⟨hsame, hc⟩ hfield)
    · refine .inr ⟨hhosts, isSignificant_of_hosts hhosts, kind_not_mem_of_hosts hhosts, hnamed,
        hkind, ?_⟩
      split at hinside
      · exact ⟨_, ‹_›, hinside, hc⟩
      · cases hinside

theorem Braces.children {a b : Node} (h : Braces a b) :
    List.Forall₂ (Housed False Braces a) a.children b.children :=
  forall₂_of_sameButBracesAll
    (fun c hc m hm => h.opensNoHost m (mem_nodes_iff.2 (.inr ⟨c, hc, hm⟩)))
    (sameButBraces_iff.1 h.same).2

theorem kind_mem_of_isHost {n : Node} (h : n.isHost = true) : n.kind ∈ hostKinds :=
  List.contains_iff_mem.1 h

/-- Only in hosts there are new braces. -/
theorem alike_braces : Alike False False isHost Braces where
  kind_eq h := h.readsSame.kind
  named_eq h := h.readsSame.named
  kind_mem ha := List.mem_append_right _ (kind_mem_of_isHost ha)
  children {a b} h ha := by
    have hhost : a.kind ∉ hostKinds := by
      rw [← List.contains_iff_mem, Bool.not_eq_true]
      exact ha
    refine .of_forall₂ (h.children.imp fun _ _ hcd => hcd.beneath ?_)
    rw [bodyPlacesOf_eq_nil hhost]
    exact List.not_mem_nil
  statements {a b} _ ha hblock := by
    have hdisjoint : ∀ kind ∈ hostKinds, kind ∉ blockKinds := by decide
    exact absurd hblock (hdisjoint _ (kind_mem_of_isHost ha))
  hosted h _ _ := .of_forall₂ h.children

theorem spelled_braces : Spelled False False isHost Braces where
  toAlike := alike_braces
  shown_eq h hslot := h.readsSame.shown _ hslot
  order h hslot := h.readsSame.order _ hslot
  opened {a b c} h hc := by
    simpa using List.all_eq_true.1 (h.opensNoHost a a.mem_nodes_self) c hc
  reserved := False.elim
  binding := False.elim
  endsInN_eq h hkind := by
    rw [endsInN, endsInN, h.readsSame.spelled (by rw [hkind]; decide)]
  directiveTexts_eq := alike_braces.directiveTexts_eq fun h hkind =>
    h.readsSame.spelled (by rw [hkind]; decide)
  block_or_host ha := .inr (kind_mem_of_isHost ha)
  spelled h := h.readsSame.spelled
  chunks_eq h := h.readsSame.chunks
  regexText_eq h := h.readsSame.regexText

end Node

/-! ## Signatures -/

/-- **Blocks are transparent.**  If statements that are bodies are put in braces, wherever they stand
in a tree, then below roots that correspond the same signature is extracted, or none from either.
This holds for every choice of options, so also where the depth ends. -/
theorem Signature.extract_sameButBraces {root root' : Site}
    (h : Node.sameButBraces root.node root'.node = true)
    (hparent : root.parentNode?.map Node.kind = root'.parentNode?.map Node.kind)
    (hgrammar : ∀ n ∈ root.node.nodes, n.opensNoHost = true) (options : TokenOptions)
    (s : Signature) : extract options root = .ok s ↔ extract options root' = .ok s := by
  have hsame : (extract options root).toOption = (extract options root').toOption :=
    Site.extract_alike Node.spelled_braces ⟨h, hgrammar⟩ hparent not_false options
      fun _ _ _ hlike => Located.flatten_eq_of_like (hlike.forall₂ not_false)
  rw [← toOption_eq_some, ← toOption_eq_some, hsame]

/-- The rows of a function `f` that consists of a condition with an alternative; the condition ends
at a byte. -/
def Node.branching (stop elseStart : Nat) (consequence alternative : List Row) : List Row :=
  [⟨"program", true, none, 0, stop + 2, 1⟩,
    ⟨"function_declaration", true, none, 0, stop + 2, 4⟩,
    ⟨"function", false, none, 0, 8, 0⟩,
    ⟨"identifier", true, some "name", 9, 10, 0⟩,
    ⟨"formal_parameters", true, some "parameters", 10, 12, 2⟩,
    ⟨"(", false, none, 10, 11, 0⟩,
    ⟨")", false, none, 11, 12, 0⟩,
    ⟨"statement_block", true, some "body", 13, stop + 2, 3⟩,
    ⟨"\x7b", false, none, 13, 14, 0⟩,
    ⟨"if_statement", true, none, 15, stop, 4⟩,
    ⟨"if", false, none, 15, 17, 0⟩,
    ⟨"parenthesized_expression", true, some "condition", 18, 21, 3⟩,
    ⟨"(", false, none, 18, 19, 0⟩,
    ⟨"identifier", true, none, 19, 20, 0⟩,
    ⟨")", false, none, 20, 21, 0⟩] ++ consequence ++
  [⟨"else_clause", true, some "alternative", elseStart, stop, 2⟩,
    ⟨"else", false, none, elseStart, elseStart + 4, 0⟩] ++ alternative ++
  [⟨"\x7d", false, none, stop + 1, stop + 2, 0⟩]

def Node.stringRows (field : Option String) (start : Nat) : List Row :=
  [⟨"expression_statement", true, field, start, start + 4, 2⟩,
    ⟨"string", true, none, start, start + 3, 3⟩,
    ⟨"\"", false, none, start, start + 1, 0⟩,
    ⟨"string_fragment", true, none, start + 1, start + 2, 0⟩,
    ⟨"\"", false, none, start + 2, start + 3, 0⟩,
    ⟨";", false, none, start + 3, start + 4, 0⟩]

def Node.nameRows (start : Nat) : List Row :=
  [⟨"expression_statement", true, none, start, start + 2, 2⟩,
    ⟨"identifier", true, none, start, start + 1, 0⟩,
    ⟨";", false, none, start + 1, start + 2, 0⟩]

def Node.blockRows (field : Option String) (start stop : Nat) (statement : List Row) : List Row :=
  [⟨"statement_block", true, field, start, stop, 3⟩, ⟨"\x7b", false, none, start, start + 1, 0⟩] ++
    statement ++ [⟨"\x7d", false, none, stop - 1, stop, 0⟩]

/-- Where no level may be nested, both branches are too deep with braces as without. -/
theorem Signature.extract_sameButBraces_branches :
    ∃ t t', Node.ofRows? "function f() \x7b if (a) \"b\"; else c; \x7d"
        (Node.branching 34 27 (Node.stringRows (some "consequence") 22) (Node.nameRows 32)) =
          some t ∧
      Node.ofRows? "function f() \x7b if (a) \x7b \"b\"; \x7d else \x7b c; \x7d \x7d"
        (Node.branching 42 31 (Node.blockRows (some "consequence") 22 30 (Node.stringRows none 24))
          (Node.blockRows none 36 42 (Node.nameRows 38))) = some t' ∧
      Node.sameButBraces t t' = true ∧ (∀ n ∈ t.nodes, n.opensNoHost = true) ∧
      ∃ s, s.functions.map (·.name) = ["f"] ∧ extract { maxDepth := 0 } ⟨t, []⟩ = .ok s ∧
        extract { maxDepth := 0 } ⟨t', []⟩ = .ok s := by
  obtain ⟨t, t', ht, ht', hsame, hgrammar, hnames⟩ :
      ∃ t t', Node.ofRows? "function f() \x7b if (a) \"b\"; else c; \x7d"
          (Node.branching 34 27 (Node.stringRows (some "consequence") 22) (Node.nameRows 32)) =
            some t ∧
        Node.ofRows? "function f() \x7b if (a) \x7b \"b\"; \x7d else \x7b c; \x7d \x7d"
          (Node.branching 42 31
            (Node.blockRows (some "consequence") 22 30 (Node.stringRows none 24))
            (Node.blockRows none 36 42 (Node.nameRows 38))) = some t' ∧
        Node.sameButBraces t t' = true ∧ (∀ n ∈ t.nodes, n.opensNoHost = true) ∧
        (extract { maxDepth := 0 } ⟨t, []⟩).toOption.map (fun s => s.functions.map (·.name)) =
          some ["f"] :=
    Node.exists_trees (by decide +kernel)
  obtain ⟨s, hs, hnames⟩ := Option.map_eq_some_iff.1 hnames
  have hextract := toOption_eq_some.1 hs
  have hroot : Node.sameButBraces (Site.mk t []).node (Site.mk t' []).node = true := hsame
  exact ⟨t, t', ht, ht', hsame, hgrammar, s, hnames, hextract,
    (extract_sameButBraces hroot rfl hgrammar { maxDepth := 0 } s).1 hextract⟩

end Fingerprint
