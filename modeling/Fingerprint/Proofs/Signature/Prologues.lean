import Fingerprint.Proofs.Literal.Exposed
import Fingerprint.Proofs.Token.Directives
/-!
# Directive prologues in signatures

The strings of a prologue are directives wherever they are met: none of them is a literal, and they
are what the tokens of a function have directives for.
-/

namespace Fingerprint

namespace Site

theorem mem_literals_iff {root : Site} {literals : List Literal} (h : root.literals = .ok literals)
    {l : Literal} : l ∈ literals ↔ ∃ s, root.Exposed s ∧ s.node.Denotes l := by
  rw [Site.literals, map_eq_ok] at h
  obtain ⟨found, hfound, rfl⟩ := h
  rw [Literal.mem_ascending (isKept_of_mem_walk hfound), toListAll_walk hfound, List.mem_filterMap]
  refine exists_congr fun s => ?_
  rw [mem_offered_literal_iff]
  refine and_congr_right fun hexposed => ?_
  exact kept?_literal_iff (forall_offered_of_walk hfound s (mem_offered_literal_iff.2 hexposed))

theorem Exposed.outside {root s t : Site} (h : root.Exposed s) (ht : t ∈ root.inside)
    (hdirective : t.isDirective = true) : s ∉ t.inside := by
  intro hs
  have hsealed := (h.around t ht hs).2.1
  rw [isSealed, hdirective] at hsealed
  cases hsealed

theorem Exposed.outside_of_mem_all {root : Node} {s t : Site} {l : Literal}
    (h : Exposed ⟨root, []⟩ s) (hl : s.node.Denotes l) (ht : t ∈ all root)
    (hdirective : t.isDirective = true) : s ≠ t ∧ s ∉ t.inside := by
  constructor
  · rintro rfl
    exact not_denotes_of_isDirective hdirective l hl
  · rcases mem_all_iff.1 ht with rfl | hinside
    · rw [isDirective, Bool.and_eq_true] at hdirective
      exact absurd hdirective.2 Bool.false_ne_true
    · exact h.outside hinside hdirective

/-- The statements that are reached from one in the block of a function stand at plain places. -/
theorem hasPlain_of_body {root body m : Node} {f t : Site} {i : Nat} (hf : f ∈ all root)
    (hbody : f.node.children[i]? = some body) (hblock : body.kind = "statement_block")
    (hscopes : ∀ n ∈ root.nodes, n.opensNoScope = true) (ht : t ∈ (f.child i body).parts)
    (hm : t.node.Reaches m) : t.HasPlain m := by
  obtain ⟨j, c, hc, -, rfl⟩ := mem_parts_iff.1 ht
  have hmem : c ∈ body.children := List.mem_of_getElem? hc
  have hf : f.node ∈ root.nodes := by
    rcases mem_all_iff.1 hf with rfl | hinside
    · exact root.mem_nodes_self
    · exact node_mem_nodes_of_mem_inside hinside
  have hnodes : body ∈ root.nodes := Node.mem_nodes_trans
    (Node.mem_nodes_of_mem_children (List.mem_of_getElem? hbody)) _ hf
  have hfunction : body.isFunction = false :=
    Node.isFunction_eq_false (by rw [hblock]; decide)
  refine hasPlain_of_reaches (fun n hn => hscopes n ?_)
    (opensPrologue_child_eq_false hfunction ?_) hm
  · exact Node.mem_nodes_trans
      (Node.mem_nodes_trans hn _ (Node.mem_nodes_of_mem_children hmem)) _ hnodes
  · exact Node.kind_ne_program_of_opensNoScope (hscopes body hnodes) hmem

end Site

namespace Signature

/-- **Prologues are told apart.**  The directives of a tree are the statements of the prologues of
its programs and function bodies, but for programs with a hash-bang line, which have none.  No node
that a literal is captured for is in a directive.  In the body of a function the directives and only
they are rendered as directives: any other string statement there is a string, as are those in its
statements, none of which is a directive if nothing has a program in it and no function stands in
the place of a list or a clause. -/
theorem prologues_told_apart (root : Node) :
    (∀ t ∈ Site.all root, t.node.isSignificant = true →
      (t.isDirective = true ↔
        ∃ s ∈ Site.all root, s.IsBody ∧ s.hasHashBang = false ∧ t ∈ s.prologue)) ∧
    (∀ literals, Site.literals ⟨root, []⟩ = .ok literals →
      (∀ l, l ∈ literals ↔ ∃ s, Site.Exposed ⟨root, []⟩ s ∧ s.node.Denotes l) ∧
      ∀ s l, Site.Exposed ⟨root, []⟩ s → s.node.Denotes l →
        ∀ t ∈ Site.all root, t.isDirective = true → s ≠ t ∧ s ∉ t.inside) ∧
    ∀ f ∈ Site.all root, ∀ i body, f.node.children[i]? = some body →
      f.node.child? "body" = some body → body.kind = "statement_block" →
      (∀ options, f.node.functionTokens options =
        ((f.child i body).parts.mapM (Site.statementTokens options)).map fun groups =>
          f.node.parameterTokens options ++ groups.flatten) ∧
      ∀ t ∈ (f.child i body).parts, ∀ mode budget,
        (∀ token ∈ Statement.tokens mode budget t.node, token.category ≠ .directive) ∧
        (t.node.isStringStatement = true →
          Statement.tokens mode (budget + 1) t.node = [.shaped .literal "String" []]) ∧
        ((∀ n ∈ root.nodes, n.opensNoScope = true) → ∀ m, t.node.Reaches m →
          (∃ u ∈ t.inside, u.node = m ∧ u.isDirective = false) ∧
          (m.isStringStatement = true →
            Statement.tokens mode (budget + 1) m = [.shaped .literal "String" []])) := by
  refine ⟨fun t ht hsig => Site.isDirective_iff ht hsig, fun literals hliterals =>
    ⟨fun l => Site.mem_literals_iff hliterals, fun s l hexposed hdenotes t ht hdirective => ?_⟩,
    fun f hf i body hi hbody hblock => ⟨fun options => Site.functionTokens_eq rfl hbody hblock,
      fun t ht mode budget => ⟨fun token htoken => Statement.category_of_mem_tokens htoken,
        fun hstring => Statement.tokens_of_isStringStatement hstring mode budget,
        fun hscopes m hm => ⟨?_,
          fun hstring => Statement.tokens_of_isStringStatement hstring mode budget⟩⟩⟩⟩
  · exact hexposed.outside_of_mem_all hdenotes ht hdirective
  · obtain ⟨u, hu, hnode, hplain⟩ := Site.hasPlain_of_body hf hi hblock hscopes ht hm
    exact ⟨u, hu, hnode, hplain.here⟩

/-- The rows of a function with a directive, and a string statement in a block. -/
def strictFunction : List Row :=
  [⟨"program", true, none, 0, 23, 1⟩,
    ⟨"function_declaration", true, none, 0, 23, 4⟩,
    ⟨"function", false, none, 0, 8, 0⟩,
    ⟨"identifier", true, some "name", 9, 10, 0⟩,
    ⟨"formal_parameters", true, some "parameters", 10, 12, 2⟩,
    ⟨"(", false, none, 10, 11, 0⟩,
    ⟨")", false, none, 11, 12, 0⟩,
    ⟨"statement_block", true, some "body", 12, 23, 4⟩,
    ⟨"\x7b", false, none, 12, 13, 0⟩,
    ⟨"expression_statement", true, none, 13, 17, 2⟩,
    ⟨"string", true, none, 13, 16, 3⟩,
    ⟨"'", false, none, 13, 14, 0⟩,
    ⟨"string_fragment", true, none, 14, 15, 0⟩,
    ⟨"'", false, none, 15, 16, 0⟩,
    ⟨";", false, none, 16, 17, 0⟩,
    ⟨"statement_block", true, none, 17, 22, 3⟩,
    ⟨"\x7b", false, none, 17, 18, 0⟩,
    ⟨"expression_statement", true, none, 18, 21, 1⟩,
    ⟨"string", true, none, 18, 21, 3⟩,
    ⟨"'", false, none, 18, 19, 0⟩,
    ⟨"string_fragment", true, none, 19, 20, 0⟩,
    ⟨"'", false, none, 20, 21, 0⟩,
    ⟨"\x7d", false, none, 21, 22, 0⟩,
    ⟨"\x7d", false, none, 22, 23, 0⟩]

theorem prologues_told_apart_strictFunction :
    ∃ root, Node.ofRows? "function f()\x7b'a';\x7b'b'\x7d\x7d" strictFunction = some root ∧
      (∃ t ∈ Site.all root, t.node.isSignificant = true ∧ t.isDirective = true ∧
        ∃ s ∈ Site.all root, s.IsBody ∧ s.hasHashBang = false ∧ t ∈ s.prologue) ∧
      (∃ literals, Site.literals ⟨root, []⟩ = .ok literals ∧
        ∀ l, l ∈ literals ↔ ∃ s, Site.Exposed ⟨root, []⟩ s ∧ s.node.Denotes l) ∧
      ∃ f ∈ Site.all root, ∃ i body, f.node.child? "body" = some body ∧
        (∀ options, f.node.functionTokens options =
          ((f.child i body).parts.mapM (Site.statementTokens options)).map fun groups =>
            f.node.parameterTokens options ++ groups.flatten) ∧
        ∃ t ∈ (f.child i body).parts, ∃ m, t.node.Reaches m ∧ m.isStringStatement = true ∧
          ∃ u ∈ t.inside, u.node = m ∧ u.isDirective = false := by
  have hchecked : (Node.ofRows? "function f()\x7b'a';\x7b'b'\x7d\x7d" strictFunction).map
      (fun root => ((Site.all root).any fun t => t.node.isSignificant && t.isDirective) &&
        ((Site.walk (fun _ s => s.literal) ⟨root, []⟩).toOption.any fun found =>
          (Entry.toListAll found).any fun l => decide (l = .text "b")) &&
        root.nodes.all Node.opensNoScope && (Site.all root).any fun f =>
          (f.node.child? "body").any fun body => body.kind == "statement_block" &&
            body.parts.any fun block => block.kind == "statement_block" &&
              block.parts.any Node.isStringStatement) = some true := by
    decide +kernel
  obtain ⟨root, hroot, hall⟩ := Option.map_eq_some_iff.1 hchecked
  rw [Bool.and_eq_true, Bool.and_eq_true, Bool.and_eq_true] at hall
  obtain ⟨⟨⟨hdirective, hfound⟩, hscopes⟩, hbody⟩ := hall
  simp only [Bool.and_eq_true, List.any_eq_true, List.all_eq_true, Option.any_eq_true,
    beq_iff_eq] at hdirective hscopes hbody
  obtain ⟨t, ht, hsig, hdirective⟩ := hdirective
  obtain ⟨f, hf, body, hbody, hblock, block, hmem, hkind, m, hm, hstring⟩ := hbody
  obtain ⟨literals, hread, -⟩ := Site.exists_literals_of_found hfound
  obtain ⟨hdirectives, hliterals, hbodies⟩ := prologues_told_apart root
  obtain ⟨i, hi⟩ := List.mem_iff_getElem?.1 (Node.mem_children_of_child? hbody)
  obtain ⟨htokens, hstatements⟩ := hbodies f hf i body hi hbody hblock
  have hnodes : (f.child i body).parts.map Site.node = body.parts := Site.map_node_parts _
  rw [← hnodes] at hmem
  obtain ⟨u, hu, rfl⟩ := List.mem_map.1 hmem
  have hreach : u.node.Reaches m := Node.reaches_of_block hkind hm
  exact ⟨root, hroot, ⟨t, ht, hsig, hdirective, (hdirectives t ht hsig).1 hdirective⟩,
    ⟨literals, hread, (hliterals literals hread).1⟩, f, hf, i, body, hbody, htokens, u, hu, m,
    hreach, hstring, ((hstatements u hu .full 0).2.2 hscopes m hreach).1⟩

/-- The rows of a program that begins with a hash-bang line, before a string statement. -/
def strictScript : List Row :=
  [⟨"program", true, none, 0, 33, 2⟩,
    ⟨"hash_bang_line", true, none, 0, 19, 0⟩,
    ⟨"expression_statement", true, none, 20, 33, 2⟩,
    ⟨"string", true, none, 20, 32, 3⟩,
    ⟨"'", false, none, 20, 21, 0⟩,
    ⟨"string_fragment", true, none, 21, 31, 0⟩,
    ⟨"'", false, none, 31, 32, 0⟩,
    ⟨";", false, none, 32, 33, 0⟩]

/-- After a hash-bang line a statement of the prologue is no directive, and its string is a
literal. -/
theorem literals_strictScript :
    ∃ root, Node.ofRows? "#!/usr/bin/env node\n'use strict';" strictScript = some root ∧
      (∃ t ∈ Site.prologue ⟨root, []⟩, Site.IsBody ⟨root, []⟩ ∧ t.isDirective = false) ∧
      ∃ literals, Site.literals ⟨root, []⟩ = .ok literals ∧ .text "use strict" ∈ literals := by
  have hchecked : (Node.ofRows? "#!/usr/bin/env node\n'use strict';" strictScript).map
      (fun root => root.kind == "program" &&
        ((Site.prologue ⟨root, []⟩).any fun t => !t.isDirective) &&
        ((Site.walk (fun _ s => s.literal) ⟨root, []⟩).toOption.any fun found =>
          (Entry.toListAll found).any fun l => decide (l = .text "use strict"))) = some true := by
    decide +kernel
  obtain ⟨root, hroot, hall⟩ := Option.map_eq_some_iff.1 hchecked
  rw [Bool.and_eq_true, Bool.and_eq_true] at hall
  obtain ⟨⟨hkind, hprologue⟩, hfound⟩ := hall
  obtain ⟨t, ht, hdirective⟩ := List.any_eq_true.1 hprologue
  exact ⟨root, hroot, ⟨t, ht, .inl (eq_of_beq hkind), by simpa using hdirective⟩,
    Site.exists_literals_of_found hfound⟩

end Signature

end Fingerprint
