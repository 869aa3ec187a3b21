import Mathlib.Data.List.Infix
import Mathlib.Tactic.Common
import Fingerprint.Proofs.Signature.Declarations
import Fingerprint.Proofs.Token.Depth
import Fingerprint.Token.Chain
/-!
# Chains of conditions

The loop that walks a chain of conditions pushes what a recursion over its alternatives gives.  A
chain falls into sections, each a header and the statements under it, and all of them are at the same
level, however many come before.
-/

namespace Fingerprint

theorem infix_append_cons_iff {α : Type} {l before after : List α} {c : α} (hc : c ∉ l) :
    l <:+: before ++ c :: after ↔ l <:+: before ∨ l <:+: after := by
  have hnil {l' : List α} (hc : c ∉ l') (h : l' <+: c :: after) : l' = [] := by
    rcases List.prefix_cons_iff.1 h with rfl | ⟨_, rfl, _⟩
    · rfl
    · exact absurd List.mem_cons_self hc
  constructor
  · intro h
    rcases List.infix_append_iff.1 h with h | h | ⟨l₁, l₂, rfl, h₁, h₂⟩
    · exact .inl h
    · rcases List.infix_cons_iff.1 h with h | h
      · rw [hnil hc h]
        exact .inl List.nil_infix
      · exact .inr h
    · rw [hnil (fun hmem => hc (List.mem_append_right l₁ hmem)) h₂, List.append_nil]
      exact .inl h₁.isInfix
  · rintro (h | h)
    · exact h.trans (List.prefix_append _ _).isInfix
    · exact h.trans ((List.suffix_cons c after).trans (List.suffix_append _ _)).isInfix

namespace Node

/-! ## Alternatives and links -/

theorem chain_eq_alternative (n : Node) :
    n.chain =
      match n.alternative? with
      | none => ([], .open)
      | some none => ([], .otherwise none)
      | some (some next) =>
        if next.kind = "if_statement" then (next :: next.chain.1, next.chain.2)
        else ([], .otherwise (some next)) := by
  rw [chain_eq, chainAt_eq, alternative?, child?]
  cases n.children.find? fun c => c.field == some "alternative" with
  | none => rfl
  | some c =>
    rw [Option.map_some]
    dsimp only
    split
    · rw [chainElse_eq, parts, List.head?_filter]
      cases c.children.find? isSignificant <;> rfl
    · rfl

def links (n : Node) : List Node := n :: n.chain.1

def consequences (n : Node) : List Node := ((n.child? "consequence").map bodyStatements).getD []

theorem bodyUnder_consequence (n : Node) : n.bodyUnder ["consequence"] = n.consequences := by
  rw [bodyUnder, consequences]
  cases n.child? "consequence" <;> rfl

theorem linkPieces_eq (read below : Reading) (tag : String) :
    linkPieces read below tag = fun n =>
      .token (n.linkToken read tag) :: n.consequences.map .inner := by
  funext n
  rw [linkPieces, bodyUnder_consequence]
  rfl

/-- The headers of a chain, each with the statements under it. -/
def chainSections (read : Reading) (tag : String) (n : Node) : List (Token × List Node) :=
  (n.linkToken read tag, n.consequences) ::
      n.chain.1.map (fun c => (c.linkToken read "Else-If", c.consequences)) ++
    match n.chain.2 with
    | .open => []
    | .otherwise statement =>
      [(.shaped .statement "Else" [], (statement.map bodyStatements).getD [])]

theorem chainSections_eq (read : Reading) (tag : String) (n : Node) :
    n.chainSections read tag =
      (n.linkToken read tag, n.consequences) ::
        match n.alternative? with
        | none => []
        | some none => [(.shaped .statement "Else" [], [])]
        | some (some next) =>
          if next.kind = "if_statement" then next.chainSections read "Else-If"
          else [(.shaped .statement "Else" [], next.bodyStatements)] := by
  rw [chainSections, chain_eq_alternative]
  rcases n.alternative? with _ | _ | next
  · rfl
  · rfl
  · dsimp only
    split <;> rfl

theorem chainPieces_eq_sections (read below : Reading) (n : Node) :
    n.chainPieces read below =
      (n.chainSections read "If").flatMap fun s => .token s.1 :: s.2.map .inner := by
  rw [chainPieces, linkPieces_eq, linkPieces_eq, chainSections, List.flatMap_append,
    List.flatMap_cons, List.flatMap_map]
  obtain ⟨links, last⟩ := n.chain
  cases last with
  | «open» => rfl
  | otherwise statement =>
    rw [List.flatMap_singleton]

/-! ## Headers -/

theorem kinds_of_sections (read : Reading) (n : Node) :
    (n.chainSections read "If").map (fun s => tokenKind s.1.text) =
      "STATEMENT:If" :: List.replicate (n.links.length - 1) "STATEMENT:Else-If" ++
        match n.chain.2 with
        | .open => []
        | .otherwise _ => ["STATEMENT:Else"] := by
  have hhead : tokenKind (n.linkToken read "If").text = "STATEMENT:If" :=
    (Token.tokenKind_text .statement "If" _).trans (by decide)
  have hlink (c : Node) : tokenKind (c.linkToken read "Else-If").text = "STATEMENT:Else-If" :=
    (Token.tokenKind_text .statement "Else-If" _).trans (by decide)
  have helse : tokenKind (Token.shaped .statement "Else" []).text = "STATEMENT:Else" := by decide
  rw [chainSections, links, List.map_append, List.map_cons, List.map_map, hhead,
    List.length_cons, Nat.add_sub_cancel, ← List.map_const']
  simp only [Function.comp_def, hlink]
  cases n.chain.2 with
  | «open» => rfl
  | otherwise statement =>
    rw [List.map_singleton, helse]

/-- The brackets around a condition are not part of what says that something was too deep. -/
theorem showsLimit_linkToken (read : Reading) (tag : String)
    (htag : ¬showsLimit ("STATEMENT:" ++ tag)) (n : Node) :
    showsLimit (n.linkToken read tag).text ↔ showsLimit (n.conditionText read) := by
  have htext : (n.linkToken read tag).text.toList =
      ("STATEMENT:" ++ tag).toList ++ '[' :: ((n.conditionText read).toList ++ ']' :: []) := by
    simp [linkToken, Token.text, Token.commas, Category.text]
  have hempty : ¬"depth-limit".toList <:+: [] := by decide
  rw [showsLimit, htext, infix_append_cons_iff (by decide), infix_append_cons_iff (by decide)]
  exact ⟨fun h => (h.resolve_left htag).resolve_right hempty, fun h => .inr (.inl h)⟩

theorem exists_header_showsLimit (read : Reading) (n : Node) :
    (∃ s ∈ n.chainSections read "If", showsLimit s.1.text) ↔
      ∃ link ∈ n.links, showsLimit (link.conditionText read) := by
  have hhead := showsLimit_linkToken read "If" (by decide) n
  have hlink := showsLimit_linkToken read "Else-If" (by decide)
  have helse : ¬showsLimit (Token.shaped .statement "Else" []).text := by decide
  rw [chainSections, links]
  cases n.chain.2 <;> simp [hhead, hlink, helse]

end Node

namespace Statement

/-! ## The recursion over alternatives -/

/-- The tokens of a chain from one of its links on; the statements under the links have `levels`. -/
def chainTokens (mode : TokenMode) (levels : Nat) (n : Node) (tag : String) : List Token :=
  n.linkToken (Expression.text levels) tag :: n.consequences.flatMap (tokens mode levels) ++
    match _h : n.alternative? with
    | none => []
    | some none => [.shaped .statement "Else" []]
    | some (some next) =>
      if next.kind = "if_statement" then chainTokens mode levels next "Else-If"
      else .shaped .statement "Else" [] :: next.bodyStatements.flatMap (tokens mode levels)
termination_by sizeOf n
decreasing_by exact Node.sizeOf_lt_of_alternative? _h

theorem chainTokens_eq_sections (mode : TokenMode) (levels : Nat) (n : Node) (tag : String) :
    chainTokens mode levels n tag =
      (n.chainSections (Expression.text levels) tag).flatMap fun s =>
        s.1 :: s.2.flatMap (tokens mode levels) := by
  rw [chainTokens, Node.chainSections_eq, List.flatMap_cons]
  congr 1
  split
  · rename_i h
    rw [h]
    rfl
  · rename_i h
    rw [h]
    rfl
  · rename_i next h
    rw [h]
    dsimp only
    split
    · exact chainTokens_eq_sections mode levels next "Else-If"
    · rw [List.flatMap_singleton]
termination_by sizeOf n
decreasing_by exact Node.sizeOf_lt_of_alternative? ‹_›

theorem tokens_of_chain (mode : TokenMode) (levels : Nat) {n : Node}
    (hn : n.exported.kind = "if_statement") :
    tokens mode (levels + 1) n = chainTokens mode levels n.exported "If" := by
  have hpieces : n.exported.pieces mode (Expression.token (levels + 1)) (Expression.text levels)
      (Expression.text (levels - 1)) =
      n.exported.chainPieces (Expression.text levels) (Expression.text (levels - 1)) := by
    unfold Node.pieces
    rw [if_neg (by rw [hn]; decide), if_neg (by rw [hn]; decide), if_pos hn]
  rw [tokens, hpieces, Node.chainPieces_eq_sections, List.flatMap_assoc, chainTokens_eq_sections]
  congr 1
  funext s
  rw [List.flatMap_cons, List.flatMap_map]
  rfl

/-! ## The loop -/

theorem foldl_push {push : Pushing} {read : Node → List Token}
    (h : ∀ pushed n, push pushed n = pushed ++ read n) (pushed : List Token) (nodes : List Node) :
    nodes.foldl push pushed = pushed ++ nodes.flatMap read := by
  rw [funext₂ h, List.foldl_append_eq_append, List.flatMap_def]

theorem pushChain_of_push {mode : TokenMode} {levels : Nat}
    (h : ∀ pushed n, push mode levels pushed n = pushed ++ tokens mode levels n) (n : Node)
    (tag : String) (pushed : List Token) :
    pushChain (push mode levels) (Expression.text levels) n tag pushed =
      pushed ++ chainTokens mode levels n tag := by
  have hlink (n : Node) (tag : String) (pushed : List Token) :
      (n.bodyUnder ["consequence"]).foldl (push mode levels)
          (pushed ++ [n.linkToken (Expression.text levels) tag]) =
        pushed ++ n.linkToken (Expression.text levels) tag ::
          n.consequences.flatMap (tokens mode levels) := by
    rw [foldl_push h, n.bodyUnder_consequence, List.append_assoc, List.singleton_append]
  fun_induction pushChain (push mode levels) (Expression.text levels) n tag pushed with
  | case1 n tag pushed pushed' hnone =>
    rw [chainTokens, hnone, List.append_nil]
    exact hlink n tag pushed
  | case2 n tag pushed pushed' hbare =>
    rw [chainTokens, hbare, ← List.append_assoc, ← hlink]
  | case3 n tag pushed pushed' next hnext hkind ih =>
    rw [chainTokens, hnext, ← List.append_assoc, ← hlink]
    dsimp only
    rw [if_pos hkind]
    exact ih
  | case4 n tag pushed pushed' next hnext hkind =>
    rw [foldl_push h, chainTokens, hnext, ← List.append_assoc, ← hlink]
    dsimp only
    rw [if_neg hkind, List.append_assoc, List.singleton_append]

theorem push_eq (mode : TokenMode) (budget : Nat) (pushed : List Token) (n : Node) :
    push mode budget pushed n = pushed ++ tokens mode budget n := by
  induction budget generalizing pushed n with
  | zero => rfl
  | succ budget ih =>
    rw [push]
    split
    · rename_i hkind
      rw [pushChain_of_push ih, tokens_of_chain mode budget hkind]
    · rw [tokens, List.flatMap_def, ← List.foldl_append_eq_append]
      congr 1
      funext pushed piece
      cases piece with
      | token token => rfl
      | inner statement => exact ih pushed statement

/-- The tokens of a chain show that something was nested too deeply only where a condition does, or
a statement under a link. -/
theorem chainTokens_showsLimit (mode : TokenMode) (levels : Nat) (n : Node) :
    (∃ t ∈ chainTokens mode levels n "If", showsLimit t.text) ↔
      (∃ link ∈ n.links, showsLimit (link.conditionText (Expression.text levels))) ∨
        ∃ s ∈ n.chainSections (Expression.text levels) "If", ∃ c ∈ s.2,
          ∃ t ∈ tokens mode levels c, showsLimit t.text := by
  rw [chainTokens_eq_sections, ← Node.exists_header_showsLimit]
  simp only [List.mem_flatMap, List.mem_cons, ← exists_or, ← and_or_left]
  constructor
  · rintro ⟨t, ⟨s, hs, rfl | ⟨c, hc, ht⟩⟩, hshows⟩
    · exact ⟨s, hs, .inl hshows⟩
    · exact ⟨s, hs, .inr ⟨c, hc, t, ht, hshows⟩⟩
  · rintro ⟨s, hs, hshows | ⟨c, hc, t, ht, hshows⟩⟩
    · exact ⟨s.1, ⟨s, hs, .inl rfl⟩, hshows⟩
    · exact ⟨t, ⟨s, hs, .inr ⟨c, hc, ht⟩⟩, hshows⟩

/-- **A chain is as deep as its links.**  The loop over a chain pushes what the recursion over its
alternatives gives, which are the tokens of the condition that the chain starts at.  They are those of
its sections: one `If`, one `Else-If` for each further link and an `Else` if the chain is not open.
All sections have the same levels left, so something is nested too deeply only if it is so in a
condition or in a statement under a link. -/
theorem pushChain_eq (mode : TokenMode) (maxDepth depth : Nat) {n : Node}
    (hn : n.kind = "if_statement") :
    let levels := maxDepth - depth
    let read := Expression.text levels
    let sections := n.chainSections read "If"
    (∀ pushed, pushChain (push mode levels) read n "If" pushed =
        pushed ++ chainTokens mode levels n "If") ∧
      (depth ≤ maxDepth → tokens mode (maxDepth + 1 - depth) n = chainTokens mode levels n "If") ∧
      chainTokens mode levels n "If" =
        sections.flatMap (fun s => s.1 :: s.2.flatMap (tokens mode levels)) ∧
      sections.map (fun s => tokenKind s.1.text) =
        "STATEMENT:If" :: List.replicate (n.links.length - 1) "STATEMENT:Else-If" ++
          (match n.chain.2 with
          | .open => []
          | .otherwise _ => ["STATEMENT:Else"]) ∧
      ((∃ t ∈ chainTokens mode levels n "If", showsLimit t.text) ↔
        (∃ link ∈ n.links, showsLimit (link.conditionText read)) ∨
          ∃ s ∈ sections, ∃ c ∈ s.2, ∃ t ∈ tokens mode levels c, showsLimit t.text) := by
  intro levels read sections
  refine ⟨pushChain_of_push (push_eq mode levels) n "If", fun hdepth => ?_,
    chainTokens_eq_sections mode levels n "If", n.kinds_of_sections read,
    chainTokens_showsLimit mode levels n⟩
  have hsame : n.exported = n := Node.exported_of_ne (by rw [hn]; decide)
  have htokens := tokens_of_chain mode levels (n := n) (by rw [hsame, hn])
  rwa [hsame, show levels + 1 = maxDepth + 1 - depth by omega] at htokens

def twoLinks : List Row :=
  [⟨"program", true, none, 0, 43, 1⟩,
    ⟨"if_statement", true, none, 0, 43, 4⟩,
    ⟨"if", false, none, 0, 2, 0⟩,
    ⟨"parenthesized_expression", true, some "condition", 3, 6, 3⟩,
    ⟨"(", false, none, 3, 4, 0⟩,
    ⟨"identifier", true, none, 4, 5, 0⟩,
    ⟨")", false, none, 5, 6, 0⟩,
    ⟨"expression_statement", true, some "consequence", 7, 9, 2⟩,
    ⟨"identifier", true, none, 7, 8, 0⟩,
    ⟨";", false, none, 8, 9, 0⟩,
    ⟨"else_clause", true, some "alternative", 10, 43, 2⟩,
    ⟨"else", false, none, 10, 14, 0⟩,
    ⟨"if_statement", true, none, 15, 43, 4⟩,
    ⟨"if", false, none, 15, 17, 0⟩,
    ⟨"parenthesized_expression", true, some "condition", 18, 21, 3⟩,
    ⟨"(", false, none, 18, 19, 0⟩,
    ⟨"identifier", true, none, 19, 20, 0⟩,
    ⟨")", false, none, 20, 21, 0⟩,
    ⟨"statement_block", true, some "consequence", 22, 35, 3⟩,
    ⟨"\x7b", false, none, 22, 23, 0⟩,
    ⟨"if_statement", true, none, 24, 33, 3⟩,
    ⟨"if", false, none, 24, 26, 0⟩,
    ⟨"parenthesized_expression", true, some "condition", 27, 30, 3⟩,
    ⟨"(", false, none, 27, 28, 0⟩,
    ⟨"identifier", true, none, 28, 29, 0⟩,
    ⟨")", false, none, 29, 30, 0⟩,
    ⟨"expression_statement", true, some "consequence", 31, 33, 2⟩,
    ⟨"identifier", true, none, 31, 32, 0⟩,
    ⟨";", false, none, 32, 33, 0⟩,
    ⟨"\x7d", false, none, 34, 35, 0⟩,
    ⟨"else_clause", true, some "alternative", 36, 43, 2⟩,
    ⟨"else", false, none, 36, 40, 0⟩,
    ⟨"expression_statement", true, none, 41, 43, 2⟩,
    ⟨"identifier", true, none, 41, 42, 0⟩,
    ⟨";", false, none, 42, 43, 0⟩]

/-- A chain of two links, with an expression under the first and a condition of its own under the
second. -/
theorem pushChain_eq_twoLinks :
    ∃ t, Node.ofRows? "if (a) x; else if (b) \x7b if (c) y; \x7d else z;" twoLinks = some t ∧
      ∃ n ∈ t.children, n.kind = "if_statement" ∧ n.links.length = 2 ∧
        (pushChain (push .full (2 - 0)) (Expression.text (2 - 0)) n "If" []).map Token.text =
          ["STATEMENT:If[EXPRESSION:Identifier[a]]", "EXPRESSION:Identifier[x]",
            "STATEMENT:Else-If[EXPRESSION:Identifier[b]]",
            "STATEMENT:If[EXPRESSION:Identifier[c]]", "EXPRESSION:Identifier[y]",
            "STATEMENT:Else", "EXPRESSION:Identifier[z]"] := by
  obtain ⟨t, _, ht, -, n, hn, hkind, hlinks, htokens⟩ :
      ∃ t t', Node.ofRows? "if (a) x; else if (b) \x7b if (c) y; \x7d else z;" twoLinks = some t ∧
        Node.ofRows? "if (a) x; else if (b) \x7b if (c) y; \x7d else z;" twoLinks = some t' ∧
        ∃ n ∈ t.children, n.kind = "if_statement" ∧ n.links.length = 2 ∧
          (tokens .full 3 n).map Token.text =
            ["STATEMENT:If[EXPRESSION:Identifier[a]]", "EXPRESSION:Identifier[x]",
              "STATEMENT:Else-If[EXPRESSION:Identifier[b]]",
              "STATEMENT:If[EXPRESSION:Identifier[c]]", "EXPRESSION:Identifier[y]",
              "STATEMENT:Else", "EXPRESSION:Identifier[z]"] :=
    Node.exists_trees (by decide +kernel)
  obtain ⟨hloop, hdirect, -⟩ := pushChain_eq .full 2 0 hkind
  refine ⟨t, ht, n, hn, hkind, hlinks, ?_⟩
  rw [hloop, List.nil_append, ← hdirect (by decide)]
  exact htokens

end Statement

end Fingerprint
