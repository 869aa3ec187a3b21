import Fingerprint.Proofs.Token.Statements
import Fingerprint.Proofs.Tree.Prologue
/-!
# Directives among the tokens

In the body of a function just the statements of its prologue are rendered as directives.  All other
statements there, and all statements in them, are rendered by what they are, which is a string for a
string statement; and none of these lies in a prologue, as functions are not looked into.
-/

namespace Fingerprint

/-! ## Statements in statements -/

namespace Node

/-- What the grammar says of a node: nothing has a program in it, and no function stands where a
list or a clause is looked into. -/
def opensNoScope (n : Node) : Bool :=
  n.children.all (·.kind != "program") && n.opened.all (!·.isFunction)

/-- The statements in a statement that it is rendered with, at any level. -/
inductive Reaches (n : Node) : Node → Prop
  | inner {mode : TokenMode} {level : Node → Token} {read below : Reading} {m : Node}
    (h : .inner m ∈ n.exported.pieces mode level read below) : Reaches n m
  | trans {mode : TokenMode} {level : Node → Token} {read below : Reading} {m l : Node}
    (hm : Reaches n m) (h : .inner l ∈ m.exported.pieces mode level read below) : Reaches n l

theorem isFunction_eq_false {n : Node} (h : n.kind ∉ functionKinds) : n.isFunction = false := by
  rw [isFunction, ← Bool.not_eq_true, List.contains_iff_mem]
  exact h

theorem kind_ne_program_of_opensNoScope {n c : Node} (h : n.opensNoScope = true)
    (hc : c ∈ n.children) : c.kind ≠ "program" := by
  rw [opensNoScope, Bool.and_eq_true, List.all_eq_true] at h
  exact bne_iff_ne.1 (h.1 c hc)

theorem isFunction_of_mem_opened {n c : Node} (h : n.opensNoScope = true) (hc : c ∈ n.opened) :
    c.isFunction = false := by
  rw [opensNoScope, Bool.and_eq_true, List.all_eq_true, List.all_eq_true] at h
  simpa using h.2 c hc

theorem mem_opened_of_try {n c : Node} (hkind : n.kind = "try_statement") {field : String}
    (hfield : field ∈ ["handler", "finalizer"]) (hc : n.child? field = some c) : c ∈ n.opened := by
  have hform : Form.statements.lookup n.kind = some ⟨.statement, .attempt, [.caught]⟩ := by
    rw [hkind]
    rfl
  refine mem_opened_of_slot (mem_slots_of_statement hform (List.mem_singleton_self _))
    (List.mem_append.2 ?_)
  rw [Option.mem_toList, Option.mem_toList]
  rcases List.mem_pair.1 hfield with rfl | rfl
  · exact .inl hc
  · exact .inr hc

theorem mem_opened_of_switch {n c : Node} (hkind : n.kind = "switch_statement")
    (hc : n.child? "body" = some c ∨ c ∈ n.cases) : c ∈ n.opened := by
  have hform : Form.statements.lookup n.kind =
      some ⟨.statement, .fixed "Switch", [.operand "value", .tests]⟩ := by
    rw [hkind]
    rfl
  have htests : Slot.tests ∈ [.operand "value", .tests] := by decide
  refine mem_opened_of_slot (mem_slots_of_statement hform htests) (List.mem_append.2 ?_)
  rwa [Option.mem_toList]

theorem inner_of_isFunction {n : Node} (h : n.kind ∈ functionKinds) : n.inner = [] := by
  rw [inner]
  split
  iterate 9
    · rename_i hkind
      rw [hkind] at h
      exact absurd h (by decide)
  · rfl

end Node

namespace Site

/-- A place where no directive can stand, nor right below it. -/
structure IsPlain (t : Site) : Prop where
  here : t.isDirective = false
  below : t.opensPrologue = false

def HasPlain (s : Site) (n : Node) : Prop := ∃ t ∈ s.inside, t.node = n ∧ t.IsPlain

variable {s : Site}

theorem opensPrologue_child_eq_false (hfunction : s.node.isFunction = false) {i : Nat} {c : Node}
    (hc : c.kind ≠ "program") : (s.child i c).opensPrologue = false := by
  rw [opensPrologue_child, if_neg hc, hfunction, ite_self]

theorem isPlain_child (hbelow : s.opensPrologue = false) (hfunction : s.node.isFunction = false)
    {i : Nat} {c : Node} (hc : c.kind ≠ "program") : (s.child i c).IsPlain where
  here := by rw [isDirective_child, hbelow, Bool.false_and, Bool.and_false]
  below := opensPrologue_child_eq_false hfunction hc

theorem HasPlain.trans {t : Site} (ht : t ∈ s.inside) {n : Node} (h : t.HasPlain n) :
    s.HasPlain n := by
  obtain ⟨u, hu, hnode, hplain⟩ := h
  exact ⟨u, mem_inside_trans hu ht, hnode, hplain⟩

theorem HasPlain.of_eq_or_mem {t : Site} (ht : t = s ∨ t ∈ s.inside) {n : Node}
    (h : t.HasPlain n) : s.HasPlain n := by
  rcases ht with rfl | ht
  · exact h
  · exact h.trans ht

structure IsOuter (s : Site) : Prop where
  scopes : ∀ n ∈ s.node.nodes, n.opensNoScope = true
  below : s.opensPrologue = false
  function : s.node.isFunction = false

namespace IsOuter

variable (h : s.IsOuter)
include h

theorem scope : s.node.opensNoScope = true :=
  h.scopes _ (Node.mem_nodes_self _)

theorem hasPlain {c : Node} (hc : c ∈ s.node.children) : s.HasPlain c := by
  obtain ⟨i, hi⟩ := List.mem_iff_getElem?.1 hc
  have hprogram := Node.kind_ne_program_of_opensNoScope h.scope hc
  exact ⟨s.child i c, child_mem_inside hi, rfl, isPlain_child h.below h.function hprogram⟩

/-- Right below a plain place that is no function the places are plain again. -/
theorem exists_isOuter {n : Node} (hn : s.HasPlain n) (hfunction : n.isFunction = false) :
    ∃ t ∈ s.inside, t.node = n ∧ t.IsOuter := by
  obtain ⟨t, ht, rfl, hplain⟩ := hn
  have hnodes := node_mem_nodes_of_mem_inside ht
  exact ⟨t, ht, rfl, fun m hm => h.scopes m (Node.mem_nodes_trans hm _ hnodes), hplain.below,
    hfunction⟩

theorem exists_isOuter_of_kind {n : Node} (hn : s.HasPlain n)
    (hkind : n.kind ∉ Node.functionKinds) : ∃ t ∈ s.inside, t.node = n ∧ t.IsOuter :=
  h.exists_isOuter hn (Node.isFunction_eq_false hkind)

theorem bodyStatements {c d : Node} (hc : s.HasPlain c) (hd : d ∈ c.bodyStatements) :
    s.HasPlain d := by
  rw [Node.bodyStatements] at hd
  split at hd
  · rename_i hblock
    obtain ⟨t, ht, rfl, hinner⟩ := h.exists_isOuter_of_kind hc (by rw [hblock]; decide)
    exact .trans ht (hinner.hasPlain (Node.mem_children_of_mem_parts hd))
  · rwa [List.mem_singleton.1 hd]

theorem body {field : String} {d : Node} (hd : d ∈ s.node.bodyUnder [field]) : s.HasPlain d := by
  rw [Node.bodyUnder] at hd
  split at hd
  · exact h.bodyStatements (h.hasPlain (Node.mem_children_of_child? ‹_›)) hd
  · cases hd

theorem clauseBody {field : String} (hkind : s.node.kind = "try_statement")
    (hfield : field ∈ ["handler", "finalizer"]) {d : Node}
    (hd : d ∈ s.node.bodyUnder [field, "body"]) : s.HasPlain d := by
  rw [Node.bodyUnder] at hd
  split at hd
  · rename_i c hc
    have hopened := Node.mem_opened_of_try hkind hfield hc
    obtain ⟨t, ht, rfl, hinner⟩ := h.exists_isOuter (h.hasPlain (Node.mem_children_of_child? hc))
      (Node.isFunction_of_mem_opened h.scope hopened)
    exact .trans ht (hinner.body hd)
  · cases hd

theorem caseStatements (hkind : s.node.kind = "switch_statement") {c d : Node}
    (hc : c ∈ s.node.cases) (hd : d ∈ c.caseStatements) : s.HasPlain d := by
  have hopened := Node.mem_opened_of_switch hkind (.inr hc)
  rw [Node.cases] at hc
  cases hbody : s.node.child? "body" with
  | none =>
    rw [hbody] at hc
    cases hc
  | some body =>
    rw [hbody] at hc
    obtain ⟨t, ht, rfl, hinner⟩ := h.exists_isOuter (h.hasPlain (Node.mem_children_of_child? hbody))
      (Node.isFunction_of_mem_opened h.scope (Node.mem_opened_of_switch hkind (.inl hbody)))
    obtain ⟨u, hu, rfl, hinner⟩ := hinner.exists_isOuter
      (hinner.hasPlain (Node.mem_children_of_mem_parts hc))
      (Node.isFunction_of_mem_opened h.scope hopened)
    have hmem : d ∈ u.node.children := List.mem_of_mem_eraseP (List.mem_filter.1 hd).1
    exact .trans ht (.trans hu (hinner.hasPlain hmem))

theorem inner {d : Node} (hd : d ∈ s.node.inner) : s.HasPlain d := by
  rw [Node.inner] at hd
  split at hd
  · exact h.hasPlain (Node.mem_children_of_mem_parts hd)
  iterate 6 exact h.body hd
  · rename_i hkind
    rw [List.mem_append, List.mem_append] at hd
    rcases hd with (hd | hd) | hd
    · exact h.body hd
    · exact h.clauseBody hkind (by decide) hd
    · exact h.clauseBody hkind (by decide) hd
  · rename_i hkind
    obtain ⟨c, hc, hd⟩ := List.mem_flatMap.1 hd
    exact h.caseStatements hkind hc hd
  · cases hd

end IsOuter

/-! ## Chains of conditions -/

def HasPlainChain (s : Site) (chain : List Node × Node.ChainEnd) : Prop :=
  (∀ m ∈ chain.1, m.kind = "if_statement" ∧ s.HasPlain m) ∧
    ∀ m, chain.2 = .otherwise (some m) → s.HasPlain m

theorem HasPlainChain.trans {t : Site} (ht : t ∈ s.inside) {chain : List Node × Node.ChainEnd}
    (h : t.HasPlainChain chain) : s.HasPlainChain chain :=
  ⟨fun m hm => ⟨(h.1 m hm).1, .trans ht (h.1 m hm).2⟩, fun m hm => .trans ht (h.2 m hm)⟩

theorem hasPlainChain (h : s.IsOuter) :
    s.HasPlainChain s.node.chain ∧ s.HasPlainChain (Node.chainElse s.node.children) := by
  obtain ⟨n, above⟩ := s
  induction n using Node.induction generalizing above with
  | node n ih =>
    have hlink : ∀ c ∈ n.children, c.kind = "if_statement" →
        HasPlainChain ⟨n, above⟩ (c :: c.chain.1, c.chain.2) := by
      intro c hc hkind
      obtain ⟨⟨c, way⟩, ht, rfl, houter⟩ :=
        h.exists_isOuter_of_kind (h.hasPlain hc) (by rw [hkind]; decide)
      obtain ⟨hlinks, hend⟩ := (ih c hc way houter).1.trans ht
      exact ⟨List.forall_mem_cons.2 ⟨⟨hkind, h.hasPlain hc⟩, hlinks⟩, hend⟩
    have hlast : ∀ c ∈ n.children, HasPlainChain ⟨n, above⟩ ([], .otherwise (some c)) := by
      intro c hc
      refine ⟨List.forall_mem_nil _, ?_⟩
      rintro m ⟨⟩
      exact h.hasPlain hc
    constructor
    · rw [Node.chain_eq, Node.chainAt_eq]
      split
      · exact ⟨List.forall_mem_nil _, fun m hm => nomatch hm⟩
      · rename_i c hfind
        have hc : c ∈ n.children := List.mem_of_find?_eq_some hfind
        split
        · rename_i hkind
          obtain ⟨⟨c, way⟩, ht, rfl, houter⟩ :=
            h.exists_isOuter_of_kind (h.hasPlain hc) (by rw [hkind]; decide)
          exact (ih c hc way houter).2.trans ht
        · split
          · exact hlink c hc ‹_›
          · exact hlast c hc
    · rw [Node.chainElse_eq]
      split
      · exact ⟨List.forall_mem_nil _, fun m hm => nomatch hm⟩
      · rename_i c hfind
        have hc : c ∈ n.children := List.mem_of_find?_eq_some hfind
        split
        · exact hlink c hc ‹_›
        · exact hlast c hc

/-! ## All statements in a statement -/

theorem IsOuter.linkPieces (h : s.IsOuter) {read below : Reading} {name : String} {m : Node}
    (hm : .inner m ∈ Node.linkPieces read below name s.node) : s.HasPlain m := by
  rw [Node.linkPieces] at hm
  rcases List.mem_cons.1 hm with hm | hm
  · cases hm
  · obtain ⟨d, hd, heq⟩ := List.mem_map.1 hm
    cases heq
    exact h.body hd

theorem IsOuter.chainPieces (h : s.IsOuter) {read below : Reading} {m : Node}
    (hm : .inner m ∈ Node.chainPieces read below s.node) : s.HasPlain m := by
  obtain ⟨hlinks, hend⟩ := (hasPlainChain h).1
  rw [Node.chainPieces] at hm
  cases hchain : s.node.chain with
  | mk links last =>
    rw [hchain] at hm hlinks hend
    simp only [List.mem_append, List.mem_flatMap] at hm
    rcases hm with (hm | ⟨c, hc, hm⟩) | hm
    · exact h.linkPieces hm
    · obtain ⟨hkind, hplain⟩ := hlinks c hc
      obtain ⟨t, ht, rfl, hinner⟩ := h.exists_isOuter_of_kind hplain (by rw [hkind]; decide)
      exact .trans ht (hinner.linkPieces hm)
    · cases last with
      | «open» => cases hm
      | otherwise statement =>
        rcases List.mem_cons.1 hm with hm | hm
        · cases hm
        · obtain ⟨d, hd, heq⟩ := List.mem_map.1 hm
          cases heq
          cases statement with
          | none => cases hd
          | some c => exact h.bodyStatements (hend c rfl) hd

theorem hasPlain_of_pieces (hscopes : ∀ n ∈ s.node.nodes, n.opensNoScope = true)
    (hbelow : s.opensPrologue = false) {mode : TokenMode} {level : Node → Token}
    {read below : Reading} {m : Node} (hm : .inner m ∈ s.node.pieces mode level read below) :
    s.HasPlain m := by
  have houter (hkind : s.node.kind ∉ Node.functionKinds) : s.IsOuter :=
    ⟨hscopes, hbelow, Node.isFunction_eq_false hkind⟩
  have hinner {statements : List Node} (hm : Piece.inner m ∈ statements.map Piece.inner) :
      m ∈ statements := by
    obtain ⟨d, hd, heq⟩ := List.mem_map.1 hm
    cases heq
    exact hd
  unfold Node.pieces at hm
  split at hm
  · obtain ⟨c, -, heq⟩ := List.mem_map.1 hm
    cases heq
  · split at hm
    · cases mode with
      | full => cases List.mem_singleton.1 hm
      | skipDeclarations => cases hm
    · split at hm
      · rename_i hkind
        exact (houter (by rw [hkind]; decide)).chainPieces hm
      · split at hm
        · rename_i hkind
          refine (houter ?_).inner (hinner hm)
          rcases hkind with hkind | hkind <;> rw [hkind] <;> decide
        · split at hm
          · rcases List.mem_cons.1 hm with hm | hm
            · cases hm
            · by_cases hkind : s.node.kind ∈ Node.functionKinds
              · rw [Node.inner_of_isFunction hkind] at hm
                cases hm
              · exact (houter hkind).inner (hinner hm)
          · cases List.mem_singleton.1 hm

theorem exists_exported (hscopes : ∀ n ∈ s.node.nodes, n.opensNoScope = true)
    (hbelow : s.opensPrologue = false) :
    ∃ t, (t = s ∨ t ∈ s.inside) ∧ t.node = s.node.exported ∧ t.opensPrologue = false := by
  obtain ⟨n, above⟩ := s
  induction n using Node.induction generalizing above with
  | node n ih =>
    by_cases hkind : n.kind = "export_statement"
    · rw [Node.exported_of_export hkind]
      cases hdeclaration : n.child? "declaration" with
      | none => exact ⟨_, .inl rfl, rfl, hbelow⟩
      | some c =>
        have hc := Node.mem_children_of_child? hdeclaration
        have houter : IsOuter ⟨n, above⟩ :=
          ⟨hscopes, hbelow, Node.isFunction_eq_false (by rw [hkind]; decide)⟩
        obtain ⟨⟨c, way⟩, ht, rfl, hplain⟩ := houter.hasPlain hc
        have hnodes := node_mem_nodes_of_mem_inside ht
        obtain ⟨u, hu, hnode, hopens⟩ := ih c hc way
          (fun m hm => hscopes m (Node.mem_nodes_trans hm _ hnodes)) hplain.below
        refine ⟨u, .inr ?_, hnode, hopens⟩
        rcases hu with rfl | hu
        · exact ht
        · exact mem_inside_trans hu ht
    · rw [Node.exported_of_ne hkind]
      exact ⟨_, .inl rfl, rfl, hbelow⟩

/-- **No statement in a statement lies in a prologue.** -/
theorem hasPlain_of_reaches (hscopes : ∀ n ∈ s.node.nodes, n.opensNoScope = true)
    (hbelow : s.opensPrologue = false) {m : Node} (h : s.node.Reaches m) : s.HasPlain m := by
  have hstep : ∀ {t : Site}, t.node ∈ s.node.nodes → t.opensPrologue = false →
      ∀ {mode level read below l}, .inner l ∈ t.node.exported.pieces mode level read below →
        t.HasPlain l := by
    intro t ht hopens mode level read below l hl
    have hnodes : ∀ n ∈ t.node.nodes, n.opensNoScope = true := fun n hn =>
      hscopes n (Node.mem_nodes_trans hn _ ht)
    obtain ⟨u, hu, hexported, hopens⟩ := exists_exported hnodes hopens
    rw [← hexported] at hl
    refine .of_eq_or_mem hu (hasPlain_of_pieces (fun n hn => hnodes n ?_) hopens hl)
    rcases hu with rfl | hu
    · exact hn
    · exact Node.mem_nodes_trans hn _ (node_mem_nodes_of_mem_inside hu)
  induction h with
  | inner h => exact hstep (Node.mem_nodes_self _) hbelow h
  | trans _ h ih =>
    obtain ⟨t, ht, rfl, hplain⟩ := ih
    exact .trans ht (hstep (node_mem_nodes_of_mem_inside ht) hplain.below h)

end Site

theorem Node.reaches_of_block {n m : Node} (hkind : n.kind = "statement_block") (hm : m ∈ n.parts) :
    n.Reaches m := by
  have hpieces : .inner m ∈
      n.exported.pieces .full (fun _ => .tooDeep .statement) (fun _ => "") fun _ => "" := by
    rw [exported_of_ne (by rw [hkind]; decide)]
    unfold pieces inner
    rw [hkind]
    exact List.mem_map_of_mem hm
  exact .inner hpieces

/-! ## Tokens of statements -/

namespace Token

def category : Token → Category
  | shaped category _ _ => category
  | fallback category _ => category

end Token

namespace Node

theorem category_expressionShape (read below : Reading) (n : Node) :
    (expressionShape read below n).category ≠ .directive := by
  have hforms : ∀ entry ∈ Form.expressions, entry.2.category ≠ .directive := by decide
  rw [expressionShape]
  split
  · rename_i form hform
    exact hforms _ (mem_of_lookup_eq_some hform)
  · exact Category.noConfusion

theorem category_statementCategory (kind : String) : statementCategory kind ≠ .directive := by
  rw [statementCategory]
  split
  · exact Category.noConfusion
  · split <;> exact Category.noConfusion

theorem category_of_linkPieces {read below : Reading} {name : String} {n : Node} {token : Token}
    (h : .token token ∈ linkPieces read below name n) : token.category ≠ .directive := by
  rw [linkPieces] at h
  rcases List.mem_cons.1 h with h | h
  · cases h
    exact Category.noConfusion
  · obtain ⟨c, -, heq⟩ := List.mem_map.1 h
    cases heq

theorem category_of_chainPieces {read below : Reading} {n : Node} {token : Token}
    (h : .token token ∈ chainPieces read below n) : token.category ≠ .directive := by
  rw [chainPieces] at h
  cases hchain : n.chain with
  | mk links last =>
    rw [hchain] at h
    simp only [List.mem_append, List.mem_flatMap] at h
    rcases h with (h | ⟨c, -, h⟩) | h
    · exact category_of_linkPieces h
    · exact category_of_linkPieces h
    · cases last with
      | «open» => cases h
      | otherwise statement =>
        rcases List.mem_cons.1 h with h | h
        · cases h
          exact Category.noConfusion
        · obtain ⟨c, -, heq⟩ := List.mem_map.1 h
          cases heq

theorem category_of_pieces {mode : TokenMode} {level : Node → Token} {read below : Reading}
    {n : Node} (hlevel : ∀ c, (level c).category ≠ .directive) {token : Token}
    (h : .token token ∈ n.pieces mode level read below) : token.category ≠ .directive := by
  have hinner {statements : List Node} : Piece.token token ∉ statements.map Piece.inner := by
    intro h
    obtain ⟨c, -, heq⟩ := List.mem_map.1 h
    cases heq
  unfold pieces at h
  split at h
  · obtain ⟨c, -, heq⟩ := List.mem_map.1 h
    cases heq
    exact hlevel c
  · split at h
    · cases mode with
      | full =>
        cases List.mem_singleton.1 h
        exact Category.noConfusion
      | skipDeclarations => cases h
    · split at h
      · exact category_of_chainPieces h
      · split at h
        · exact absurd h hinner
        · split at h
          · rename_i form hform
            have hforms : ∀ entry ∈ Form.statements, entry.2.category ≠ .directive := by decide
            rcases List.mem_cons.1 h with h | h
            · cases h
              exact hforms _ (mem_of_lookup_eq_some hform)
            · exact absurd h hinner
          · cases List.mem_singleton.1 h
            exact category_statementCategory n.kind

end Node

theorem Expression.category_token (budget : Nat) (n : Node) :
    (Expression.token budget n).category ≠ .directive := by
  cases budget with
  | zero => exact Category.noConfusion
  | succ budget =>
    rw [token_succ]
    exact Node.category_expressionShape _ _ _

/-- A statement by itself, with all that is in it, is never rendered as a directive. -/
theorem Statement.category_of_mem_tokens {mode : TokenMode} {budget : Nat} {n : Node}
    {token : Token} (h : token ∈ Statement.tokens mode budget n) : token.category ≠ .directive := by
  induction budget generalizing n with
  | zero =>
    cases List.mem_singleton.1 h
    exact Category.noConfusion
  | succ budget ih =>
    rw [tokens] at h
    obtain ⟨piece, hpiece, h⟩ := List.mem_flatMap.1 h
    cases piece with
    | token own =>
      cases List.mem_singleton.1 h
      exact Node.category_of_pieces (Expression.category_token _) hpiece
    | inner statement => exact ih h

/-- A string statement by itself is rendered as the string. -/
theorem Statement.tokens_of_isStringStatement {n : Node} (h : n.isStringStatement = true)
    (mode : TokenMode) (budget : Nat) :
    Statement.tokens mode (budget + 1) n = [.shaped .literal "String" []] := by
  rw [Node.isStringStatement, Bool.and_eq_true] at h
  obtain ⟨hkind, honly⟩ := h
  have hkind := eq_of_beq hkind
  split at honly
  · rename_i only hparts
    have hstring := eq_of_beq honly
    rw [tokens, Node.exported_of_ne (by rw [hkind]; decide)]
    unfold Node.pieces
    rw [if_pos hkind, hparts]
    simp only [List.map_cons, List.map_nil, List.flatMap_cons, List.flatMap_nil, List.append_nil]
    rw [Expression.token_succ, Node.bare_of_ne (by rw [hstring]; decide), Node.expressionShape,
      hstring]
    rfl
  · cases honly

/-! ## Tokens of functions -/

def Node.parameterTokens (options : TokenOptions) (n : Node) : List Token :=
  match options.mode with
  | .full => n.parameters.map (Parameter.token (options.maxDepth + 1))
  | .skipDeclarations => []

namespace Site

variable {options : TokenOptions}

/-- The tokens of a statement right in the body of a function: one for a directive. -/
def statementTokens (options : TokenOptions) (t : Site) : Except Fault (List Token) :=
  if t.isDirective then t.node.directiveToken.map fun token => [token]
  else .ok (Statement.tokens options.mode (options.maxDepth + 1) t.node)

theorem mapM_statementTokens_of_others {others : List Site}
    (h : ∀ t ∈ others, t.isDirective = false) :
    others.mapM (statementTokens options) =
      .ok (others.map fun t => Statement.tokens options.mode (options.maxDepth + 1) t.node) := by
  induction others with
  | nil => rfl
  | cons t rest ih =>
    obtain ⟨ht, hrest⟩ := List.forall_mem_cons.1 h
    rw [List.mapM_cons, ih hrest, statementTokens, ht]
    rfl

theorem mapM_statementTokens {directives others : List Site}
    (hdirectives : ∀ t ∈ directives, t.isDirective = true)
    (hothers : ∀ t ∈ others, t.isDirective = false) :
    ((directives ++ others).mapM (statementTokens options)).map List.flatten =
      ((directives.map node).mapM Node.directiveToken).map fun leading =>
        leading ++ (others.map node).flatMap
          (Statement.tokens options.mode (options.maxDepth + 1)) := by
  induction directives with
  | nil =>
    rw [List.nil_append, mapM_statementTokens_of_others hothers, List.flatMap_map]
    rfl
  | cons t rest ih =>
    obtain ⟨ht, hrest⟩ := List.forall_mem_cons.1 hdirectives
    rw [List.cons_append, List.mapM_cons, List.map_cons, List.mapM_cons, statementTokens,
      if_pos ht]
    cases t.node.directiveToken with
    | error fault => rfl
    | ok token =>
      have hfirst := congrArg (Except.map (token :: ·)) (ih hrest)
      revert hfirst
      cases (rest ++ others).mapM (statementTokens options) <;>
        cases (rest.map node).mapM Node.directiveToken <;> exact id

theorem bodyTokens_of_block {n : Node} (mode : TokenMode) (budget : Nat) (isFunction : Bool)
    (hblock : n.kind = "statement_block") :
    n.bodyTokens mode budget isFunction =
      ((if isFunction then n.leadingStrings else []).mapM Node.directiveToken).map fun leading =>
        leading ++ (n.parts.drop (if isFunction then n.leadingStrings else []).length).flatMap
          (Statement.tokens mode budget) := by
  rw [Node.bodyTokens, if_pos hblock]
  cases isFunction <;> rfl

theorem isBody_iff_of_block {f b : Site} (hparent : b.parent? = some f)
    (hblock : b.node.kind = "statement_block") : b.IsBody ↔ f.node.isFunction = true := by
  have howner : b.parentNode? = some f.node := by
    obtain ⟨node, _ | ⟨step, above⟩⟩ := b
    · cases hparent
    · cases hparent
      rfl
  rw [IsBody, howner, hblock]
  simp

/-- The parts of a block are cut where its prologue ends, which is at the start if the block belongs
to no function. -/
theorem exists_parts_eq_append {f b : Site} (hparent : b.parent? = some f)
    (hblock : b.node.kind = "statement_block") :
    ∃ directives others : List Site, b.parts = directives ++ others ∧
      (∀ t ∈ directives, t.isDirective = true) ∧ (∀ t ∈ others, t.isDirective = false) ∧
      (if f.node.isFunction then b.node.leadingStrings else []) = directives.map node := by
  have hisBody := isBody_iff_of_block hparent hblock
  have hbang : b.hasHashBang = false := by
    rw [hasHashBang, hblock]
    rfl
  have hprologue : b.prologue = b.parts.takeWhile (·.node.isStringStatement) := by
    rw [prologue, statements, hbang, if_neg Bool.false_ne_true]
  cases hfunction : f.node.isFunction with
  | false =>
    refine ⟨[], b.parts, rfl, List.forall_mem_nil _, fun t ht => ?_, rfl⟩
    rw [← Bool.not_eq_true, isDirective_iff_mem_prologue ht, hisBody, hfunction]
    exact fun h => Bool.false_ne_true h.1
  | true =>
    have hcut := List.takeWhile_append_dropWhile (p := fun t : Site => t.node.isStringStatement)
      (l := b.parts)
    have hnodup := b.nodup_parts
    rw [← hcut, List.nodup_append'] at hnodup
    refine ⟨_, _, hcut.symm, fun t ht => ?_, fun t ht => ?_, ?_⟩
    · rw [isDirective_iff_mem_prologue ((List.takeWhile_sublist _).subset ht), hprologue]
      exact ⟨hisBody.2 hfunction, hbang, ht⟩
    · rw [← Bool.not_eq_true,
        isDirective_iff_mem_prologue ((List.dropWhile_sublist _).subset ht), hprologue]
      exact fun h => hnodup.2.2 h.2.2 ht
    · rw [if_pos rfl, Node.leadingStrings, ← map_node_parts, List.takeWhile_map]
      rfl

/-- **Just the directives are rendered as directives in the body of a function.** -/
theorem functionTokens_eq {f b : Site} (hparent : b.parent? = some f)
    (hbody : f.node.child? "body" = some b.node) (hblock : b.node.kind = "statement_block") :
    f.node.functionTokens options =
      (b.parts.mapM (statementTokens options)).map fun groups =>
        f.node.parameterTokens options ++ groups.flatten := by
  obtain ⟨directives, others, hparts, hdirectives, hothers, hleading⟩ :=
    exists_parts_eq_append hparent hblock
  have hrest : b.node.parts.drop (directives.map node).length = others.map node := by
    rw [← map_node_parts, hparts, List.map_append, List.drop_left]
  have hgroups := @mapM_statementTokens options _ _ hdirectives hothers
  rw [← hparts] at hgroups
  have hgroups := congrArg (Except.map (f.node.parameterTokens options ++ ·)) hgroups
  rw [Node.functionTokens, hbody]
  simp only
  rw [bodyTokens_of_block _ _ _ hblock, hleading, hrest]
  revert hgroups
  cases b.parts.mapM (statementTokens options) <;>
    cases (directives.map node).mapM Node.directiveToken <;> exact Eq.symm

end Site

end Fingerprint
