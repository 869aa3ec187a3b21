import Mathlib.Tactic.Common
import Fingerprint.Proofs.Literal.Exposed
import Fingerprint.Proofs.Token.Abstraction
import Fingerprint.Proofs.Tree.Prologue
import Fingerprint.Proofs.Tree.WalksAlike
/-!
# Literals in parentheses

Parentheses around expressions do not change the literals of a tree, but for one thing: only a minus
sign right in front of a number belongs to the number.  A number that is put in parentheses behind
its sign loses it, and is found without.
-/

namespace Fingerprint

namespace Node

/-! ## Expressions in parentheses -/

/-- Whether there are no expressions below a node. -/
def isFlat (n : Node) : Bool := n.descendants.all (!·.isExpression)

/-- Two nodes that are the same by themselves.  A node keeps its text where nothing can come in. -/
structure Keeps (n n' : Node) : Prop where
  kind : n.kind = n'.kind
  named : n.named = n'.named
  text : n.isFlat = true → n.text = n'.text

instance (n n' : Node) : Decidable (Keeps n n') :=
  decidable_of_iff (n.kind = n'.kind ∧ n.named = n'.named ∧ (n.isFlat = true → n.text = n'.text))
    ⟨fun ⟨hkind, hnamed, htext⟩ => ⟨hkind, hnamed, htext⟩, fun h => ⟨h.kind, h.named, h.text⟩⟩

def enclosed? (n : Node) : Option Node :=
  if n.named ∧ n.kind = "parenthesized_expression" then
    match n.parts with
    | [inner] => some inner
    | _ => none
  else none

/-- Whether a child is an expression, but not one that is the string of a string statement. -/
def admits (n c : Node) : Bool := c.isExpression && !n.isStringStatement

/-- The number that a node negates, if a second node does not negate any. -/
def lostSign? (n n' : Node) : Option Node :=
  if n'.negatedNumber?.isNone then n.negatedNumber? else none

mutual

/-- The numbers that lose their sign if a second tree is the first one with parentheses around some
of its expressions, each pair of them under the field and in the place of what it encloses.  Numbers
inside of literals do not count. -/
def lostSigns? : Node → Node → Option (List Node)
  | n@⟨_, children⟩, n' =>
    if Keeps n n' then
      (lostSignsAll? n children n'.children).map fun below =>
        if n.isWhole then (n.lostSign? n').toList else below
    else none

def lostSignsAll? (n : Node) : List Node → List Node → Option (List Node)
  | [], [] => some []
  | c :: rest, c' :: rest' =>
    if c.field = c'.field then
      ((lostSigns? c c').or
          (if n.admits c then c'.enclosed?.bind fun inner => lostSigns? c inner else none)).bind
        fun here => (lostSignsAll? n rest rest').map (here ++ ·)
    else none
  | _, _ => none

end

/-- The nodes in a literal that are no expressions: all of them, but for what is substituted into a
template. -/
def static (n : Node) : List Node :=
  if n.kind = "template_string" then
    (n.parts.filter (·.kind != "template_substitution")).flatMap nodes
  else if literalKinds.contains n.kind then n.descendants
  else []

/-- Whether no literal stands at or below a node. -/
def isMute (n : Node) : Bool := n.nodes.all fun m => !(m.isSignificant && m.isWhole)

/-- What the grammar promises of a node.  Expressions stand in literals only where they are
substituted, and the number is the only literal in a negated number, even where the parser skipped
something there. -/
def isSpelledOut (n : Node) : Bool :=
  n.static.all (!·.isExpression) &&
    n.negatedNumber?.all fun number => number.named && (n.parts.filter (!·.isMute)).length == 1

theorem isWhole_of_isMute {n m : Node} (h : n.isMute = true) (hm : m ∈ n.nodes)
    (hsig : m.isSignificant = true) : m.isWhole = false := by
  rw [isMute, List.all_eq_true] at h
  simpa [hsig] using h m hm

theorem isMute_of_mem_children {n c : Node} (h : n.isMute = true) (hc : c ∈ n.children) :
    c.isMute = true := by
  rw [isMute, List.all_eq_true] at h ⊢
  exact fun m hm => h m (mem_nodes_iff.2 (.inr ⟨c, hc, hm⟩))

/-- A negated number is the only part with a literal in it. -/
theorem filter_parts_of_isSpelledOut {n number : Node} (h : n.isSpelledOut = true)
    (hnumber : n.negatedNumber? = some number) : n.parts.filter (!·.isMute) = [number] := by
  obtain ⟨hchild, hkind⟩ := child?_of_negatedNumber? hnumber
  rw [isSpelledOut, hnumber, Bool.and_eq_true, Option.all_some, Bool.and_eq_true, beq_iff_eq] at h
  have hsig : number.isSignificant = true := by
    simp [isSignificant, isComment, h.2.1, hkind]
  have hwhole : number.isWhole = true := by
    rw [isWhole, hkind]
    rfl
  have hmem : number ∈ n.parts.filter (!·.isMute) := by
    refine List.mem_filter.2 ⟨List.mem_filter.2 ⟨mem_children_of_child? hchild, hsig⟩, ?_⟩
    rw [Bool.not_eq_true', ← Bool.not_eq_true]
    intro hmute
    rw [isWhole_of_isMute hmute number.mem_nodes_self hsig] at hwhole
    cases hwhole
  obtain ⟨only, honly⟩ := List.length_eq_one_iff.1 h.2.2
  rw [honly, List.mem_singleton] at hmem
  rw [honly, hmem]

theorem lostSigns?_eq (n n' : Node) :
    lostSigns? n n' =
      if Keeps n n' then
        (lostSignsAll? n n.children n'.children).map fun below =>
          if n.isWhole then (n.lostSign? n').toList else below
      else none := by
  cases n
  rw [lostSigns?]

theorem enclosed?_eq_some_iff {n inner : Node} :
    n.enclosed? = some inner ↔
      n.named = true ∧ n.kind = "parenthesized_expression" ∧ n.parts = [inner] := by
  rw [enclosed?, ← and_assoc]
  split
  · rename_i hkind
    rw [and_iff_right hkind]
    split
    · rename_i hparts
      rw [hparts, Option.some_inj, List.singleton_inj]
    · rename_i hparts
      exact iff_of_false nofun fun h => hparts _ h
  · rename_i hkind
    exact iff_of_false nofun fun h => hkind h.1

/-- A tree of nodes as the grammar has them, and one with more parentheses, in which some of the
numbers have no sign any more. -/
structure Encloses (lost : List Node) (a b : Node) : Prop where
  lostSigns : ∃ numbers, lostSigns? a b = some numbers ∧ numbers ⊆ lost
  spelledOut : ∀ n ∈ a.nodes, n.isSpelledOut = true

structure Within (lost : List Node) (n c d : Node) : Prop where
  field_eq : c.field = d.field
  eased : Encloses lost c d ∨ n.isStringStatement = false ∧ Enclosed (Encloses lost) c d

theorem forall₂_of_lostSignsAll? {lost : List Node} {n : Node} :
    ∀ {as bs numbers : List Node}, lostSignsAll? n as bs = some numbers → numbers ⊆ lost →
      (∀ c ∈ as, ∀ m ∈ c.nodes, m.isSpelledOut = true) → List.Forall₂ (Within lost n) as bs
  | [], [], _, _, _, _ => .nil
  | [], _ :: _, _, h, _, _ => by simp [lostSignsAll?] at h
  | _ :: _, [], _, h, _, _ => by simp [lostSignsAll?] at h
  | c :: rest, c' :: rest', _, h, hlost, hspelled => by
    obtain ⟨hc, hrest⟩ := List.forall_mem_cons.1 hspelled
    rw [lostSignsAll?] at h
    split at h
    · rename_i hfield
      obtain ⟨here, hhere, h⟩ := Option.bind_eq_some_iff.1 h
      obtain ⟨later, hlater, rfl⟩ := Option.map_eq_some_iff.1 h
      obtain ⟨hlost, hlost'⟩ := List.append_subset.1 hlost
      refine .cons ⟨hfield, ?_⟩ (forall₂_of_lostSignsAll? hlater hlost' hrest)
      rcases Option.or_eq_some_iff.1 hhere with hsame | ⟨-, hinside⟩
      · exact .inl ⟨⟨here, hsame, hlost⟩, hc⟩
      · split at hinside
        · rename_i hadmits
          rw [admits, Bool.and_eq_true, Bool.not_eq_true'] at hadmits
          obtain ⟨inner, henclosed, hinside⟩ := Option.bind_eq_some_iff.1 hinside
          obtain ⟨hnamed, hkind, hparts⟩ := enclosed?_eq_some_iff.1 henclosed
          exact .inr ⟨hadmits.2, hadmits.1, hnamed, hkind, inner, hparts,
            ⟨here, hinside, hlost⟩, hc⟩
        · cases hinside
    · cases h

namespace Within

variable {lost : List Node} {n c d : Node} (h : Within lost n c d)
include h

theorem toEased : Eased True (Encloses lost) c d := h.eased.imp_right fun h => ⟨trivial, h.2⟩

theorem of_not_isExpression (hc : c.isExpression = false) : Encloses lost c d :=
  h.eased.resolve_right fun henclosed => by simp [henclosed.2.isExpression] at hc

end Within

namespace Encloses

variable {lost : List Node} {a b : Node} (h : Encloses lost a b)
include h

theorem exists_below :
    Keeps a b ∧ ∃ below, lostSignsAll? a a.children b.children = some below ∧
      (if a.isWhole then (a.lostSign? b).toList else below) ⊆ lost := by
  obtain ⟨numbers, hnumbers, hlost⟩ := h.lostSigns
  rw [lostSigns?_eq] at hnumbers
  split at hnumbers
  · obtain ⟨below, hbelow, rfl⟩ := Option.map_eq_some_iff.1 hnumbers
    exact ⟨‹_›, below, hbelow, hlost⟩
  · cases hnumbers

theorem keeps : Keeps a b := h.exists_below.1

theorem spelledOut_of_mem_children {c : Node} (hc : c ∈ a.children) :
    ∀ m ∈ c.nodes, m.isSpelledOut = true :=
  fun m hm => h.spelledOut m (mem_nodes_iff.2 (.inr ⟨c, hc, hm⟩))

/-- Inside of a literal other numbers may have lost their signs. -/
theorem exists_children : ∃ inner, Interleaved (Within inner a) a.children b.children := by
  obtain ⟨-, below, hbelow, -⟩ := h.exists_below
  exact ⟨below, .of_forall₂ (forall₂_of_lostSignsAll? hbelow (List.Subset.refl below)
    fun _ => h.spelledOut_of_mem_children)⟩

theorem children (hwhole : a.isWhole = false) :
    Interleaved (Within lost a) a.children b.children := by
  obtain ⟨-, below, hbelow, hlost⟩ := h.exists_below
  rw [hwhole, if_neg Bool.false_ne_true] at hlost
  exact .of_forall₂ (forall₂_of_lostSignsAll? hbelow hlost fun _ => h.spelledOut_of_mem_children)

theorem isSignificant_eq : a.isSignificant = b.isSignificant := by
  rw [isSignificant, isSignificant, isComment, isComment, h.keeps.kind, h.keeps.named]

end Encloses

theorem Within.isSignificant_eq {lost : List Node} {n c d : Node} (h : Within lost n c d) :
    c.isSignificant = d.isSignificant := by
  rcases h.eased with h | ⟨-, h⟩
  · exact h.isSignificant_eq
  · rw [isSignificant_of_isExpression h.isExpression, h.isSignificant]

namespace Encloses

variable {lost : List Node} {a b : Node} (h : Encloses lost a b)
include h

theorem exists_parts : ∃ inner, List.Forall₂ (Within inner a) a.parts b.parts := by
  obtain ⟨inner, hchildren⟩ := h.exists_children
  exact ⟨inner, hchildren.filter (fun _ => isSignificant_of_isLoose)
    fun _ _ => Within.isSignificant_eq⟩

theorem exists_child? (field : String) :
    ∃ inner, Option.Rel (Within inner a) (a.child? field) (b.child? field) := by
  obtain ⟨inner, hchildren⟩ := h.exists_children
  exact ⟨inner, hchildren.find? (fun _ hc => field_ne_of_isLoose hc field)
    fun _ _ hcd => by rw [hcd.field_eq]⟩

theorem isStringStatement_eq : a.isStringStatement = b.isStringStatement := by
  by_cases hkind : a.kind = "expression_statement"
  · obtain ⟨inner, hparts⟩ := h.exists_parts
    refine isStringStatement_eq_of_parts h.keeps.kind hparts fun c d hcd honly => ?_
    rcases hcd.eased with hcd | ⟨hplain, henclosed⟩
    · rw [hcd.keeps.kind]
    · exact henclosed.string_eq hkind hplain honly
  · rw [isStringStatement_of_ne hkind, isStringStatement_of_ne (h.keeps.kind ▸ hkind)]

end Encloses

theorem Within.isStringStatement_eq {lost : List Node} {n c d : Node} (h : Within lost n c d) :
    c.isStringStatement = d.isStringStatement := by
  rcases h.eased with h | ⟨-, h⟩
  · exact h.isStringStatement_eq
  · rw [isStringStatement_of_isExpression h.isExpression,
      isStringStatement_of_isExpression h.isExpression_right]

/-! ## Literals as they are -/

theorem static_of_literal {n : Node} (hliteral : n.kind ∈ literalKinds)
    (hkind : n.kind ≠ "template_string") : n.static = n.descendants := by
  rw [static, if_neg hkind, if_pos (List.contains_iff_mem.2 hliteral)]

namespace Encloses

variable {lost : List Node} {a b : Node} (h : Encloses lost a b)
include h

theorem isExpression_of_mem_static {c : Node} (hc : c ∈ a.static) : c.isExpression = false := by
  have hself := h.spelledOut a a.mem_nodes_self
  rw [isSpelledOut, Bool.and_eq_true, List.all_eq_true] at hself
  simpa using hself.1 c hc

theorem isFlat_of_static {c : Node} (hc : ∀ m ∈ c.descendants, m ∈ a.static) :
    c.isFlat = true := by
  rw [isFlat, List.all_eq_true]
  intro m hm
  rw [h.isExpression_of_mem_static (hc m hm)]
  rfl

theorem text_eq (hliteral : a.kind ∈ literalKinds) (hkind : a.kind ≠ "template_string") :
    a.text = b.text := by
  refine h.keeps.text (h.isFlat_of_static fun m hm => ?_)
  rwa [static_of_literal hliteral hkind]

theorem text_eq_of_static {inner : List Node} {c d : Node} (hc : ∀ m ∈ c.nodes, m ∈ a.static)
    (hcd : Within inner a c d) : c.kind = d.kind ∧ c.text = d.text := by
  rw [nodes_eq_cons, List.forall_mem_cons] at hc
  have hcd := hcd.of_not_isExpression (h.isExpression_of_mem_static hc.1)
  exact ⟨hcd.keeps.kind, hcd.keeps.text (h.isFlat_of_static hc.2)⟩

theorem content_eq (hkind : a.kind = "string") : a.content = b.content := by
  rw [content, content, h.keeps.kind, h.text_eq] <;> rw [hkind] <;> decide

theorem regexText_eq (hkind : a.kind = "regex") : a.regexText = b.regexText := by
  have hfield : ∀ field : String, (a.child? field).map text = (b.child? field).map text := by
    intro field
    obtain ⟨inner, hrel⟩ := h.exists_child? field
    rcases rel_cases hrel with ⟨hc, hd⟩ | ⟨c, d, hc, hd, hcd⟩
    · rw [hc, hd]
    · have hbelow : ∀ m ∈ c.nodes, m ∈ a.static := by
        intro m hm
        rw [static_of_literal] <;> try (rw [hkind]; decide)
        exact mem_nodesOf.2 ⟨c, mem_children_of_child? hc, hm⟩
      rw [hc, hd, Option.map_some, Option.map_some, (h.text_eq_of_static hbelow hcd).2]
  simp only [regexText, hfield]

theorem templateText_eq (hkind : a.kind = "template_string") : a.templateText = b.templateText := by
  obtain ⟨inner, hparts⟩ := h.exists_parts
  have hchunks : a.chunks = b.chunks := by
    refine chunksOf_eq_of_forall₂ ((forall₂_mem hparts).imp ?_)
    rintro c d ⟨hc, -, hcd⟩
    by_cases hsubstitution : c.kind = "template_substitution"
    · have hcd := hcd.toEased.of_kind_ne (by rw [hsubstitution]; decide)
      exact ⟨hcd.keeps.kind, fun hne => absurd (hcd.keeps.kind ▸ hsubstitution) hne⟩
    · have hbelow : ∀ m ∈ c.nodes, m ∈ a.static := by
        intro m hm
        rw [static, if_pos hkind, List.mem_flatMap]
        exact ⟨c, List.mem_filter.2 ⟨hc, by simpa using hsubstitution⟩, hm⟩
      exact (h.text_eq_of_static hbelow hcd).imp_right fun htext _ => htext
  rw [templateText, templateText, hchunks]

theorem operator?_iff {kind : String} (hkind : kind ∉ expressionKinds) :
    a.operator? = some kind ↔ b.operator? = some kind := by
  obtain ⟨inner, hrel⟩ := h.exists_child? "operator"
  rw [operator?, operator?]
  rcases rel_cases hrel with ⟨hc, hd⟩ | ⟨c, d, hc, hd, hcd⟩
  · rw [hc, hd]
  · rw [hc, hd, Option.map_some, Option.map_some, Option.some_inj, Option.some_inj]
    exact hcd.toEased.kind_eq_iff (fun hcd => hcd.keeps.kind) hkind

/-- A number that is put in parentheses is not negated any more. -/
theorem negatedNumber?_cases :
    a.negatedNumber?.map text = b.negatedNumber?.map text ∨
      b.negatedNumber? = none ∧ ∃ number ∈ lost, a.negatedNumber? = some number := by
  have hsign : (a.kind = "unary_expression" ∧ a.operator? = some "-") ↔
      b.kind = "unary_expression" ∧ b.operator? = some "-" := by
    rw [h.keeps.kind, h.operator?_iff (by decide)]
  by_cases hnegates : a.kind = "unary_expression" ∧ a.operator? = some "-"
  · obtain ⟨inner, hrel⟩ := h.exists_child? "argument"
    rcases rel_cases hrel with ⟨hc, hd⟩ | ⟨c, d, hc, hd, hcd⟩
    · left
      rw [negatedNumber?, negatedNumber?, if_pos hnegates, if_pos (hsign.1 hnegates), hc, hd]
    · have ha : a.negatedNumber? = if c.kind == "number" then some c else none := by
        rw [negatedNumber?, if_pos hnegates, hc, Option.filter_some]
      have hb : b.negatedNumber? = if d.kind == "number" then some d else none := by
        rw [negatedNumber?, if_pos (hsign.1 hnegates), hd, Option.filter_some]
      rcases hcd.eased with hcd | ⟨-, henclosed⟩
      · left
        rw [ha, hb, ← hcd.keeps.kind]
        split
        · rename_i hnumber
          have hnumber := eq_of_beq hnumber
          rw [Option.map_some, Option.map_some, hcd.text_eq] <;> rw [hnumber] <;> decide
        · rfl
      · have hb : b.negatedNumber? = none := by
          rw [hb, henclosed.kind]
          rfl
        cases hnumber : a.negatedNumber? with
        | none => exact .inl (by rw [hb])
        | some number =>
          obtain ⟨-, below, -, hlost⟩ := h.exists_below
          have hwhole : a.isWhole = true := by
            rw [isWhole, hnumber, Option.isSome_some, Bool.or_true]
          rw [if_pos hwhole, lostSign?, hb, hnumber] at hlost
          exact .inr ⟨hb, number, hlost (List.mem_singleton_self number), rfl⟩
  · left
    rw [negatedNumber?, negatedNumber?, if_neg hnegates, if_neg (mt hsign.2 hnegates)]

theorem literal_eq (hnegated : a.negatedNumber?.map text = b.negatedNumber?.map text) :
    a.literal = b.literal := by
  rw [literal, literal, ← h.keeps.kind]
  split
  · rw [h.content_eq ‹_›]
  · rw [h.text_eq] <;> rw [‹a.kind = _›] <;> decide
  · rw [h.regexText_eq ‹_›]
  · rw [h.templateText_eq ‹_›]
  iterate 4 rfl
  · revert hnegated
    cases a.negatedNumber? <;> cases b.negatedNumber? <;> intro hnegated
    · rfl
    · cases hnegated
    · cases hnegated
    · simp only [Option.map_some, Option.some_inj] at hnegated
      simp only [hnegated]

end Encloses

end Node

/-! ## Where literals are found -/

/-- The literal of a number, with or without a minus in front, as a list. -/
def Node.signed (negated : Bool) (n : Node) : List Literal :=
  (Literal.ofNumeral negated n.text).data.toList

/-- Two lists of literals that are the same but for the signs of some numbers, which the first list
has and the second has lost. -/
def Literal.SameButSigns (lost : List Node) (as bs : List Literal) : Prop :=
  ∃ common numbers, numbers ⊆ lost ∧ as.Perm (common ++ numbers.flatMap (Node.signed true)) ∧
    bs.Perm (common ++ numbers.flatMap (Node.signed false))

namespace Literal.SameButSigns

variable {lost : List Node} {as bs as' bs' : List Literal}

theorem refl (as : List Literal) : SameButSigns lost as as :=
  ⟨as, [], List.nil_subset lost, by simp, by simp⟩

theorem of_number {number : Node} (h : number ∈ lost) :
    SameButSigns lost (number.signed true) (number.signed false) :=
  ⟨[], [number], List.cons_subset.2 ⟨h, List.nil_subset lost⟩, by simp, by simp⟩

theorem append (h : SameButSigns lost as bs) (h' : SameButSigns lost as' bs') :
    SameButSigns lost (as ++ as') (bs ++ bs') := by
  obtain ⟨common, numbers, hlost, has, hbs⟩ := h
  obtain ⟨common', numbers', hlost', has', hbs'⟩ := h'
  have hshuffle : ∀ {ls ls' : List Literal} {negated : Bool},
      ls.Perm (common ++ numbers.flatMap (Node.signed negated)) →
        ls'.Perm (common' ++ numbers'.flatMap (Node.signed negated)) →
          (ls ++ ls').Perm (common ++ common' ++
            (numbers ++ numbers').flatMap (Node.signed negated)) := by
    intro ls ls' negated hls hls'
    refine (hls.append hls').trans ?_
    rw [List.flatMap_append, List.append_assoc, List.append_assoc]
    exact (List.perm_append_comm_assoc ..).append_left common
  exact ⟨common ++ common', numbers ++ numbers', List.append_subset.2 ⟨hlost, hlost'⟩,
    hshuffle has has', hshuffle hbs hbs'⟩

end Literal.SameButSigns

namespace Site

theorem literal_of_parentheses {x : Site} (hkind : x.node.kind = "parenthesized_expression") :
    x.literal = .ok .pass :=
  literal_of_wrapper (by rw [hkind]; decide)

theorem literal_of_unary {x : Site} (hkind : x.node.kind = "unary_expression")
    (hnegated : x.node.negatedNumber? = none) : x.literal = .ok .pass := by
  rw [literal_of_ne (by rw [hkind]; decide), Node.literal_of_ne, hnegated] <;>
    (rw [hkind]; decide)

theorem literal_of_number {x : Site} (hkind : x.node.kind = "number") :
    x.literal = .ok (Literal.ofNumeral false x.node.text) := by
  rw [literal_of_ne (by rw [hkind]; decide), Node.literal]
  simp only [hkind]

theorem literal_of_negatedNumber? {x : Site} {number : Node}
    (hnumber : x.node.negatedNumber? = some number) :
    x.literal = .ok (Literal.ofNumeral true number.text) := by
  rw [literal_of_ne (by rw [Node.kind_of_negatedNumber? hnumber]; decide),
    Node.literal_of_negatedNumber? hnumber]

theorem found?_of_numeral {x : Site} {negated : Bool} {text : String}
    (h : x.literal = .ok (Literal.ofNumeral negated text)) (path : String) :
    found? literal path x = some ((Literal.ofNumeral negated text).collect path []) :=
  found?_of_stop h (Literal.ofNumeral_descend negated text)

structure Encloses (lost : List Node) (s s' : Site) : Prop where
  node : Node.Encloses lost s.node s'.node
  opens : s.opensPrologue = s'.opensPrologue

structure OffersEnclosed (lost : List Node) (s s' : Site) : Prop extends Encloses lost s s' where
  directive : s.isDirective = s'.isDirective

variable {lost : List Node} {s s' : Site}

theorem opensPrologue_of_expression {x : Site} (h : x.node.isExpression = true) :
    x.opensPrologue = false := by
  have hprogram : x.node.kind ≠ "program" := Node.kind_ne_of_isExpression h (by decide)
  have hblock : x.node.kind ≠ "statement_block" := Node.kind_ne_of_isExpression h (by decide)
  rw [opensPrologue, if_neg hprogram, if_neg hblock]

theorem past_of_beside (h : Encloses lost s s') {x x' : Site}
    (hx : Beside (Node.Within lost s.node) s s' x x') :
    Past literal (OffersEnclosed lost) x x' := by
  have hdirective := isDirective_eq_of_beside hx Node.Within.isSignificant_eq
    Node.Within.isStringStatement_eq h.opens
  obtain ⟨hchildren, hchildren', hfront, hc⟩ := hx
  rename_i front front' rest rest' c c'
  rcases hc.eased with hcc' | ⟨-, henclosed⟩
  · refine .inl ⟨⟨hcc', ?_⟩, hdirective⟩
    rw [opensPrologue_child, opensPrologue_child, Node.isFunction, Node.isFunction,
      h.node.keeps.kind, hcc'.keeps.kind]
  · -- The node in the parentheses is offered next; it is an expression, and so neither a directive
    -- nor a block.
    obtain ⟨inner, hinner, hcc'⟩ := henclosed.inside
    obtain ⟨i, -, hparts⟩ := exists_parts_eq_singleton (s := s'.child front'.length c') hinner
    have hexpression := henclosed.isExpression
    have hexpression' : inner.isExpression = true := by
      rwa [Node.isExpression, ← hcc'.keeps.kind, ← hcc'.keeps.named]
    refine .inr ⟨_, hparts, ?_, ⟨⟨hcc', ?_⟩, ?_⟩⟩
    · exact congrArg Except.toOption (literal_of_parentheses henclosed.kind)
    · rw [opensPrologue_of_expression hexpression, opensPrologue_of_expression hexpression']
    · rw [isDirective_child, isDirective_child,
        Node.isStringStatement_of_isExpression hexpression,
        Node.isStringStatement_of_isExpression hexpression', Bool.false_and, Bool.false_and]

theorem Encloses.parts (h : Encloses lost s s') (hwhole : s.node.isWhole = false) :
    Arranged False (Past literal (OffersEnclosed lost)) s.parts s'.parts :=
  .of_forall₂ ((forall₂_parts Node.Within.isSignificant_eq (h.node.children hwhole)).imp
    fun _ _ => past_of_beside h)

theorem gathers_sameButSigns (lost : List Node) :
    Gathers False fun found found' : List (Entry Literal) =>
      Literal.SameButSigns lost (Entry.toListAll found) (Entry.toListAll found') where
  nil := .refl []
  append h h' := by
    rw [Entry.toListAll_append, Entry.toListAll_append]
    exact h.append h'
  moved h hmoved := hmoved.eq not_false ▸ h

def Finds (y : Site) (literals : List Literal) : Prop :=
  ∀ path, ∃ found, found? literal path y = some found ∧ Entry.toListAll found = literals

theorem finds_of_within {inner : List Node} {n c : Node} {y : Site} {literals : List Literal}
    (h : Node.Within inner n c y.node)
    (hfinds : ∀ {z : Site}, Node.Encloses inner c z.node → z.Finds literals) :
    y.Finds literals := by
  rcases h.eased with h | ⟨-, henclosed⟩
  · exact hfinds h
  · intro path
    obtain ⟨e, he, hrelated⟩ := henclosed.inside
    obtain ⟨i, -, hsites⟩ := exists_parts_eq_singleton he
    have hpass := literal_of_parentheses henclosed.kind
    rw [found?_of_pass (congrArg Except.toOption hpass), foundBelow?_of_parts_eq hsites]
    exact hfinds hrelated _

theorem exists_foundBelow? {y : Site} {ls : Node → List Literal} {cs : List Node}
    (h : List.Forall₂ (fun c z => z.Finds (ls c)) cs y.parts) (path : String) :
    ∃ found, foundBelow? literal path y = some found ∧
      Entry.toListAll found = cs.flatMap ls := by
  rw [foundBelow?]
  generalize y.parts = zs at h
  induction h with
  | nil => exact ⟨[], rfl, rfl⟩
  | @cons c z cs zs hz _ ih =>
    obtain ⟨here, hhere, hfirst⟩ := hz (z.pathBelow path)
    obtain ⟨later, hlater, hrest⟩ := ih
    refine ⟨here ++ later, ?_, ?_⟩
    · rw [gather, hhere, hlater]
      rfl
    · rw [Entry.toListAll_append, hfirst, hrest, List.flatMap_cons]

theorem forall₂_parts_of_encloses {a : Node} {y : Site} (h : Node.Encloses lost a y.node) :
    ∃ inner, List.Forall₂ (fun c (z : Site) => Node.Within inner a c z.node) a.parts y.parts := by
  obtain ⟨inner, hparts⟩ := h.exists_parts
  rw [← map_node_parts, List.forall₂_map_right_iff] at hparts
  exact ⟨inner, hparts⟩

/-- A number that stands alone is found without a sign. -/
theorem finds_of_number {number : Node} {y : Site} (h : Node.Encloses lost number y.node)
    (hkind : number.kind = "number") : y.Finds (number.signed false) := by
  intro path
  have hliteral : y.literal = .ok (Literal.ofNumeral false number.text) := by
    rw [literal_of_number (h.keeps.kind ▸ hkind), h.text_eq] <;> (rw [hkind]; decide)
  refine ⟨_, found?_of_numeral hliteral path, ?_⟩
  rw [Signal.toListAll_collect, Entry.toListAll, List.append_nil]
  rfl

theorem literal_of_isWhole_eq_false {y : Site} (h : y.node.isWhole = false) :
    ∃ signal, y.literal = .ok signal ∧ signal.data = none := by
  obtain ⟨hkind, hnegated⟩ := Node.isWhole_eq_false.1 h
  rw [literal]
  split
  · exact ⟨_, rfl, rfl⟩
  · by_cases hconstant : y.node.kind ∈ Node.constantKinds
    · exact ⟨.prune, Node.literal_of_constant hconstant, rfl⟩
    · exact ⟨.pass, by rw [Node.literal_of_ne hkind hconstant, hnegated], rfl⟩

/-- Where there is no literal, none is found behind parentheses either. -/
theorem finds_of_isMute (c : Node) : ∀ {lost : List Node} {y : Site},
    Node.Encloses lost c y.node → c.isSignificant = true → c.isMute = true → y.Finds [] := by
  induction c using Node.induction with
  | node c ih =>
    intro lost y h hsig hmute path
    obtain ⟨hkind, hnegated⟩ :=
      Node.isWhole_eq_false.1 (Node.isWhole_of_isMute hmute c.mem_nodes_self hsig)
    have hwhole : y.node.isWhole = false := by
      refine Node.isWhole_eq_false.2 ⟨h.keeps.kind ▸ hkind, ?_⟩
      rcases h.negatedNumber?_cases with hsame | ⟨hnone, -⟩
      · simpa [hnegated, eq_comm] using hsame
      · exact hnone
    obtain ⟨signal, hsignal, hdata⟩ := literal_of_isWhole_eq_false hwhole
    obtain ⟨inner, hparts⟩ := forall₂_parts_of_encloses h
    have hfinds : List.Forall₂ (fun _ z => z.Finds []) c.parts y.parts := by
      refine (forall₂_mem hparts).imp ?_
      rintro d z ⟨hd, -, hwithin⟩
      obtain ⟨hchild, hsig⟩ := List.mem_filter.1 hd
      exact finds_of_within hwithin fun hz =>
        ih d hchild hz hsig (Node.isMute_of_mem_children hmute hchild)
    obtain ⟨found, hfound, hnothing⟩ := exists_foundBelow? hfinds path
    rw [found?_eq, hsignal]
    cases hdescend : signal.descend with
    | false => exact ⟨[], by simp [Except.toOption, hdescend, Signal.collect, hdata], rfl⟩
    | true =>
      refine ⟨found, by simp [Except.toOption, hdescend, Signal.collect, hdata, hfound], ?_⟩
      rw [hnothing, List.flatMap_eq_nil_iff]
      exact fun _ _ => rfl

theorem finds_of_lostSign {x x' : Site} (hx : Encloses lost x x') {number : Node}
    (hnumber : x.node.negatedNumber? = some number) (hlost : x'.node.negatedNumber? = none) :
    x'.Finds (number.signed false) := by
  intro path
  have hkind := hx.node.keeps.kind ▸ Node.kind_of_negatedNumber? hnumber
  have honly := Node.filter_parts_of_isSpelledOut
    (hx.node.spelledOut x.node x.node.mem_nodes_self) hnumber
  obtain ⟨inner, hparts⟩ := forall₂_parts_of_encloses hx.node
  have hfinds : List.Forall₂
      (fun c z => z.Finds (if !c.isMute then c.signed false else [])) x.node.parts x'.parts := by
    refine (forall₂_mem hparts).imp ?_
    rintro c z ⟨hc, -, hwithin⟩
    refine finds_of_within hwithin fun hz => ?_
    split
    · rename_i hloud
      have hmem : c ∈ x.node.parts.filter (!·.isMute) := List.mem_filter.2 ⟨hc, hloud⟩
      rw [honly, List.mem_singleton] at hmem
      exact finds_of_number hz (hmem ▸ (Node.child?_of_negatedNumber? hnumber).2)
    · rename_i hmute
      exact finds_of_isMute c hz (List.mem_filter.1 hc).2 (by simpa using hmute)
  obtain ⟨found, hfound, hliterals⟩ := exists_foundBelow? hfinds path
  rw [found?_of_pass (congrArg Except.toOption (literal_of_unary hkind hlost))]
  refine ⟨found, hfound, ?_⟩
  rw [hliterals, flatMap_ite_nil, honly, List.flatMap_singleton]

/-- Sites contribute the same, or the sign of a number is lost from one to the other. -/
theorem literal_cases {x x' : Site} (hx : OffersEnclosed lost x x') :
    x.literal.toOption = x'.literal.toOption ∨ ∀ path path' : String,
      Option.Rel
        (fun found found' =>
          Literal.SameButSigns lost (Entry.toListAll found) (Entry.toListAll found'))
        (found? literal path x) (found? literal path' x') := by
  rcases hx.node.negatedNumber?_cases with hsame | ⟨hlost, number, hmem, hnumber⟩
  · left
    rw [literal, literal, hx.directive, hx.node.literal_eq hsame]
  · right
    intro path path'
    obtain ⟨found, hfound, hliterals⟩ := finds_of_lostSign hx.toEncloses hnumber hlost path'
    rw [found?_of_numeral (literal_of_negatedNumber? hnumber), hfound]
    refine .some ?_
    rw [Signal.toListAll_collect, Entry.toListAll, List.append_nil, hliterals]
    exact .of_number hmem

theorem literals_eq_torn {root : Site} (h : root.literals.toOption = none) :
    root.literals = .error (.torn "string") := by
  cases hwalk : root.walk fun _ s => s.literal with
  | error fault =>
    obtain ⟨s, -, hfault⟩ := exists_offered_of_walk_eq_error hwalk
    rw [literals, hwalk, (eq_torn_of_literal hfault).1]
    rfl
  | ok found =>
    rw [literals, hwalk] at h
    cases h

theorem literals_eq_ascending {root : Site} {found : List (Entry Literal)} {as : List Literal}
    (hfound : (root.walk fun _ s => s.literal).toOption = some found)
    (hperm : (Entry.toListAll found).Perm as) : root.literals = .ok (Literal.ascending as) := by
  have hwalk := toOption_eq_some.1 hfound
  rw [literals, hwalk, ← Literal.ascending_eq_of_perm hperm (isKept_of_mem_walk hwalk)]
  rfl

theorem Encloses.parts_of_descends (h : OffersEnclosed lost s s') (hdescends : Descends s.literal) :
    Arranged False (Past literal (OffersEnclosed lost)) s.parts s'.parts := by
  have hsealed := (descends_literal_iff.1 hdescends).1
  rw [isSealed, Bool.or_eq_false_iff] at hsealed
  exact h.toEncloses.parts hsealed.2

theorem literals_cases {root root' : Site} (hroot : Encloses lost root root')
    (hwhole : root.node.isWhole = false) :
    root.literals = .error (.torn "string") ∧ root'.literals = .error (.torn "string") ∨
      ∃ common numbers, numbers ⊆ lost ∧
        root.literals = .ok (Literal.ascending (common ++ numbers.flatMap (Node.signed true))) ∧
        root'.literals =
          .ok (Literal.ascending (common ++ numbers.flatMap (Node.signed false))) := by
  have hcollect : ∀ (signal : Signal Literal) {path path' : String}
      {inner inner' : List (Entry Literal)},
      Literal.SameButSigns lost (Entry.toListAll inner) (Entry.toListAll inner') →
        Literal.SameButSigns lost (Entry.toListAll (signal.collect path inner))
          (Entry.toListAll (signal.collect path' inner')) := by
    intro signal path path' inner inner' hinner
    rw [Signal.toListAll_collect, Signal.toListAll_collect]
    exact .append (.refl _) hinner
  have hfound := walk_related (gathers_sameButSigns lost) hcollect Encloses.parts_of_descends
    (fun hs => (literal_cases hs).imp_right fun hfound _ => hfound) (hroot.parts hwhole)
  rcases rel_cases hfound with ⟨hnone, hnone'⟩ | ⟨found, found', hfound, hfound', hdiffer⟩
  · refine .inl ⟨literals_eq_torn ?_, literals_eq_torn ?_⟩
    · rw [literals, toOption_map, hnone]
      rfl
    · rw [literals, toOption_map, hnone']
      rfl
  · obtain ⟨common, numbers, hlost, hperm, hperm'⟩ := hdiffer
    exact .inr ⟨common, numbers, hlost, literals_eq_ascending hfound hperm,
      literals_eq_ascending hfound' hperm'⟩

end Site

namespace Signature

/-- **Parentheses cut numbers off their signs, and change no other literal.**  If expressions of a
tree are put in parentheses, wherever they stand, then both trees have no literals because of a torn
string, or they have the same literals but for numbers that have lost their sign.  So the literals
are the same if the sign makes no difference to these numbers.  Of the first tree it is asked that
its root is no literal, and that literals and negated numbers are as the grammar has them. -/
theorem literals_parenthesized {root root' : Node} {lost : List Node}
    (h : Node.lostSigns? root root' = some lost) (hwhole : root.isWhole = false)
    (hspelled : ∀ n ∈ root.nodes, n.isSpelledOut = true) :
    (Site.literals ⟨root, []⟩ = .error (.torn "string") ∧
        Site.literals ⟨root', []⟩ = .error (.torn "string") ∨
      ∃ common numbers, numbers ⊆ lost ∧
        Site.literals ⟨root, []⟩ =
          .ok (Literal.ascending (common ++ numbers.flatMap (Node.signed true))) ∧
        Site.literals ⟨root', []⟩ =
          .ok (Literal.ascending (common ++ numbers.flatMap (Node.signed false)))) ∧
    ((∀ n ∈ lost, n.signed true = n.signed false) →
      Site.literals ⟨root, []⟩ = Site.literals ⟨root', []⟩) := by
  have hroot : Site.Encloses lost ⟨root, []⟩ ⟨root', []⟩ := by
    have hnode : Node.Encloses lost root root' := ⟨⟨lost, h, List.Subset.refl lost⟩, hspelled⟩
    refine ⟨hnode, ?_⟩
    rw [Site.opensPrologue, Site.opensPrologue, hnode.keeps.kind]
    rfl
  have hdiffer : _ ∨ _ := Site.literals_cases hroot hwhole
  refine ⟨hdiffer, fun hsigns => ?_⟩
  rcases hdiffer with ⟨htorn, htorn'⟩ | ⟨common, numbers, hlost, hliterals, hliterals'⟩
  · rw [htorn, htorn']
  · have hsame : numbers.map (Node.signed true) = numbers.map (Node.signed false) :=
      List.map_congr_left fun n hn => hsigns n (hlost hn)
    rw [hliterals, hliterals', List.flatMap_def, List.flatMap_def, hsame]

def enclosedCall : List Row :=
  [⟨"program", true, none, 0, 15, 1⟩,
    ⟨"expression_statement", true, none, 0, 15, 2⟩,
    ⟨"call_expression", true, none, 0, 14, 2⟩,
    ⟨"identifier", true, some "function", 0, 1, 0⟩,
    ⟨"arguments", true, some "arguments", 1, 14, 5⟩,
    ⟨"(", false, none, 1, 2, 0⟩,
    ⟨"unary_expression", true, none, 2, 6, 2⟩,
    ⟨"-", false, some "operator", 2, 3, 0⟩,
    ⟨"parenthesized_expression", true, some "argument", 3, 6, 3⟩,
    ⟨"(", false, none, 3, 4, 0⟩,
    ⟨"number", true, none, 4, 5, 0⟩,
    ⟨")", false, none, 5, 6, 0⟩,
    ⟨",", false, none, 6, 7, 0⟩,
    ⟨"parenthesized_expression", true, none, 8, 13, 3⟩,
    ⟨"(", false, none, 8, 9, 0⟩,
    ⟨"string", true, none, 9, 12, 3⟩,
    ⟨"\"", false, none, 9, 10, 0⟩,
    ⟨"string_fragment", true, none, 10, 11, 0⟩,
    ⟨"\"", false, none, 11, 12, 0⟩,
    ⟨")", false, none, 12, 13, 0⟩,
    ⟨")", false, none, 13, 14, 0⟩,
    ⟨";", false, none, 14, 15, 0⟩]

theorem literals_parenthesized_negatedOne :
    ∃ t t' lost, Node.ofRows? "f(-1, \"a\");" Site.negatedCall = some t ∧
      Node.ofRows? "f(-(1), (\"a\"));" enclosedCall = some t' ∧
      Node.lostSigns? t t' = some lost ∧ t.isWhole = false ∧
      (∀ n ∈ t.nodes, n.isSpelledOut = true) ∧ lost.map Node.text = ["1"] ∧
      (∀ n ∈ lost, n.signed true = n.signed false) ∧
      ∃ literals, Site.literals ⟨t, []⟩ = .ok literals ∧ Site.literals ⟨t', []⟩ = .ok literals ∧
        .text "a" ∈ literals := by
  obtain ⟨t, t', ht, ht', hlost, hwhole, hspelled, hfound⟩ :
      ∃ t t', Node.ofRows? "f(-1, \"a\");" Site.negatedCall = some t ∧
        Node.ofRows? "f(-(1), (\"a\"));" enclosedCall = some t' ∧
        ((Node.lostSigns? t t').any fun lost => decide (lost.map Node.text = ["1"] ∧
          ∀ n ∈ lost, n.signed true = n.signed false)) = true ∧
        t.isWhole = false ∧ (∀ n ∈ t.nodes, n.isSpelledOut = true) ∧
        ((Site.walk (fun _ s => s.literal) ⟨t, []⟩).toOption.any fun found =>
          (Entry.toListAll found).any fun l => decide (l = .text "a")) = true :=
    Node.exists_trees (by decide +kernel)
  obtain ⟨lost, hlost, hsigns⟩ := (Option.any_eq_true _ _).1 hlost
  obtain ⟨htexts, hsigns⟩ := of_decide_eq_true hsigns
  obtain ⟨literals, hliterals, hmem⟩ := Site.exists_literals_of_found hfound
  have hsame := (literals_parenthesized hlost hwhole hspelled).2 hsigns
  exact ⟨t, t', lost, ht, ht', hlost, hwhole, hspelled, htexts, hsigns, literals, hliterals,
    hsame ▸ hliterals, hmem⟩

/-- The sign of a number in parentheses is lost. -/
theorem literals_parenthesizedSeven :
    ∃ t t', Node.ofRows? "f(-7, \"a\");" Site.negatedCall = some t ∧
      Node.ofRows? "f(-(7), (\"a\"));" enclosedCall = some t' ∧
      (Node.lostSigns? t t').isSome = true ∧ t.isWhole = false ∧
      (∀ n ∈ t.nodes, n.isSpelledOut = true) ∧
      ∃ literals literals', Site.literals ⟨t, []⟩ = .ok literals ∧
        Site.literals ⟨t', []⟩ = .ok literals' ∧ .number (.ofInt (-7)) ∈ literals ∧
        .number (.ofInt (-7)) ∉ literals' := by
  obtain ⟨t, t', ht, ht', hlost, hwhole, hspelled, hfound, hfound'⟩ :
      ∃ t t', Node.ofRows? "f(-7, \"a\");" Site.negatedCall = some t ∧
        Node.ofRows? "f(-(7), (\"a\"));" enclosedCall = some t' ∧
        (Node.lostSigns? t t').isSome = true ∧ t.isWhole = false ∧
        (∀ n ∈ t.nodes, n.isSpelledOut = true) ∧
        ((Site.walk (fun _ s => s.literal) ⟨t, []⟩).toOption.any fun found =>
          (Entry.toListAll found).any fun l => decide (l = .number (.ofInt (-7)))) = true ∧
        ((Site.walk (fun _ s => s.literal) ⟨t', []⟩).toOption.any fun found =>
          (Entry.toListAll found).all fun l => decide (l ≠ .number (.ofInt (-7)))) = true :=
    Node.exists_trees (by decide +kernel)
  obtain ⟨literals, hliterals, hmem⟩ := Site.exists_literals_of_found hfound
  obtain ⟨found', hfound', hmissing⟩ := (Option.any_eq_true _ _).1 hfound'
  obtain ⟨literals', hliterals', hmem'⟩ := Site.exists_literals_of_walk hfound'
  exact ⟨t, t', ht, ht', hlost, hwhole, hspelled, literals, literals', hliterals, hliterals', hmem,
    fun h => of_decide_eq_true (List.all_eq_true.1 hmissing _ ((hmem' _).1 h)) rfl⟩

end Signature

end Fingerprint
