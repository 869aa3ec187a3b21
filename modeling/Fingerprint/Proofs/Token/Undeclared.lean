import Mathlib.Tactic.Common
import Fingerprint.Proofs.Token.Outline
import Fingerprint.Proofs.Tree.Blanks
/-!
# Changed declarations

Tokens without declarations are made to compare functions of which the declarations have changed.
They are blind to the variable declarations that are statements, wherever these stand in the body of
a function, and to its parameters.  A declaration in the header of a loop is a part of the token of
the loop, and shows in it.
-/

namespace Fingerprint

def Slot.spares (kind : String) : Slot → Bool
  | .operand field | .textOf field | .nameOf field | .kindOf field | .clause field =>
    (Role.statement.below kind (some field)).isNone
  | .tests => Role.statement.below kind (some "body") == some .cases
  | .caught => Role.statement.below kind (some "handler") == some .clause
  | _ => false

def Head.spares (kind : String) : Head → Bool
  | .fixed _ | .attempt => true
  | .loop => (Role.statement.below kind (some "operator")).isNone
  | _ => false

namespace Node

/-! ## Headers of statements -/

/-- A statement looks for no statement in what its header is made of. -/
theorem forms_spare :
    ∀ entry ∈ Form.statements, Role.fields.lookup entry.1 = some [] ∨
      entry.2.head.spares entry.1 = true ∧ entry.2.slots.all (Slot.spares entry.1) = true := by
  decide

theorem forms_no_declaration : ∀ entry ∈ Form.statements, entry.1 ∉ Form.declarationKinds := by
  decide

section Headers

variable {n : Node} (h : n.isBlank .statement = false)
include h

theorem child?_blanked_of_none {field : String}
    (hbelow : (Role.statement.below n.kind (some field)).isNone = true) :
    (n.blanked .statement).child? field = n.child? field := by
  rw [child?_blanked h, Option.isNone_iff_eq_none.1 hbelow]
  exact Option.map_id'

theorem headName_blanked {head : Head} (hhead : head.spares n.kind = true) :
    head.name (n.blanked .statement) = head.name n := by
  cases head with
  | fixed name => rfl
  | loop => rw [Head.name, Head.name, operator?, operator?, child?_blanked_of_none h hhead]
  | attempt => simp only [Head.name, child?_blanked h, Option.isSome_map]
  | numeral | connective | call | member => cases hhead

theorem fill_blanked (read below : Reading) {slot : Slot} (hslot : slot.spares n.kind = true) :
    fill read below (n.blanked .statement) slot = fill read below n slot := by
  cases slot with
  | operand field | textOf field | nameOf field | kindOf field | clause field =>
    simp only [fill, child?_blanked_of_none h hslot]
  | tests =>
    simp only [fill, cases_blanked h (eq_of_beq hslot), List.map_map]
    refine List.map_congr_left fun c _ => ?_
    rw [Function.comp_apply, child?_blanked (rfl : c.isBlank .case = false)]
    exact congrArg (fun test : Option Node => (test.map read).getD "default") Option.map_id'
  | caught =>
    simp only [fill, child?_blanked h, eq_of_beq hslot]
    cases n.child? "handler" with
    | none => rfl
    | some c =>
      rw [Option.map_some, Option.bind_some, Option.bind_some, blankedAt,
        child?_blanked (rfl : c.isBlank .clause = false)]
      exact congrArg (fun found : Option Node => (found.map (bindingText read)).toList)
        Option.map_id'
  | _ => cases hslot

end Headers

theorem shape_blanked_of_spares (read below : Reading) {n : Node} {form : Form}
    (h : n.isBlank .statement = false) (hhead : form.head.spares n.kind = true)
    (hslots : form.slots.all (Slot.spares n.kind) = true) :
    shape read below (n.blanked .statement) form = shape read below n form := by
  rw [shape, shape, headName_blanked h hhead]
  congr 1
  exact List.flatMap_congr fun slot hslot =>
    fill_blanked h read below (List.all_eq_true.1 hslots slot hslot)

theorem shape_blanked (read below : Reading) {n : Node} {form : Form}
    (hform : Form.statements.lookup n.kind = some form) :
    shape read below (n.blanked .statement) form = shape read below n form := by
  have hentry : (n.kind, form) ∈ Form.statements := mem_of_lookup_eq_some hform
  have hblank : n.isBlank .statement = false :=
    isBlank_eq_false (forms_no_declaration _ hentry)
  rcases forms_spare _ hentry with hfields | ⟨hhead, hslots⟩
  · rw [blanked_eq_self hblank]
    intro field
    rw [Role.below, hfields]
    cases field <;> rfl
  · exact shape_blanked_of_spares read below hblank hhead hslots

/-! ## Statements -/

abbrev PieceBlanks : Piece → Piece → Prop := PieceRel (· = ·) Blanks

theorem innerPieces_blanks {as bs : List Node} (h : List.Forall₂ Blanks as bs) :
    List.Forall₂ PieceBlanks (as.map .inner) (bs.map .inner) := by
  rw [List.forall₂_map_left_iff, List.forall₂_map_right_iff]
  exact h.imp fun _ _ => .inner

section Pieces

variable (read below : Reading)

theorem linkPieces_blanked (name : String) {n : Node} (h : n.kind = "if_statement") :
    List.Forall₂ PieceBlanks (linkPieces read below name n)
      (linkPieces read below name (n.blanked .statement)) := by
  have hblank : n.isBlank .statement = false := isBlank_eq_false_of_kind h (by decide)
  have hcondition : (Form.link name).slots.all (Slot.spares n.kind) = true := by
    rw [h]
    rfl
  rw [linkPieces, linkPieces, shape_blanked_of_spares read below hblank rfl hcondition,
    body_blanked hblank (by rw [h]; rfl)]
  exact .cons (.token rfl) (innerPieces_blanks (blanks_map _))

theorem chainPieces_blanked {n : Node} (h : n.kind = "if_statement") :
    List.Forall₂ PieceBlanks (chainPieces read below n)
      (chainPieces read below (n.blanked .statement)) := by
  have hlinks : List.Forall₂ PieceBlanks (n.chain.1.flatMap (linkPieces read below "Else-If"))
      ((n.chain.1.map (blanked .statement)).flatMap (linkPieces read below "Else-If")) := by
    rw [List.flatMap_map]
    exact forall₂_flatMap_same fun c hc =>
      linkPieces_blanked read below "Else-If" ((links_kind n).1 c hc)
  have hhead := linkPieces_blanked read below "If" h
  rw [chainPieces, chainPieces, chain_blanked h]
  revert hlinks
  obtain ⟨links, _ | statement⟩ := n.chain
  · exact fun hlinks => List.rel_append (List.rel_append hhead hlinks) .nil
  · refine fun hlinks => List.rel_append (List.rel_append hhead hlinks) (.cons (.token rfl) ?_)
    cases statement with
    | none => exact .nil
    | some last =>
      refine innerPieces_blanks ?_
      dsimp only [Option.map_some, Option.getD_some]
      rw [bodyStatements_blanked]
      exact blanks_map _

theorem pieces_of_isBlank (level : Node → Token) {n : Node} (h : n.isBlank .statement = true) :
    n.pieces .skipDeclarations level read below = [] ∧
      (n.blanked .statement).pieces .skipDeclarations level read below = [] := by
  rw [blanked_of_isBlank h]
  rw [isBlank, Bool.and_eq_true] at h
  have hkind : n.kind ≠ "expression_statement" := fun hkind => by
    rw [hkind] at h
    exact absurd h.2 (by decide)
  exact ⟨by rw [pieces, if_neg hkind, if_pos h.2], rfl⟩

theorem pieces_blanked (level : Node → Token) (n : Node) :
    List.Forall₂ PieceBlanks (n.pieces .skipDeclarations level read below)
      ((n.blanked .statement).pieces .skipDeclarations level read below) := by
  cases hblank : n.isBlank .statement with
  | true =>
    obtain ⟨hpieces, hpieces'⟩ := pieces_of_isBlank read below level hblank
    rw [hpieces, hpieces']
    exact .nil
  | false =>
    -- The kind is the same, so both sides take the same branch.
    unfold pieces
    rw [kind_blanked hblank]
    split
    · rw [blanked_of_expressionStatement ‹_›]
      exact forall₂_map_same fun _ _ => .token rfl
    · split
      · exact .nil
      · split
        · exact chainPieces_blanked read below ‹_›
        · split
          · exact innerPieces_blanks (inner_blanked hblank)
          · cases hform : Form.statements.lookup n.kind with
            | none => exact .cons (.token rfl) .nil
            | some form =>
              dsimp only
              rw [shape_blanked read below hform]
              exact .cons (.token rfl) (innerPieces_blanks (inner_blanked hblank))

end Pieces

end Node

/-- The step over one level: what an export exports is blanked in its turn, and of its pieces only
the statements in it change. -/
theorem Statement.tokens_blanks (budget : Nat) : ∀ {a b : Node}, Node.Blanks a b →
    tokens .skipDeclarations budget a = tokens .skipDeclarations budget b := by
  induction budget with
  | zero => exact fun _ => rfl
  | succ budget ih =>
    rintro a b (rfl | rfl)
    · rfl
    · rw [tokens, tokens, Node.exported_blanked]
      refine flatMap_eq_of_forall₂ ?_ (Node.pieces_blanked _ _ _ a.exported)
      rintro _ _ (rfl | hcd)
      · rfl
      · exact ih hcd

namespace Node

/-! ## Bodies -/

/-- The body of a function without its declarations.  An expression is left as it is. -/
def undeclared (n : Node) : Node :=
  if n.kind = "statement_block" then n.blanked .statement else n

section Blocks

variable {n : Node} (h : n.kind = "statement_block")
include h

theorem blockParts_blanked :
    (n.blanked .statement).parts = n.parts.map (blanked .statement) := by
  rw [parts_blanked (isBlank_eq_false_of_kind h (by decide)), h]
  rfl

theorem leadingStrings_blanked : (n.blanked .statement).leadingStrings = n.leadingStrings := by
  have hstring : isStringStatement ∘ blanked .statement = isStringStatement :=
    funext isStringStatement_blanked
  rw [leadingStrings, leadingStrings, blockParts_blanked h, List.takeWhile_map, hstring]
  calc (n.parts.takeWhile isStringStatement).map (blanked .statement)
      = (n.parts.takeWhile isStringStatement).map id := List.map_congr_left fun c hc =>
        blanked_of_isStringStatement (isStringStatement_of_mem_leadingStrings hc)
    _ = n.parts.takeWhile isStringStatement := List.map_id _

end Blocks

theorem bodyTokens_undeclared (budget : Nat) (isFunction : Bool) (n : Node) :
    bodyTokens .skipDeclarations budget isFunction n.undeclared =
      bodyTokens .skipDeclarations budget isFunction n := by
  rw [undeclared]
  split
  · rename_i hkind
    have hblock : (n.blanked .statement).kind = "statement_block" :=
      (kind_blanked_eq_iff (by decide)).2 hkind
    rw [bodyTokens, bodyTokens, if_pos hkind, if_pos hblock, leadingStrings_blanked hkind,
      blockParts_blanked hkind]
    have hrest : ∀ directives : List Node,
        ((n.parts.map (blanked .statement)).drop directives.length).flatMap
            (Statement.tokens .skipDeclarations budget) =
          (n.parts.drop directives.length).flatMap (Statement.tokens .skipDeclarations budget) := by
      intro directives
      rw [← List.map_drop, List.flatMap_map]
      exact List.flatMap_congr fun c _ => (Statement.tokens_blanks budget (blanks_blanked c)).symm
    simp only [hrest]
  · rfl

/-! ## What is kept out of sight -/

/-- Whether nodes of a kind keep a child to themselves.  A namespace keeps its body like a class. -/
def secludes (kind : String) (c : Node) : Bool :=
  hides kind c || namespaceKinds.contains kind && hides "class" c

def isSecluding (n : Node) : Bool := n.isKeeping || namespaceKinds.contains n.kind

theorem kind_mem_of_isSecluding {n : Node} (h : n.isSecluding = true) : n.kind ∈ keepingKinds := by
  rw [isSecluding, Bool.or_eq_true, List.contains_iff_mem] at h
  rcases h with h | h
  · exact kind_mem_of_isKeeping h
  · exact List.mem_append_right _ h

theorem hiding_secludes : Hiding isSecluding secludes where
  kind_mem := kind_mem_of_isSecluding
  eq_false h c := by
    rw [isSecluding, Bool.or_eq_false_iff] at h
    rw [secludes, hides_eq_false h.1, h.2]
    rfl
  name hkind hc := by
    rw [secludes, hiding_hides.name hkind hc, hiding_hides.name (by decide) hc, Bool.and_false]
    rfl
  heritage hc := by
    rw [secludes, hides_heritage _ hc, hides_heritage _ hc, Bool.and_false]
    rfl

/-- Whether no function, class or namespace stands where a node looks for a list, as the grammar has
it. -/
def isOrderly (n : Node) : Bool := n.opened.all (!·.isSecluding)

theorem isSecluding_of_blankedAt {role? : Option Role} {n : Node}
    (h : (n.blankedAt role?).isSecluding = true) : n.isSecluding = true := by
  have hsecluding : ∀ kind ∈ keepingKinds, kind ∉ "empty_statement" :: Form.declarationKinds := by
    decide
  have hkind : n.kind = (n.blankedAt role?).kind :=
    (kind_blankedAt_eq_iff (hsecluding _ (kind_mem_of_isSecluding h))).1 rfl
  rwa [isSecluding, isKeeping, hkind]

abbrev LeftOf (nodes : List Node) (d : Node) : Prop :=
  ∃ c ∈ nodes, ∃ role?, d = c.blankedAt role?

theorem LeftOf.mono {nodes nodes' : List Node} (hsub : nodes ⊆ nodes') {d : Node}
    (h : LeftOf nodes d) : LeftOf nodes' d := by
  obtain ⟨c, hc, hd⟩ := h
  exact ⟨c, hsub hc, hd⟩

theorem leftOf_parts {role? : Option Role} {n d : Node} (hd : d ∈ (n.blankedAt role?).parts) :
    LeftOf n.parts d := by
  cases role? with
  | none => exact ⟨d, hd, none, rfl⟩
  | some role =>
    rw [blankedAt] at hd
    cases hblank : n.isBlank role with
    | true =>
      rw [blanked_of_isBlank hblank] at hd
      cases hd
    | false =>
      rw [parts_blanked hblank] at hd
      obtain ⟨c, hc, rfl⟩ := List.mem_map.1 hd
      exact ⟨c, hc, _, rfl⟩

section Opened

variable {role : Role} {n d : Node} (h : n.isBlank role = false)
include h

theorem leftOf_child? {field : String} (hd : d ∈ ((n.blanked role).child? field).toList) :
    LeftOf (n.child? field).toList d := by
  rw [child?_blanked h, Option.mem_toList, Option.map_eq_some_iff] at hd
  obtain ⟨c, hc, rfl⟩ := hd
  exact ⟨c, Option.mem_toList.2 hc, _, rfl⟩

theorem leftOf_cases (hd : d ∈ (n.blanked role).cases) : LeftOf n.cases d := by
  rw [cases, child?_blanked h] at hd
  rw [cases]
  cases hbody : n.child? "body" with
  | none =>
    rw [hbody] at hd
    cases hd
  | some body =>
    rw [hbody] at hd
    exact leftOf_parts hd

theorem leftOf_slot {slot : Slot} (hd : d ∈ slot.opened (n.blanked role)) :
    LeftOf (slot.opened n) d := by
  cases slot with
  | partsOf field => exact leftOf_child? h hd
  | arguments =>
    obtain ⟨hd, hkind⟩ := List.mem_filter.1 hd
    obtain ⟨c, hc, role?, rfl⟩ := leftOf_child? h hd
    rw [bne_iff_ne, Ne, kind_blankedAt_eq_iff (by decide)] at hkind
    exact ⟨c, List.mem_filter.2 ⟨hc, bne_iff_ne.2 hkind⟩, role?, rfl⟩
  | tests =>
    rcases List.mem_append.1 hd with hd | hd
    · exact (leftOf_child? h hd).mono (List.subset_append_left _ _)
    · exact (leftOf_cases h hd).mono (List.subset_append_right _ _)
  | caught =>
    rcases List.mem_append.1 hd with hd | hd
    · exact (leftOf_child? h hd).mono (List.subset_append_left _ _)
    · exact (leftOf_child? h hd).mono (List.subset_append_right _ _)
  | _ => cases hd

theorem leftOf_opened (hd : d ∈ (n.blanked role).opened) : LeftOf n.opened d := by
  have hslots : (n.blanked role).slots = n.slots := by rw [slots, slots, kind_blanked h]
  rw [opened, hslots, isFunction, kind_blanked h] at hd
  rcases List.mem_append.1 hd with hd | hd
  · obtain ⟨slot, hslot, hd⟩ := List.mem_flatMap.1 hd
    exact (leftOf_slot h hd).mono fun _ hc => mem_opened_of_slot hslot hc
  · refine LeftOf.mono (List.subset_append_right _ _) ?_
    rw [isFunction]
    split at hd
    · rw [if_pos ‹_›]
      exact leftOf_child? h hd
    · cases hd

end Opened

theorem isOrderly_blanked {role : Role} {n : Node} (h : n.isOrderly = true) :
    (n.blanked role).isOrderly = true := by
  cases hblank : n.isBlank role with
  | true =>
    rw [blanked_of_isBlank hblank]
    rfl
  | false =>
    refine List.all_eq_true.2 fun d hd => ?_
    obtain ⟨c, hc, role?, rfl⟩ := leftOf_opened hblank hd
    have hopened := List.all_eq_true.1 h c hc
    rw [Bool.not_eq_true'] at hopened ⊢
    rw [← Bool.not_eq_true] at hopened ⊢
    exact mt isSecluding_of_blankedAt hopened

theorem isOrderly_of_mem_nodes_blanked {n : Node} : ∀ {role : Role},
    (∀ m ∈ n.nodes, m.isOrderly = true) → ∀ m ∈ (n.blanked role).nodes, m.isOrderly = true := by
  induction n using Node.induction with
  | node n ih =>
    intro role h m hm
    rcases mem_nodes_iff.1 hm with rfl | ⟨d, hd, hm⟩
    · exact isOrderly_blanked (h n n.mem_nodes_self)
    · cases hblank : n.isBlank role with
      | true =>
        rw [blanked_of_isBlank hblank] at hd
        cases hd
      | false =>
        rw [children_blanked hblank] at hd
        obtain ⟨c, hc, rfl⟩ := List.mem_map.1 hd
        have hbelow : ∀ m ∈ c.nodes, m.isOrderly = true :=
          fun m hm => h m (mem_nodes_trans hm n (mem_nodes_of_mem_children hc))
        revert hm
        cases role.below n.kind c.field with
        | none => exact hbelow m
        | some inner => exact ih c hc hbelow m

/-! ## Functions -/

/-- Two nodes that differ in nothing but what the functions, classes and namespaces at and below
them keep to themselves. -/
abbrev SameInSight (a b : Node) : Prop := Matches secludes ShowsSame a b

/-- Two functions that differ in nothing but their names, their parameters, the declarations that
are statements of their bodies, and what the functions, classes and namespaces in them keep to
themselves. -/
structure SameButDeclarations (f f' : Node) : Prop where
  kind : f.kind = f'.kind
  body : Option.Rel (fun c d => SameInSight c.undeclared d.undeclared) (f.child? "body")
    (f'.child? "body")

instance (f f' : Node) : Decidable (SameButDeclarations f f') :=
  decidable_of_iff
    (f.kind = f'.kind ∧
      Option.Rel (fun c d => SameInSight c.undeclared d.undeclared) (f.child? "body")
        (f'.child? "body"))
    ⟨fun ⟨hkind, hbody⟩ => ⟨hkind, hbody⟩, fun h => ⟨h.kind, h.body⟩⟩

section Bodies

variable {f f' : Node} (h : SameButDeclarations f f')
  (horderly : ∀ n ∈ f.nodes, n.isOrderly = true)
include h horderly

theorem SameButDeclarations.orderly :
    Option.Rel
      (fun c d => Matches secludes (fun a b => ShowsSame a b ∧ a.isOrderly = true) c.undeclared
        d.undeclared)
      (f.child? "body") (f'.child? "body") := by
  rcases rel_cases h.body with ⟨hc, hd⟩ | ⟨c, d, hc, hd, hcd⟩
  · rw [hc, hd]
    exact .none
  · rw [hc, hd]
    have hbelow : ∀ n ∈ c.nodes, n.isOrderly = true := fun n hn =>
      horderly n (mem_nodes_trans hn f (mem_nodes_of_mem_children (mem_children_of_child? hc)))
    refine .some (hcd.and ?_)
    rw [undeclared]
    split
    · exact isOrderly_of_mem_nodes_blanked hbelow
    · exact hbelow

theorem functionTokens_sameButDeclarations (hfunction : f.isFunction = true) (maxDepth : Nat) :
    Option.Rel (Rearranged False) (f.functionTokens ⟨.skipDeclarations, maxDepth⟩).toOption
      (f'.functionTokens ⟨.skipDeclarations, maxDepth⟩).toOption := by
  have hfunction' : f'.isFunction = true := by rwa [isFunction, ← h.kind]
  rw [functionTokens, functionTokens, hfunction, hfunction']
  rcases rel_cases (h.orderly horderly) with ⟨hc, hd⟩ | ⟨c, d, hc, hd, hcd⟩
  · rw [hc, hd]
    exact .none
  · have hreadable := hiding_secludes.readable
    have hbody := bodyTokens_alike hreadable .skipDeclarations (maxDepth + 1) (.inl hcd)
      fun hkind => map_eq_of_forall₂
        (fun _ _ hxy => quotedText_eq hreadable.toAkin
          (fun hab => (matches_iff.1 hab).1.1.text_eq_of_string) hxy.1 hxy.2)
        (leadingStrings_akin hreadable.toAkin hcd hkind)
    rw [bodyTokens_undeclared, bodyTokens_undeclared] at hbody
    rw [hc, hd]
    dsimp only
    rw [toOption_bind, toOption_bind]
    exact rel_bind hbody fun _ _ hrest => .some (.append (.refl _) hrest)

end Bodies

/-- Changed declarations do not show: functions that differ in nothing but their names, their
parameters and the declarations that are statements of their bodies have the same tokens, if tokens
of declarations are left out. -/
theorem tokens_sameButDeclarations {f f' : Node} (h : SameButDeclarations f f')
    (hfunction : f.isFunction = true) (horderly : ∀ n ∈ f.nodes, n.isOrderly = true)
    (maxDepth : Nat) (found : List String) :
    f.tokens ⟨.skipDeclarations, maxDepth⟩ = .ok found ↔
      f'.tokens ⟨.skipDeclarations, maxDepth⟩ = .ok found := by
  have htokens := tokens_eq_of_rearranged
    (functionTokens_sameButDeclarations h horderly hfunction maxDepth)
  rw [← toOption_eq_some, ← toOption_eq_some, htokens]

def bindingOne : List Row :=
  [⟨"program", true, none, 0, 38, 1⟩,
    ⟨"function_declaration", true, none, 0, 38, 4⟩,
    ⟨"function", false, none, 0, 8, 0⟩,
    ⟨"identifier", true, some "name", 9, 10, 0⟩,
    ⟨"formal_parameters", true, some "parameters", 10, 13, 3⟩,
    ⟨"(", false, none, 10, 11, 0⟩,
    ⟨"identifier", true, none, 11, 12, 0⟩,
    ⟨")", false, none, 12, 13, 0⟩,
    ⟨"statement_block", true, some "body", 14, 38, 4⟩,
    ⟨"\x7b", false, none, 14, 15, 0⟩,
    ⟨"lexical_declaration", true, none, 16, 26, 3⟩,
    ⟨"let", false, some "kind", 16, 19, 0⟩,
    ⟨"variable_declarator", true, none, 20, 25, 3⟩,
    ⟨"identifier", true, some "name", 20, 21, 0⟩,
    ⟨"=", false, none, 22, 23, 0⟩,
    ⟨"identifier", true, some "value", 24, 25, 0⟩,
    ⟨";", false, none, 25, 26, 0⟩,
    ⟨"return_statement", true, none, 27, 36, 3⟩,
    ⟨"return", false, none, 27, 33, 0⟩,
    ⟨"identifier", true, none, 34, 35, 0⟩,
    ⟨";", false, none, 35, 36, 0⟩,
    ⟨"\x7d", false, none, 37, 38, 0⟩]

def bindingTwo : List Row :=
  [⟨"program", true, none, 0, 36, 1⟩,
    ⟨"function_declaration", true, none, 0, 36, 4⟩,
    ⟨"function", false, none, 0, 8, 0⟩,
    ⟨"identifier", true, some "name", 9, 10, 0⟩,
    ⟨"formal_parameters", true, some "parameters", 10, 12, 2⟩,
    ⟨"(", false, none, 10, 11, 0⟩,
    ⟨")", false, none, 11, 12, 0⟩,
    ⟨"statement_block", true, some "body", 13, 36, 4⟩,
    ⟨"\x7b", false, none, 13, 14, 0⟩,
    ⟨"variable_declaration", true, none, 15, 24, 5⟩,
    ⟨"var", false, none, 15, 18, 0⟩,
    ⟨"variable_declarator", true, none, 19, 20, 1⟩,
    ⟨"identifier", true, some "name", 19, 20, 0⟩,
    ⟨",", false, none, 20, 21, 0⟩,
    ⟨"variable_declarator", true, none, 22, 23, 1⟩,
    ⟨"identifier", true, some "name", 22, 23, 0⟩,
    ⟨";", false, none, 23, 24, 0⟩,
    ⟨"return_statement", true, none, 25, 34, 3⟩,
    ⟨"return", false, none, 25, 31, 0⟩,
    ⟨"identifier", true, none, 32, 33, 0⟩,
    ⟨";", false, none, 33, 34, 0⟩,
    ⟨"\x7d", false, none, 35, 36, 0⟩]

theorem tokens_sameButDeclarations_oneAndTwo :
    ∃ t t', ofRows? "function f(a) \x7b let b = a; return b; \x7d" bindingOne = some t ∧
      ofRows? "function f() \x7b var b, c; return b; \x7d" bindingTwo = some t' ∧
      ∃ p ∈ t.children.zip t'.children, SameButDeclarations p.1 p.2 ∧ p.1.isFunction = true ∧
        (∀ n ∈ p.1.nodes, n.isOrderly = true) ∧
        p.1.tokens ⟨.skipDeclarations, 256⟩ = .ok ["STATEMENT:Return[EXPRESSION:Identifier[b]]"] ∧
        p.2.tokens ⟨.skipDeclarations, 256⟩ = .ok ["STATEMENT:Return[EXPRESSION:Identifier[b]]"] := by
  obtain ⟨t, t', ht, ht', p, hp, hsame, hfunction, horderly, htokens⟩ :
      ∃ t t', ofRows? "function f(a) \x7b let b = a; return b; \x7d" bindingOne = some t ∧
        ofRows? "function f() \x7b var b, c; return b; \x7d" bindingTwo = some t' ∧
        ∃ p ∈ t.children.zip t'.children, SameButDeclarations p.1 p.2 ∧ p.1.isFunction = true ∧
          (∀ n ∈ p.1.nodes, n.isOrderly = true) ∧
          p.1.tokens ⟨.skipDeclarations, 256⟩ =
            .ok ["STATEMENT:Return[EXPRESSION:Identifier[b]]"] :=
    exists_trees (by decide +kernel)
  exact ⟨t, t', ht, ht', p, hp, hsame, hfunction, horderly, htokens,
    (tokens_sameButDeclarations hsame hfunction horderly 256 _).1 htokens⟩

/-- Two nodes that differ in nothing but the declarations below them, wherever these stand. -/
abbrev SameOutsideDeclarations (a b : Node) : Prop :=
  Matches (fun _ c => Form.declarationKinds.contains c.kind) ShowsSame a b

def loopingOver : List Row :=
  [⟨"program", true, none, 0, 33, 1⟩,
    ⟨"function_declaration", true, none, 0, 33, 4⟩,
    ⟨"function", false, none, 0, 8, 0⟩,
    ⟨"identifier", true, some "name", 9, 10, 0⟩,
    ⟨"formal_parameters", true, some "parameters", 10, 12, 2⟩,
    ⟨"(", false, none, 10, 11, 0⟩,
    ⟨")", false, none, 11, 12, 0⟩,
    ⟨"statement_block", true, some "body", 13, 33, 3⟩,
    ⟨"\x7b", false, none, 13, 14, 0⟩,
    ⟨"for_statement", true, none, 15, 31, 6⟩,
    ⟨"for", false, none, 15, 18, 0⟩,
    ⟨"(", false, none, 19, 20, 0⟩,
    ⟨"variable_declaration", true, some "initializer", 20, 26, 3⟩,
    ⟨"var", false, none, 20, 23, 0⟩,
    ⟨"variable_declarator", true, none, 24, 25, 1⟩,
    ⟨"identifier", true, some "name", 24, 25, 0⟩,
    ⟨";", false, none, 25, 26, 0⟩,
    ⟨"empty_statement", true, some "condition", 26, 27, 1⟩,
    ⟨";", false, none, 26, 27, 0⟩,
    ⟨")", false, none, 27, 28, 0⟩,
    ⟨"statement_block", true, some "body", 29, 31, 2⟩,
    ⟨"\x7b", false, none, 29, 30, 0⟩,
    ⟨"\x7d", false, none, 30, 31, 0⟩,
    ⟨"\x7d", false, none, 32, 33, 0⟩]

/-- The header of a loop shows what is declared in it, even without declarations. -/
theorem tokens_loopHeader :
    ∃ t t', ofRows? "function f() \x7b for (var i;;) \x7b\x7d \x7d" loopingOver = some t ∧
      ofRows? "function f() \x7b for (var j;;) \x7b\x7d \x7d" loopingOver = some t' ∧
      ∃ p ∈ t.children.zip t'.children, SameOutsideDeclarations p.1 p.2 ∧
        p.1.isFunction = true ∧
        p.1.tokens ⟨.skipDeclarations, 256⟩ =
          .ok ["STATEMENT:For[DECLARATION:Variable[var,Declarator[i]],,]"] ∧
        p.2.tokens ⟨.skipDeclarations, 256⟩ =
          .ok ["STATEMENT:For[DECLARATION:Variable[var,Declarator[j]],,]"] :=
  exists_trees (by decide +kernel)

end Node

end Fingerprint
