import Mathlib.Tactic.Common
import Fingerprint.Proofs.TextOrder
import Fingerprint.Proofs.Token.Reading
import Fingerprint.Token.OfFunction
/-!
# Statements and functions that are alike

Statements that are alike have the same tokens, in any order if the order of statements is free, and
so have functions.  Sorted, the tokens of functions are the same in either case.
-/

namespace Fingerprint

namespace Node

section Statements

variable {free eased : Prop} {closed : Node → Bool} {r : Node → Node → Prop}
  (h : Listed free eased closed r)
include h

/-! ## Bodies -/

theorem bodyStatements_alike {a b : Node} (hab : Braced r a b) :
    Arranged free r a.bodyStatements b.bodyStatements := by
  rw [bodyStatements, bodyStatements]
  rcases hab with hab | hbraced
  · rw [← h.kind_eq hab]
    split
    · rename_i hkind
      refine h.arranged_parts hab ?_
      rw [hkind]
      decide
    · exact .of_forall₂ (.cons hab .nil)
  · obtain ⟨inner, hinner, hab⟩ := hbraced.inside
    have hkind : a.kind ≠ "statement_block" := fun hkind => hbraced.kind_left (by rw [hkind]; decide)
    rw [if_neg hkind, if_pos hbraced.kind, hinner]
    exact .of_forall₂ (.cons hab .nil)

omit h in
theorem bodyUnder_alike {s : Node → Node → Prop} {a b : Node} {field : String} {rest : List String}
    (hchild : Option.Rel s (a.child? field) (b.child? field))
    (hrest : ∀ c d, a.child? field = some c → s c d →
      Arranged free r (c.bodyUnder rest) (d.bodyUnder rest)) :
    Arranged free r (a.bodyUnder (field :: rest)) (b.bodyUnder (field :: rest)) := by
  rw [bodyUnder, bodyUnder]
  rcases rel_cases hchild with ⟨hc, hd⟩ | ⟨c, d, hc, hd, hcd⟩
  · rw [hc, hd]
    exact .of_forall₂ .nil
  · rw [hc, hd]
    exact hrest c d hc hcd

theorem body_alike {a b : Node} {field : String}
    (hchild : Option.Rel r (a.child? field) (b.child? field)) :
    Arranged free r (a.bodyUnder [field]) (b.bodyUnder [field]) :=
  bodyUnder_alike hchild fun _ _ _ hcd => bodyStatements_alike h (.inl hcd)

theorem body_alike_of_host {a b : Node} (hab : r a b) {kind : String} (hkind : a.kind = kind)
    (hhost : kind ∈ hostKinds) {field : String} (hfield : some field ∉ placesOf kind) :
    Arranged free r (a.bodyUnder [field]) (b.bodyUnder [field]) := by
  subst hkind
  exact bodyUnder_alike (h.body? hab hhost hfield) fun _ _ _ hcd => bodyStatements_alike h hcd

theorem clauseBody_alike {a b : Node} (hab : r a b) (ha : closed a = false)
    (hcaught : Slot.caught ∈ a.slots) {field : String} (hclause : field ∈ ["handler", "finalizer"]) :
    Arranged free r (a.bodyUnder [field, "body"]) (b.bodyUnder [field, "body"]) := by
  have hplace : some field ∉ placesOf a.kind := by
    simp only [List.mem_cons, List.not_mem_nil, or_false] at hclause
    rcases hclause with rfl | rfl
    · exact not_mem_placesOf "handler" (by decide)
    · exact not_mem_placesOf "finalizer" (by decide)
  refine bodyUnder_alike (h.child?_of_field hab ha hplace) fun c d hc hcd => ?_
  have hmem : c ∈ (a.child? "handler").toList ++ (a.child? "finalizer").toList := by
    simp only [List.mem_cons, List.not_mem_nil, or_false] at hclause
    rcases hclause with rfl | rfl <;> simp [hc]
  have hopen := h.opened hab (mem_opened_of_slot hcaught hmem)
  refine body_alike h (h.child?_of_takes hcd hopen fun heased x hx => ?_)
  refine h.reserved heased hab (c, x)
    (mem_reserved_of_slot hcaught (List.mem_flatMap.2 ⟨c, hmem, ?_⟩))
  exact List.mem_map_of_mem (mem_children_of_child? hx)

theorem inner_alike {a b : Node} (hab : r a b) : Arranged free r a.inner b.inner := by
  rw [inner, inner, ← h.kind_eq hab]
  split
  · refine h.arranged_parts hab ?_
    rw [‹a.kind = _›]
    decide
  iterate 6 exact body_alike_of_host h hab ‹_› (by decide) (by decide)
  · rename_i hkind
    have ha := h.closed_eq_false hkind (by decide)
    have hcaught : Slot.caught ∈ a.slots :=
      mem_slots_of_statement (by rw [hkind]; rfl) (List.mem_singleton_self _)
    have hbody : some "body" ∉ placesOf a.kind := by
      rw [hkind]
      decide
    exact .append (.append (body_alike h (h.child?_of_field hab ha hbody))
      (clauseBody_alike h hab ha hcaught (by decide)))
      (clauseBody_alike h hab ha hcaught (by decide))
  · rename_i hkind
    have ha := h.closed_eq_false hkind (by decide)
    have htests : Slot.tests ∈ a.slots :=
      mem_slots_of_statement (by rw [hkind]; rfl)
        (List.mem_cons_of_mem _ (List.mem_singleton_self _))
    refine .of_forall₂ (List.rel_flatMap (h.cases hab ha htests) ?_)
    rintro c d ⟨hc, hopen, hcd⟩
    refine h.caseStatements hcd hopen fun heased x hx => ?_
    refine h.reserved heased hab (c, x) (mem_reserved_of_slot htests (List.mem_append_right _ ?_))
    exact List.mem_flatMap.2 ⟨c, hc, List.mem_map_of_mem hx⟩
  · exact .of_forall₂ .nil

/-! ## Pieces -/

inductive PieceRel (s : Token → Token → Prop) (r : Node → Node → Prop) : Piece → Piece → Prop
  | token {x y : Token} (hxy : s x y) : PieceRel s r (.token x) (.token y)
  | inner {a b : Node} (hab : r a b) : PieceRel s r (.inner a) (.inner b)

variable {s : Token → Token → Prop}

omit h in
theorem inner_pieces {as bs : List Node} (hstatements : Arranged free r as bs) :
    Arranged free (PieceRel s r) (as.map .inner) (bs.map .inner) :=
  hstatements.map fun _ _ => .inner

structure TokensAgree (eased : Prop) (r : Node → Node → Prop) (s : Token → Token → Prop)
    (level : Node → Token) (read below : Reading) : Prop where
  refl : ∀ t, s t t
  level : ∀ {a b : Node}, Eased eased r a b → s (level a) (level b)
  declared : ∀ {a b : Node}, r a b → Form.declarationKinds.contains a.kind = true →
    s (variablesToken read a) (variablesToken read b)
  link : ∀ {a b : Node} (name : String), r a b → a.kind = "if_statement" →
    s (shape read below a (Form.link name)) (shape read below b (Form.link name))
  shape : ∀ {a b : Node} {form : Form}, r a b → a.HasForm form →
    s (shape read below a form) (shape read below b form)

variable {level : Node → Token} {read below : Reading}
  (htokens : TokensAgree eased r s level read below)
include htokens

theorem linkPieces_rel (name : String) {a b : Node} (hab : r a b) (hkind : a.kind = "if_statement") :
    Arranged free (PieceRel s r) (linkPieces read below name a) (linkPieces read below name b) := by
  rw [linkPieces, linkPieces]
  exact .cons (.token (htokens.link name hab hkind))
    (inner_pieces (body_alike_of_host h hab hkind (by decide) (by decide)))

theorem chainPieces_rel {a b : Node} (hab : r a b) (hkind : a.kind = "if_statement") :
    Arranged free (PieceRel s r) (chainPieces read below a) (chainPieces read below b) := by
  obtain ⟨hlinks, hend⟩ := (h.chains hab).1 hkind
  simp only [chainPieces]
  refine .append (.append (linkPieces_rel h htokens "If" hab hkind) ?_) ?_
  · exact .flatMap_of_forall₂ (fun c d hcd => linkPieces_rel h htokens "Else-If" hcd.2 hcd.1)
      hlinks
  · revert hend
    generalize a.chain.2 = last, b.chain.2 = last'
    intro hend
    cases last <;> cases last'
    · exact .of_forall₂ .nil
    · exact hend.elim
    · exact hend.elim
    · refine .cons (.token (htokens.refl _)) (inner_pieces ?_)
      cases hend with
      | some hcd => exact bodyStatements_alike h hcd
      | none => exact .of_forall₂ .nil

theorem pieces_rel (mode : TokenMode) {a b : Node} (hab : r a b) :
    Arranged free (PieceRel s r) (a.pieces mode level read below)
      (b.pieces mode level read below) := by
  unfold pieces
  rw [← h.kind_eq hab]
  split
  · rename_i hkind
    have ha := h.closed_eq_false hkind (by decide)
    refine .of_forall₂ ?_
    rw [List.forall₂_map_left_iff, List.forall₂_map_right_iff]
    exact (h.parts hab ha).imp fun _ _ hcd => .token (htokens.level hcd)
  · split
    · cases mode with
      | full => exact .of_forall₂ (.cons (.token (htokens.declared hab ‹_›)) .nil)
      | skipDeclarations => exact .of_forall₂ .nil
    · split
      · exact chainPieces_rel h htokens hab ‹_›
      · split
        · exact inner_pieces (inner_alike h hab)
        · cases hform : Form.statements.lookup a.kind with
          | none => exact .of_forall₂ (.cons (.token (htokens.refl _)) .nil)
          | some form =>
            exact .cons (.token (htokens.shape hab (.inr hform))) (inner_pieces (inner_alike h hab))

omit htokens in
theorem statementTokens_rel (mode : TokenMode)
    (htokens : ∀ budget, TokensAgree eased r s (Expression.token (budget + 1))
      (Expression.text budget) (Expression.text (budget - 1)))
    (budget : Nat) : ∀ {a b : Node}, r a b →
      Arranged free s (Statement.tokens mode budget a) (Statement.tokens mode budget b) := by
  induction budget with
  | zero => exact fun _ => .of_forall₂ (.cons ((htokens 0).refl _) .nil)
  | succ budget ih =>
    intro a b hab
    rw [Statement.tokens, Statement.tokens]
    refine (pieces_rel h (htokens budget) mode (h.exported hab)).flatMap ?_
    rintro _ _ (hxy | hcd)
    · exact .of_forall₂ (.cons hxy .nil)
    · exact ih hcd

end Statements

/-! ## Tokens that are read -/

section Reading

variable {free eased : Prop} {closed : Node → Bool} {r : Node → Node → Prop}
  (h : Readable free eased closed r)
include h

theorem tokensAgree_of_readable (budget : Nat) :
    TokensAgree eased r (· = ·) (Expression.token (budget + 1)) (Expression.text budget)
      (Expression.text (budget - 1)) where
  refl _ := rfl
  level hab := token_blind h (budget + 1) hab
  declared hab hkind := variablesToken_eq h (text_blind h budget) hab
    (h.closed_eq_false_of_mem (List.contains_iff_mem.1 hkind) (by decide))
  link {a b} name hab hkind := by
    have htoken : ∀ n : Node, Node.shape (Expression.text budget) (Expression.text (budget - 1)) n
        (Form.link name) =
          .shaped .statement name [((n.child? "condition").map (Expression.text budget)).getD ""] :=
      fun _ => rfl
    have hhost : a.kind ∈ hostKinds := by
      rw [hkind]
      decide
    have hbody : some "condition" ∉ bodyPlacesOf a.kind := by
      rw [hkind]
      decide
    rw [htoken, htoken, map_eq_of_rel (fun _ _ hcd => text_blind h budget hcd)
      (h.host_child? hab hhost hbody)]
  shape hab hform := shape_eq h (text_blind h budget) (text_blind h (budget - 1)) hab hform

theorem statementTokens_alike (mode : TokenMode) (budget : Nat) {a b : Node} (hab : r a b) :
    Rearranged free (Statement.tokens mode budget a) (Statement.tokens mode budget b) :=
  (statementTokens_rel h.toListed mode (tokensAgree_of_readable h) budget hab).rearranged

end Reading

/-! ## Directives -/

def directiveOf (quoted : String) : Except Fault Token :=
  match unquote? quoted with
  | some content => .ok (.shaped .directive "Directive" [content])
  | none => .error (.torn "string")

theorem directiveToken_of_isStringStatement {n : Node} (hn : n.isStringStatement = true) :
    n.directiveToken = directiveOf n.quotedText := by
  rw [isStringStatement, Bool.and_eq_true] at hn
  obtain ⟨-, honly⟩ := hn
  rw [directiveToken, quotedText, directiveOf]
  split at honly
  · rename_i only hparts
    simp only [hparts, content, eq_of_beq honly, List.head?_cons, Option.map_some, Option.getD_some]
    cases unquote? only.text <;> rfl
  · cases honly

theorem mapM_directiveToken {statements : List Node}
    (h : ∀ n ∈ statements, n.isStringStatement = true) :
    statements.mapM directiveToken = (statements.map quotedText).mapM directiveOf := by
  induction statements with
  | nil => rfl
  | cons n rest ih =>
    obtain ⟨hn, hrest⟩ := List.forall_mem_cons.1 h
    rw [List.map_cons, List.mapM_cons, List.mapM_cons, directiveToken_of_isStringStatement hn,
      ih hrest]

theorem isStringStatement_of_mem_leadingStrings {n m : Node} (h : m ∈ n.leadingStrings) :
    m.isStringStatement = true :=
  List.all_eq_true.1 List.all_takeWhile m h

theorem leadingStrings_eq_nil {n : Node} (h : ∀ c ∈ n.parts, c.isStringStatement = false) :
    n.leadingStrings = [] := by
  unfold leadingStrings
  cases hparts : n.parts with
  | nil => rfl
  | cons c rest =>
    refine List.takeWhile_cons_of_neg ?_
    simp [h c (by simp [hparts])]

section Directives

variable {free eased : Prop} {closed : Node → Bool} {r : Node → Node → Prop}
  (h : Akin free eased closed r)
  (hstring : ∀ {c d : Node}, r c d → c.kind = "string" → c.text = d.text)
include h hstring

theorem quotedText_eq {a b : Node} (hab : r a b) (ha : a.isStringStatement = true) :
    a.quotedText = b.quotedText := by
  have hplain := takes_eq_false_of_isStringStatement ha
  rw [isStringStatement, Bool.and_eq_true] at ha
  obtain ⟨hkind, honly⟩ := ha
  have hparts := h.parts_of_takes hab (h.closed_eq_false (eq_of_beq hkind) (by decide))
    fun _ c _ => hplain c
  rw [quotedText, quotedText]
  split at honly
  · rename_i only hsingle
    rw [hsingle] at hparts ⊢
    obtain ⟨other, rest, honlyOther, -, hother⟩ := List.forall₂_cons_left_iff.1 hparts
    rw [hother]
    exact hstring honlyOther (eq_of_beq honly)
  · cases honly

omit hstring in
theorem leadingStrings_akin {a b : Node} (hab : r a b) (hkind : a.kind = "statement_block") :
    List.Forall₂ (fun c d => r c d ∧ c.isStringStatement = true) a.leadingStrings
      b.leadingStrings := by
  cases ha : closed a with
  | true =>
    obtain ⟨hplain, hparts⟩ := h.statements hab ha (by rw [hkind]; decide)
    rw [leadingStrings_eq_nil hplain,
      leadingStrings_eq_nil (h.isStringStatement_eq_false hparts hplain)]
    exact .nil
  | false =>
    exact forall₂_takeWhile (fun c d (hcd : r c d) => h.isStringStatement_eq hcd)
      (h.parts_of_kind hab ha (by rw [hkind]; decide))

theorem directiveTexts_eq_of_body {a b : Node}
    (hbody : Option.Rel (Eased eased r) (a.child? "body") (b.child? "body")) :
    a.directiveTexts = b.directiveTexts := by
  rw [directiveTexts, directiveTexts]
  rcases rel_cases hbody with ⟨hc, hd⟩ | ⟨c, d, hc, hd, hcd⟩
  · rw [hc, hd]
  · have hblock : c.kind = "statement_block" ↔ d.kind = "statement_block" :=
      h.kind_eq_iff hcd (by decide)
    rw [hc, hd]
    dsimp only
    by_cases hkind : c.kind = "statement_block"
    · have hcd := hcd.of_kind_ne (by rw [hkind]; decide)
      rw [if_pos hkind, if_pos (hblock.1 hkind)]
      exact map_eq_of_forall₂ (fun _ _ hxy => quotedText_eq h hstring hxy.1 hxy.2)
        (leadingStrings_akin h hcd hkind)
    · rw [if_neg hkind, if_neg (mt hblock.2 hkind)]

omit h in
theorem Alike.directiveTexts_eq (h : Alike free eased closed r) {a b : Node} (hab : r a b)
    (hfunction : a.isFunction = true) : a.directiveTexts = b.directiveTexts := by
  have ha := h.closed_eq_false_of_mem (List.contains_iff_mem.1 hfunction) (by decide)
  exact directiveTexts_eq_of_body h.toAkin hstring (h.child? hab ha "body")

end Directives

/-! ## Functions -/

section Functions

variable {free eased : Prop} {closed : Node → Bool} {r : Node → Node → Prop}

theorem drop_parts_alike (h : Akin free eased closed r) {a b : Node} (hab : r a b)
    (hkind : a.kind = "statement_block") :
    Arranged free r (a.parts.drop a.leadingStrings.length)
      (b.parts.drop b.leadingStrings.length) := by
  have hblock : a.kind ∈ blockKinds := by
    rw [hkind]
    decide
  cases ha : closed a with
  | true =>
    obtain ⟨hplain, hparts⟩ := h.statements hab ha hblock
    rwa [leadingStrings_eq_nil hplain,
      leadingStrings_eq_nil (h.isStringStatement_eq_false hparts hplain)]
  | false =>
    rw [← (leadingStrings_akin h hab hkind).length_eq]
    exact .of_forall₂ (List.forall₂_drop _ (h.parts_of_kind hab ha (placesOf_of_block hblock)))

theorem parameters_of_lists (h : Akin free eased closed r) {a b : Node}
    (hlist : Option.Rel r (a.child? "parameters") (b.child? "parameters"))
    (hsingle : Option.Rel r (a.child? "parameter") (b.child? "parameter"))
    (hopen : ∀ c, a.child? "parameters" = some c →
      closed c = false ∧ (eased → ∀ d ∈ c.children, c.takes d = false)) :
    List.Forall₂ r a.parameters b.parameters := by
  rw [parameters, parameters]
  rcases rel_cases hlist with ⟨hc, hd⟩ | ⟨c, d, hc, hd, hcd⟩
  · rw [hc, hd]
    exact forall₂_toList hsingle
  · rw [hc, hd]
    exact h.parts_of_takes hcd (hopen c hc).1 (hopen c hc).2

theorem tokens_eq_of_rearranged {options : TokenOptions} {a b : Node}
    (h : Option.Rel (Rearranged free) (a.functionTokens options).toOption
      (b.functionTokens options).toOption) :
    (a.tokens options).toOption = (b.tokens options).toOption := by
  rw [tokens, tokens, toOption_map, toOption_map]
  exact map_eq_of_rel (fun _ _ hfound => sortTexts_eq_of_perm (hfound.perm.map Token.text)) h

section Read

variable (h : Readable free eased closed r)
include h

theorem bodyTokens_alike (mode : TokenMode) (budget : Nat) {a b : Node} (hab : Eased eased r a b)
    (htexts : a.kind = "statement_block" →
      a.leadingStrings.map quotedText = b.leadingStrings.map quotedText) :
    Option.Rel (Rearranged free) (a.bodyTokens mode budget true).toOption
      (b.bodyTokens mode budget true).toOption := by
  have hblock : a.kind = "statement_block" ↔ b.kind = "statement_block" :=
    h.kind_eq_iff hab (by decide)
  rw [bodyTokens, bodyTokens]
  by_cases hkind : a.kind = "statement_block"
  · have hstrict := hab.of_kind_ne (by rw [hkind]; decide)
    have hrest := (drop_parts_alike h.toAkin hstrict hkind).rearranged_flatMap
      fun c d (hcd : r c d) => statementTokens_alike h mode budget hcd
    rw [if_pos hkind, if_pos (hblock.1 hkind)]
    simp only [if_true]
    rw [mapM_directiveToken fun _ => isStringStatement_of_mem_leadingStrings,
      mapM_directiveToken fun _ => isStringStatement_of_mem_leadingStrings, htexts hkind]
    rw [toOption_bind, toOption_bind]
    refine rel_bind (rel_refl (s := (· = ·)) (fun _ => rfl) _) ?_
    rintro leading - rfl
    exact .some (.append (.refl leading) hrest)
  · rw [if_neg hkind, if_neg (mt hblock.2 hkind), token_blind h budget hab]
    exact .some (.refl _)

theorem functionTokens_of_children (options : TokenOptions) {a b : Node}
    (hfunction : a.isFunction = true) (hfunction' : b.isFunction = true)
    (hparameters : List.Forall₂ (BindsAlike eased r) a.parameters b.parameters)
    (hbody : Option.Rel (Eased eased r) (a.child? "body") (b.child? "body"))
    (hdirectives : a.directiveTexts = b.directiveTexts) :
    Option.Rel (Rearranged free) (a.functionTokens options).toOption
      (b.functionTokens options).toOption := by
  have htokens : a.parameters.map (Parameter.token (options.maxDepth + 1)) =
      b.parameters.map (Parameter.token (options.maxDepth + 1)) :=
    map_eq_of_forall₂ (fun _ _ hcd => parameterToken_blind h _ hcd) hparameters
  rw [directiveTexts, directiveTexts] at hdirectives
  simp only [functionTokens, hfunction, hfunction', htokens]
  rcases rel_cases hbody with ⟨hc, hd⟩ | ⟨c, d, hc, hd, hcd⟩
  · rw [hc, hd]
    exact .none
  · have hblock : c.kind = "statement_block" ↔ d.kind = "statement_block" :=
      h.kind_eq_iff hcd (by decide)
    rw [hc, hd] at hdirectives ⊢
    dsimp only at hdirectives ⊢
    have hbody := bodyTokens_alike h options.mode (options.maxDepth + 1) hcd fun hkind => by
      simpa [hkind, hblock.1 hkind] using hdirectives
    rw [toOption_bind, toOption_bind]
    exact rel_bind hbody fun _ _ hrest => .some (.append (.refl _) hrest)

end Read

variable (h : Legible free eased closed r)
include h

/-- Functions that are alike both lack a body that can be read, or have the same tokens. -/
theorem functionTokens_alike (options : TokenOptions) {a b : Node} (hab : r a b)
    (hfunction : a.isFunction = true) :
    Option.Rel (Rearranged free) (a.functionTokens options).toOption
      (b.functionTokens options).toOption := by
  have ha := h.closed_eq_false_of_mem (List.contains_iff_mem.1 hfunction) (by decide)
  have hparameters : List.Forall₂ r a.parameters b.parameters :=
    parameters_of_lists h.toAkin
      (h.child?_of_field hab ha (not_mem_placesOf "parameters" (by decide)))
      (h.child?_of_field hab ha (not_mem_placesOf "parameter" (by decide))) fun c hc =>
        ⟨h.opened hab (mem_opened_of_parameters hfunction hc), fun heased d hd =>
          h.reserved heased hab (c, d) (mem_reserved_of_parameters hfunction hc hd)⟩
  refine functionTokens_of_children h.toReadable options hfunction
    (by rw [← h.isFunction_eq hab, hfunction])
    ((forall₂_mem hparameters).imp fun c d hcd => ?_) (h.child? hab ha "body")
    (h.directiveTexts_eq hab hfunction)
  exact ⟨hcd.2.2, fun heased => h.binding heased hab hfunction d hcd.2.1⟩

theorem tokens_alike (options : TokenOptions) {a b : Node} (hab : r a b)
    (hfunction : a.isFunction = true) :
    (a.tokens options).toOption = (b.tokens options).toOption :=
  tokens_eq_of_rearranged (functionTokens_alike h options hab hfunction)

end Functions

end Node

end Fingerprint
