import Mathlib.Tactic.Common
import Fingerprint.Proofs.Matching.Full
import Fingerprint.Proofs.Signature.Declarations
import Fingerprint.Proofs.Signature.Faults
import Fingerprint.Proofs.Token.Abstraction
import Fingerprint.Proofs.Tree.Matching
/-!
# Renaming

The type of a token is its text up to the first bracket, and all that the source says of names,
labels and directives stands behind it.  So functions that have the same nodes have the same
statement types, whatever their texts are, and no comparison of types tells them apart.
-/

namespace Fingerprint

/-! ## Types of tokens -/

def SameType (x y : Token) : Prop := tokenKind x.text = tokenKind y.text

theorem sameType_shaped (category : Category) (kind : String) (parts parts' : List String) :
    SameType (.shaped category kind parts) (.shaped category kind parts') := by
  rw [SameType, Token.tokenKind_text, Token.tokenKind_text]

namespace Node

/-! ## Nodes with any texts -/

/-- Nodes of the same kind in the same place, with any texts; only a big integer stays big. -/
structure SameKind (a b : Node) : Prop where
  kind : a.kind = b.kind
  named : a.named = b.named
  field : a.field = b.field
  bigness : a.kind = "number" → a.endsInN = b.endsInN

instance (a b : Node) : Decidable (SameKind a b) :=
  decidable_of_iff
    (a.kind = b.kind ∧ a.named = b.named ∧ a.field = b.field ∧
      (a.kind = "number" → a.endsInN = b.endsInN))
    ⟨fun ⟨hkind, hnamed, hfield, hbig⟩ => ⟨hkind, hnamed, hfield, hbig⟩,
      fun h => ⟨h.kind, h.named, h.field, h.bigness⟩⟩

abbrev SameSkeleton (t t' : Node) : Prop := Matches (fun _ _ => false) SameKind t t'

theorem listed_sameSkeleton : Listed False False (fun _ => false) SameSkeleton where
  toAkin := akin_matches (fun hab => ⟨hab.kind, hab.named, hab.field⟩) (nomatch ·) fun _ _ => rfl
  opened _ _ := rfl
  reserved := False.elim
  kept _ ha := nomatch ha

theorem SameSkeleton.bigness {a b : Node} (h : SameSkeleton a b) :
    a.kind = "number" → a.endsInN = b.endsInN :=
  (matches_iff.1 h).1.bigness

/-! ## Expressions and statements -/

theorem shape_sameType {read below : Reading} {a b : Node} (h : SameSkeleton a b) {form : Form}
    (hform : a.HasForm form) :
    SameType (shape read below a form) (shape read below b form) := by
  rw [shape, shape, headName_eq listed_sameSkeleton.toAkin h h.bigness hform]
  exact sameType_shaped _ _ _ _

theorem expressionToken_sameType (budget : Nat) {a b : Node}
    (h : Eased False SameSkeleton a b) :
    SameType (Expression.token budget a) (Expression.token budget b) := by
  cases budget with
  | zero => exact rfl
  | succ budget =>
    have hbare : SameSkeleton a.bare b.bare := listed_sameSkeleton.bare h
    rw [Expression.token_succ, Expression.token_succ, expressionShape, expressionShape,
      ← listed_sameSkeleton.kind_eq hbare]
    cases hform : Form.expressions.lookup a.bare.kind with
    | none => exact rfl
    | some form => exact shape_sameType hbare (.inl hform)

theorem tokensAgree_sameType (budget : Nat) :
    TokensAgree False SameSkeleton SameType (Expression.token (budget + 1))
      (Expression.text budget) (Expression.text (budget - 1)) where
  refl _ := rfl
  level := expressionToken_sameType (budget + 1)
  declared _ _ := sameType_shaped _ _ _ _
  link _ _ _ := sameType_shaped _ _ _ _
  shape h hform := shape_sameType h hform

theorem statementTokens_sameType (mode : TokenMode) (budget : Nat) {a b : Node}
    (h : SameSkeleton a b) :
    List.Forall₂ SameType (Statement.tokens mode budget a) (Statement.tokens mode budget b) :=
  (statementTokens_rel listed_sameSkeleton mode tokensAgree_sameType budget h).forall₂ not_false

/-! ## Parameters -/

theorem parameterShape_sameType {read : Node → Token} (budget : Nat)
    (hread : ∀ {a b : Node}, SameSkeleton a b → SameType (read a) (read b)) {a b : Node}
    (h : SameSkeleton a b) :
    SameType (Parameter.shape read budget a) (Parameter.shape read budget b) := by
  rw [Parameter.shape, Parameter.shape, ← listed_sameSkeleton.kind_eq h]
  split
  iterate 7 exact sameType_shaped _ _ _ _
  -- A parameter without a default is what it binds.
  iterate 2
    · rcases rel_cases (listed_sameSkeleton.child? h rfl "value") with ⟨hc, hd⟩ | ⟨c, d, hc, hd, -⟩
      · rw [hc, hd]
        rcases rel_cases (listed_sameSkeleton.child? h rfl "pattern") with
          ⟨hx, hy⟩ | ⟨x, y, hx, hy, hxy⟩
        · rw [hx, hy]
          exact rfl
        · rw [hx, hy]
          exact hread (hxy.strict not_false)
      · rw [hc, hd]
        exact sameType_shaped _ _ _ _
  · exact rfl
  · exact rfl

theorem parameterToken_sameType (budget : Nat) : ∀ {a b : Node}, SameSkeleton a b →
    SameType (Parameter.token budget a) (Parameter.token budget b) := by
  induction budget with
  | zero => exact fun _ => rfl
  | succ budget ih => exact parameterShape_sameType budget ih

/-! ## Functions -/

theorem exists_of_directiveToken {n : Node} {t : Token} (h : n.directiveToken = .ok t) :
    ∃ content, t = .shaped .directive "Directive" [content] := by
  rw [directiveToken] at h
  split at h
  · obtain ⟨content, -, h⟩ := bind_eq_ok.1 h
    cases h
    exact ⟨content, rfl⟩
  · cases h
    exact ⟨"", rfl⟩

theorem directiveTokens_sameType {r : Node → Node → Prop} {as bs : List Node}
    (h : List.Forall₂ r as bs) {xs ys : List Token} (hxs : as.mapM directiveToken = .ok xs)
    (hys : bs.mapM directiveToken = .ok ys) : List.Forall₂ SameType xs ys := by
  induction h generalizing xs ys with
  | nil =>
    cases hxs
    cases hys
    exact .nil
  | cons _ _ ih =>
    rw [List.mapM_cons, bind_eq_ok] at hxs hys
    obtain ⟨x, hx, hxs⟩ := hxs
    obtain ⟨y, hy, hys⟩ := hys
    rw [bind_eq_ok] at hxs hys
    obtain ⟨xs, hxs, hx'⟩ := hxs
    obtain ⟨ys, hys, hy'⟩ := hys
    cases hx'
    cases hy'
    obtain ⟨content, rfl⟩ := exists_of_directiveToken hx
    obtain ⟨content', rfl⟩ := exists_of_directiveToken hy
    exact .cons (sameType_shaped _ _ _ _) (ih hxs hys)

theorem bodyTokens_sameType {mode : TokenMode} {budget : Nat} {a b : Node} (h : SameSkeleton a b)
    {xs ys : List Token} (hxs : a.bodyTokens mode budget true = .ok xs)
    (hys : b.bodyTokens mode budget true = .ok ys) : List.Forall₂ SameType xs ys := by
  rw [bodyTokens] at hxs hys
  rw [← listed_sameSkeleton.kind_eq h] at hys
  split at hxs
  · rename_i hkind
    rw [if_pos hkind, bind_eq_ok] at hys
    rw [bind_eq_ok] at hxs
    obtain ⟨leading, hleading, hxs⟩ := hxs
    obtain ⟨leading', hleading', hys⟩ := hys
    cases hxs
    cases hys
    refine List.rel_append (directiveTokens_sameType
      (leadingStrings_akin listed_sameSkeleton.toAkin h hkind) hleading hleading') ?_
    exact List.rel_flatMap
      ((drop_parts_alike listed_sameSkeleton.toAkin h hkind).forall₂ not_false)
      fun _ _ hcd => statementTokens_sameType mode budget hcd
  · rename_i hkind
    rw [if_neg hkind] at hys
    cases hxs
    cases hys
    exact .cons (expressionToken_sameType budget (.inl h)) .nil

theorem functionTokens_sameType {options : TokenOptions} {f f' : Node} (h : SameSkeleton f f')
    (hfunction : f.isFunction = true) {xs ys : List Token}
    (hxs : f.functionTokens options = .ok xs) (hys : f'.functionTokens options = .ok ys) :
    List.Forall₂ SameType xs ys := by
  have hakin := listed_sameSkeleton.toAkin
  have hfunction' : f'.isFunction = true := by rw [← hakin.isFunction_eq h, hfunction]
  have hparameters : List.Forall₂ SameSkeleton f.parameters f'.parameters :=
    parameters_of_lists hakin
      (rel_imp (fun _ _ hcd => hcd.strict not_false) (hakin.child? h rfl "parameters"))
      (rel_imp (fun _ _ hcd => hcd.strict not_false) (hakin.child? h rfl "parameter"))
      fun _ _ => ⟨rfl, False.elim⟩
  simp only [functionTokens, hfunction, hfunction'] at hxs hys
  rcases rel_cases (hakin.child? h rfl "body") with ⟨hc, -⟩ | ⟨c, d, hc, hd, hcd⟩
  · rw [hc] at hxs
    cases hxs
  · rw [hc] at hxs
    rw [hd] at hys
    dsimp only at hxs hys
    rw [bind_eq_ok] at hxs hys
    obtain ⟨rest, hrest, hxs⟩ := hxs
    obtain ⟨rest', hrest', hys⟩ := hys
    cases hxs
    cases hys
    refine List.rel_append ?_ (bodyTokens_sameType (hcd.strict not_false) hrest hrest')
    cases options.mode with
    | skipDeclarations => exact .nil
    | full =>
      rw [List.forall₂_map_left_iff, List.forall₂_map_right_iff]
      exact hparameters.imp fun _ _ hcd => parameterToken_sameType _ hcd

/-- The types that tokens have do not depend on the order of the tokens. -/
theorem statementTypes_tokens {options : TokenOptions} {f : Node} {found : List String}
    (h : f.tokens options = .ok found) :
    ∃ xs, f.functionTokens options = .ok xs ∧
      statementTypes found = sortTexts (xs.map fun x => tokenKind x.text) := by
  obtain ⟨xs, hxs, rfl⟩ := map_eq_ok.1 h
  refine ⟨xs, hxs, sortTexts_eq_of_perm ?_⟩
  have hsorted : (sortTexts (xs.map Token.text)).Perm (xs.map Token.text) :=
    List.mergeSort_perm _ _
  simpa [Function.comp_def] using hsorted.map tokenKind

theorem statementTypes_sameSkeleton {options : TokenOptions} {f f' : Node}
    (h : SameSkeleton f f') (hfunction : f.isFunction = true) {found found' : List String}
    (hfound : f.tokens options = .ok found) (hfound' : f'.tokens options = .ok found') :
    statementTypes found = statementTypes found' := by
  obtain ⟨xs, hxs, htypes⟩ := statementTypes_tokens hfound
  obtain ⟨ys, hys, htypes'⟩ := statementTypes_tokens hfound'
  have hsame := functionTokens_sameType h hfunction hxs hys
  rw [htypes, htypes', map_eq_of_forall₂ (fun _ _ hxy => hxy) hsame]

/-! ## Functions that have tokens -/

theorem exists_mapM_eq_ok_iff {ε α β : Type} {f : α → Except ε β} {items : List α} :
    (∃ results, items.mapM f = .ok results) ↔ ∀ a ∈ items, ∃ b, f a = .ok b := by
  constructor
  · rintro ⟨results, h⟩ a ha
    obtain ⟨b, -, hb⟩ := exists_of_mem_right (forall₂_of_mapM_eq_ok h).flip ha
    exact ⟨b, hb⟩
  · intro h
    cases hitems : items.mapM f with
    | ok results => exact ⟨results, rfl⟩
    | error fault =>
      obtain ⟨a, ha, hfault⟩ := exists_of_mapM_eq_error hitems
      obtain ⟨b, hb⟩ := h a ha
      rw [hb] at hfault
      cases hfault

theorem exists_directiveOf_iff {quoted : String} :
    (∃ t, directiveOf quoted = .ok t) ↔ Text.isQuoted quoted = true := by
  rw [← Text.isSome_unquote?, directiveOf]
  cases unquote? quoted with
  | none => simp
  | some content => simp

theorem exists_bodyTokens_iff (mode : TokenMode) (budget : Nat) (body : Node) :
    (∃ xs, body.bodyTokens mode budget true = .ok xs) ↔
      (body.kind = "statement_block" →
        ∀ text ∈ body.leadingStrings.map quotedText, Text.isQuoted text = true) := by
  rw [bodyTokens]
  by_cases hkind : body.kind = "statement_block"
  · simp only [hkind, if_true, bind_eq_ok, forall_const]
    rw [mapM_directiveToken fun _ => isStringStatement_of_mem_leadingStrings]
    simp only [← exists_directiveOf_iff, ← exists_mapM_eq_ok_iff]
    constructor
    · rintro ⟨_, leading, hleading, -⟩
      exact ⟨leading, hleading⟩
    · rintro ⟨leading, hleading⟩
      exact ⟨_, leading, hleading, rfl⟩
  · rw [if_neg hkind]
    exact iff_of_true ⟨_, rfl⟩ fun h => absurd h hkind

theorem exists_tokens_iff {options : TokenOptions} {f : Node} (hfunction : f.isFunction = true) :
    (∃ found, f.tokens options = .ok found) ↔
      (f.child? "body").isSome = true ∧ ∀ text ∈ f.directiveTexts, Text.isQuoted text = true := by
  simp only [tokens, map_eq_ok, functionTokens, hfunction, directiveTexts]
  cases f.child? "body" with
  | none => simp
  | some body =>
    refine Iff.trans ⟨?_, ?_⟩
      ((exists_bodyTokens_iff options.mode (options.maxDepth + 1) body).trans ?_)
    · rintro ⟨_, xs, hxs, -⟩
      obtain ⟨rest, hrest, -⟩ := bind_eq_ok.1 hxs
      exact ⟨rest, hrest⟩
    · rintro ⟨rest, hrest⟩
      exact ⟨_, _, bind_eq_ok.2 ⟨rest, hrest, rfl⟩, rfl⟩
    · by_cases hkind : body.kind = "statement_block" <;> simp [hkind]

end Node

/-! ## Comparisons -/

namespace Signature

def lone (name : String) (tokens : List String) : Signature :=
  ⟨Located.flatten [⟨"", ⟨name, tokens⟩, []⟩], []⟩

theorem types_lone (name : String) (tokens : List String) :
    (lone name tokens).types = textSet (statementTypes tokens) := by
  simp [types, lone, Located.flatten, Located.named, Located.nameAll, Located.nameEntry]

theorem compare_lone {tokens tokens' : List String}
    (h : statementTypes tokens = statementTypes tokens') (measure : Overlap)
    (name name' : String) :
    ((Strategy.statementTypes measure).compare (lone name tokens) (lone name' tokens')).confidence =
      .ofCounts (textSet (statementTypes tokens)).length
        (textSet (statementTypes tokens)).length := by
  have htypes : (lone name tokens).types = (lone name' tokens').types := by
    rw [types_lone, types_lone, h]
  change measure.confidence textLt (lone name tokens).types (lone name' tokens').types = _
  rw [← htypes, types_lone]
  exact measure.confidence_self (overlapCounts_textSet_self _)

end Signature

namespace Node

/-- Renaming does not show in statement types: functions that have the same nodes have the same
types, whatever their texts are, and no comparison of types tells them apart.  Both have tokens or
neither has, if the strings of their directives can be read. -/
theorem statementTypes_renamed {f f' : Node} (h : SameSkeleton f f')
    (hfunction : f.isFunction = true) (options : TokenOptions) :
    (∀ found found', f.tokens options = .ok found → f'.tokens options = .ok found' →
      statementTypes found = statementTypes found' ∧
        ∀ measure name name', ((Strategy.statementTypes measure).compare (.lone name found)
          (.lone name' found')).confidence =
            .ofCounts (textSet (statementTypes found)).length
              (textSet (statementTypes found)).length) ∧
      ((∀ text ∈ f.directiveTexts ++ f'.directiveTexts, Text.isQuoted text = true) →
        ((∃ found, f.tokens options = .ok found) ↔ ∃ found', f'.tokens options = .ok found')) := by
  have hakin := listed_sameSkeleton.toAkin
  constructor
  · intro found found' hfound hfound'
    have htypes := statementTypes_sameSkeleton h hfunction hfound hfound'
    exact ⟨htypes, fun measure => Signature.compare_lone htypes measure⟩
  · intro hquoted
    obtain ⟨hquoted, hquoted'⟩ := List.forall_mem_append.1 hquoted
    rw [exists_tokens_iff hfunction, exists_tokens_iff (by rwa [← hakin.isFunction_eq h]),
      hakin.isSome_child?_eq h rfl]
    exact and_congr_right' (iff_of_true hquoted hquoted')

def returningProperty : List Row :=
  returning 3
    [⟨"member_expression", true, none, 22, 25, 3⟩,
      ⟨"identifier", true, some "object", 22, 23, 0⟩,
      ⟨".", false, none, 23, 24, 0⟩,
      ⟨"property_identifier", true, some "property", 24, 25, 0⟩]

theorem statementTypes_renamed_returnedProperty :
    ∃ t t', ofRows? "function f() \x7b return a.b; \x7d" returningProperty = some t ∧
      ofRows? "function g() \x7b return c.d; \x7d" returningProperty = some t' ∧
      ∃ p ∈ t.children.zip t'.children, SameSkeleton p.1 p.2 ∧ p.1.isFunction = true ∧
        ∃ found found', p.1.tokens {} = .ok found ∧ p.2.tokens {} = .ok found' ∧
          found ≠ found' ∧ statementTypes found = statementTypes found' := by
  obtain ⟨t, t', ht, ht', p, hp, hsame, hfunction, htokens, htokens'⟩ :
      ∃ t t', ofRows? "function f() \x7b return a.b; \x7d" returningProperty = some t ∧
        ofRows? "function g() \x7b return c.d; \x7d" returningProperty = some t' ∧
        ∃ p ∈ t.children.zip t'.children, SameSkeleton p.1 p.2 ∧ p.1.isFunction = true ∧
          p.1.tokens {} =
            .ok ["STATEMENT:Return[EXPRESSION:Member[EXPRESSION:Identifier[a],b]]"] ∧
          p.2.tokens {} =
            .ok ["STATEMENT:Return[EXPRESSION:Member[EXPRESSION:Identifier[c],d]]"] :=
    exists_trees (by decide +kernel)
  exact ⟨t, t', ht, ht', p, hp, hsame, hfunction, _, _, htokens, htokens', by decide,
    ((statementTypes_renamed hsame hfunction {}).1 _ _ htokens htokens').1⟩

def directiveRows (fragment quote semicolon : Nat) : List Row :=
  [⟨"program", true, none, 0, semicolon + 3, 1⟩,
    ⟨"function_declaration", true, none, 0, semicolon + 3, 4⟩,
    ⟨"function", false, none, 0, 8, 0⟩,
    ⟨"identifier", true, some "name", 9, 10, 0⟩,
    ⟨"formal_parameters", true, some "parameters", 10, 12, 2⟩,
    ⟨"(", false, none, 10, 11, 0⟩,
    ⟨")", false, none, 11, 12, 0⟩,
    ⟨"statement_block", true, some "body", 13, semicolon + 3, 3⟩,
    ⟨"\x7b", false, none, 13, 14, 0⟩,
    ⟨"expression_statement", true, none, 15, semicolon + 1, 2⟩,
    ⟨"string", true, none, 15, quote, 3⟩,
    ⟨"\"", false, none, 15, 16, 0⟩,
    ⟨"string_fragment", true, none, 16, fragment, 0⟩,
    ⟨"\"", false, none, fragment, quote, 0⟩,
    ⟨";", false, none, semicolon, semicolon + 1, 0⟩,
    ⟨"\x7d", false, none, semicolon + 2, semicolon + 3, 0⟩]

/-- The first string lacks its closing quote, which the parser puts in without a text, and ends in a
character of two bytes; the function has no tokens, and so no types either. -/
theorem statementTypes_missingQuote :
    ∃ t t', ofRows? "function f() \x7b \"é\n; \x7d" (directiveRows 18 18 19) = some t ∧
      ofRows? "function f() \x7b \"e\"; \x7d" (directiveRows 17 18 18) = some t' ∧
      ∃ p ∈ t.children.zip t'.children, SameSkeleton p.1 p.2 ∧ p.1.isFunction = true ∧
        p.1.tokens {} = .error (.torn "string") ∧
        p.2.tokens {} = .ok ["DIRECTIVE:Directive[e]"] ∧
        statementTypes ["DIRECTIVE:Directive[e]"] = ["DIRECTIVE:Directive"] :=
  exists_trees (by decide +kernel)

end Node

end Fingerprint
