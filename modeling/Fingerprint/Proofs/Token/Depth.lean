import Mathlib.Data.List.Forall2
import Mathlib.Data.List.Perm.Basic
import Mathlib.Tactic.Common
import Fingerprint.Proofs.Arranged
import Fingerprint.Proofs.TextOrder
import Fingerprint.Proofs.Token.Abstraction
/-!
# Tokens at a smaller depth

With fewer levels to nest, some tokens are cut: what lies too deep is a token that says so, in place
of another token or, for statements, of any number of them.  Nothing else changes, so tokens that
show no limit are the same at every greater depth.
-/

namespace Fingerprint

/-! ## Texts that are cut -/

def showsLimit (text : String) : Prop := "depth-limit".toList <:+: text.toList

instance (text : String) : Decidable (showsLimit text) :=
  inferInstanceAs (Decidable (_ <:+: _))

theorem showsLimit_tooDeep (category : Category) : showsLimit (Token.tooDeep category).text := by
  cases category <;> decide

/-- A text in which limits stand for some of the tokens of another. -/
inductive Cut : String → String → Prop
  | refl (text : String) : Cut text text
  | limit (category : Category) (token : Token) : Cut (Token.tooDeep category).text token.text
  | append {a b c d : String} (hab : Cut a b) (hcd : Cut c d) : Cut (a ++ c) (b ++ d)

namespace Cut

theorem eq {a b : String} (h : Cut a b) (hshows : ¬showsLimit a) : a = b := by
  induction h with
  | refl _ => rfl
  | limit category _ => exact absurd (showsLimit_tooDeep category) hshows
  | @append a b c d _ _ ih ih' =>
    rw [showsLimit, String.toList_append] at hshows
    rw [ih fun h => hshows (h.trans (List.infix_append [] _ _)),
      ih' fun h => hshows (h.trans (List.suffix_append _ _).isInfix)]

theorem getD {a? b? : Option String} (h : Option.Rel Cut a? b?) (missing : String) :
    Cut (a?.getD missing) (b?.getD missing) := by
  cases h with
  | none => exact .refl missing
  | some hab => exact hab

theorem commas {as bs : List String} (h : List.Forall₂ Cut as bs) :
    Cut (Token.commas as) (Token.commas bs) := by
  rw [Token.commas, Token.commas]
  induction h with
  | nil => exact .refl _
  | cons hab hrest ih =>
    cases hrest with
    | nil =>
      rw [String.intercalate_singleton, String.intercalate_singleton]
      exact hab
    | cons =>
      rw [String.intercalate_cons_cons, String.intercalate_cons_cons]
      exact (hab.append (.refl ",")).append ih

theorem shaped (category : Category) (kind : String) {as bs : List String}
    (h : List.Forall₂ Cut as bs) :
    Cut (Token.shaped category kind as).text (Token.shaped category kind bs).text := by
  cases h with
  | nil => exact .refl _
  | cons hab hrest => exact ((Cut.refl _).append (commas (.cons hab hrest))).append (.refl "]")

end Cut

/-! ## Expressions -/

def CutReading (read read' : Reading) : Prop := ∀ n, Cut (read n) (read' n)

namespace CutReading

theorem map {read read' : Reading} (h : CutReading read read') (nodes : List Node) :
    List.Forall₂ Cut (nodes.map read) (nodes.map read') :=
  forall₂_map_same fun n _ => h n

theorem child {read read' : Reading} (h : CutReading read read') (n? : Option Node) :
    Option.Rel Cut (n?.map read) (n?.map read') :=
  rel_map (rel_refl (s := (· = ·)) (fun _ => rfl) n?) fun _ _ hn => hn ▸ h _

end CutReading

namespace Node

variable {read read' below below' : Reading} (hread : CutReading read read')
  (hbelow : CutReading below below')

include hread in
theorem bindingText_cut : CutReading (bindingText read) (bindingText read') := by
  intro n
  rw [bindingText, bindingText]
  split
  · exact .refl _
  · exact hread n

include hread hbelow in
theorem keyText_cut : CutReading (keyText read below) (keyText read' below') := by
  intro n
  rw [keyText, keyText]
  split
  · exact .refl _
  · split
    · exact ((Cut.refl "[").append (.commas (hbelow.map n.parts))).append (.refl "]")
    · exact hread n

include hread hbelow in
theorem entryText_cut : CutReading (entryText read below) (entryText read' below') := by
  intro n
  have hkey (field : String) := Cut.getD ((keyText_cut hread hbelow).child (n.child? field)) ""
  have hvalue := Cut.getD (hbelow.child (n.child? "value")) ""
  simp only [entryText]
  split
  · exact ((((Cut.refl "Property[").append (hkey "key")).append (.refl ",")).append hvalue).append
      (.refl "]")
  · split
    · exact .refl _
    · split
      · exact ((Cut.refl "Method[").append (hkey "name")).append (.refl "]")
      · exact hread n

include hread in
theorem declaratorText_cut : CutReading (declaratorText read) (declaratorText read') := by
  intro n
  have hparts := List.rel_append
    (forall₂_toList ((bindingText_cut hread).child (n.child? "name")))
    (forall₂_toList (hread.child (n.child? "value")))
  exact ((Cut.refl "Declarator[").append (.commas hparts)).append (.refl "]")

include hread in
theorem variablesToken_cut :
    CutReading (fun n => (variablesToken read n).text) (fun n => (variablesToken read' n).text) :=
  fun n => .shaped _ _ (.cons (.refl _) ((declaratorText_cut hread).map n.declarators))

include hread hbelow in
theorem clauseText_cut : CutReading (clauseText read below) (clauseText read' below') := by
  intro n
  rw [clauseText, clauseText]
  split
  · exact variablesToken_cut hbelow n
  · split
    · exact .commas (hread.map n.parts)
    · split
      · exact .refl _
      · exact hread n

include hread hbelow in
theorem fill_cut (n : Node) (slot : Slot) :
    List.Forall₂ Cut (fill read below n slot) (fill read' below' n slot) := by
  have hrefl (texts : List String) : List.Forall₂ Cut texts texts :=
    List.forall₂_same.2 fun text _ => .refl text
  cases slot with
  | operand field => exact .cons (.getD (hread.child (n.child? field)) "") .nil
  | operator | word text | text | textOf field | nameOf field | kindOf field | star =>
    exact hrefl _
  | parts => exact hread.map n.parts
  | partsOf field =>
    rw [fill, fill]
    cases n.child? field with
    | none => exact .nil
    | some c => exact hread.map c.parts
  | arguments =>
    rw [fill, fill]
    split
    · exact .nil
    · split
      · exact hrefl _
      · exact hread.map _
  | update =>
    have hargument := Cut.getD (hread.child (n.child? "argument")) ""
    have hboth : ∀ operator, List.Forall₂ Cut [operator, ((n.child? "argument").map read).getD ""]
        [operator, ((n.child? "argument").map read').getD ""] :=
      fun operator => .cons (.refl operator) (.cons hargument .nil)
    have hboth' : ∀ operator, List.Forall₂ Cut [((n.child? "argument").map read).getD "", operator]
        [((n.child? "argument").map read').getD "", operator] :=
      fun operator => .cons hargument (.cons (.refl operator) .nil)
    rw [fill, fill]
    split
    · split
      · exact hboth _
      · exact hboth' _
    · exact hboth' _
  | entries => exact (entryText_cut hread hbelow).map n.parts
  | sequence => exact hread.map n.operands
  | heritage => exact forall₂_flatMap_same fun c _ => hread.map c.parts
  | clause field =>
    exact .cons (.getD ((clauseText_cut hread hbelow).child (n.child? field)) "") .nil
  | tests =>
    rw [fill, fill]
    have htest : CutReading (fun case => ((case.child? "value").map read).getD "default")
        (fun case => ((case.child? "value").map read').getD "default") :=
      fun case => .getD (hread.child (case.child? "value")) "default"
    exact htest.map n.cases
  | caught => exact forall₂_toList ((bindingText_cut hread).child _)

include hread hbelow in
theorem shape_cut (n : Node) (form : Form) :
    Cut (shape read below n form).text (shape read' below' n form).text :=
  .shaped _ _ (forall₂_flatMap_same fun slot _ => fill_cut hread hbelow n slot)

include hread hbelow in
theorem expressionShape_cut (n : Node) :
    Cut (expressionShape read below n).text (expressionShape read' below' n).text := by
  rw [expressionShape, expressionShape]
  split
  · exact shape_cut hread hbelow n _
  · exact .refl _

end Node

theorem Expression.text_cut {budget budget' : Nat} (h : budget ≤ budget') :
    CutReading (text budget) (text budget') := by
  -- Entries and declarations are read two levels down, so the step goes back by one and by two.
  induction budget using Nat.strongRecOn generalizing budget' with
  | ind budget ih =>
    intro n
    cases budget with
    | zero => exact .limit .expression (token budget' n)
    | succ budget =>
      obtain ⟨more, rfl⟩ := Nat.exists_eq_add_of_lt h
      rw [text, text, token_succ, token_succ]
      exact Node.expressionShape_cut (ih budget (by omega) (by omega))
        (ih (budget - 1) (by omega) (by omega)) n.bare

/-! ## Parameters -/

namespace Parameter

def CutTokens (read read' : Node → Token) : Prop :=
  CutReading (fun n => (read n).text) fun n => (read' n).text

theorem entryText_cut {read read' : Reading} (hread : CutReading read read') {budget budget' : Nat}
    (h : budget ≤ budget') : CutReading (entryText read budget) (entryText read' budget') := by
  intro n
  have hkey := Node.keyText_cut (Expression.text_cut h)
    (Expression.text_cut (Nat.sub_le_sub_right h 1))
  rw [entryText, entryText]
  split
  · exact ((Cut.getD (hkey.child _) "").append (.refl ":")).append (.getD (hread.child _) "")
  · exact hread n

theorem shape_cut {read read' : Node → Token} (hread : CutTokens read read') {budget budget' : Nat}
    (h : budget ≤ budget') : CutTokens (shape read budget) (shape read' budget') := by
  intro n
  have hinitial := Expression.text_cut h
  change Cut (shape read budget n).text (shape read' budget' n).text
  rw [shape, shape]
  split
  iterate 2 exact .refl _
  iterate 2
    · have hleft := Cut.getD (hread.child (n.child? "left")) ""
      have hright := Cut.getD (hinitial.child (n.child? "right")) ""
      exact .shaped _ _ (.cons hleft (.cons hright .nil))
  · exact .shaped _ _ (hread.map _)
  · exact .shaped _ _ ((entryText_cut hread h).map _)
  · exact .shaped _ _ (hread.map _)
  iterate 2
    · have hpattern : Cut
          (((n.child? "pattern").map read).getD (.fallback .parameter n.kind)).text
          (((n.child? "pattern").map read').getD (.fallback .parameter n.kind)).text := by
        cases n.child? "pattern" with
        | none => exact .refl _
        | some pattern => exact hread pattern
      cases n.child? "value" with
      | none => exact hpattern
      | some value => exact .shaped _ _ (.cons hpattern (.cons (hinitial value) .nil))
  · exact .refl _
  · exact .refl _

theorem token_cut {budget budget' : Nat} (h : budget ≤ budget') :
    CutTokens (token budget) (token budget') := by
  induction budget generalizing budget' with
  | zero => exact fun n => .limit .parameter (token budget' n)
  | succ budget ih =>
    obtain ⟨more, rfl⟩ := Nat.exists_eq_add_of_lt h
    exact shape_cut (ih (by omega)) (by omega)

end Parameter

/-! ## Statements -/

/-- What the text of a token stands for: one text that it cuts, or any texts if it is the limit of
statements. -/
def StandsFor (text : String) (texts : List String) : Prop :=
  (∃ whole, texts = [whole] ∧ Cut text whole) ∨ text = (Token.tooDeep .statement).text

def CutList (texts texts' : List String) : Prop :=
  ∃ whole, List.Forall₂ StandsFor texts whole ∧ whole.flatten = texts'

namespace CutList

theorem of_forall₂ {texts texts' : List String} (h : List.Forall₂ Cut texts texts') :
    CutList texts texts' := by
  refine ⟨texts'.map ([·]), ?_, by rw [← List.flatMap_def, List.flatMap_singleton']⟩
  rw [List.forall₂_map_right_iff]
  exact h.imp fun _ whole hcut => .inl ⟨whole, rfl, hcut⟩

theorem limit (texts : List String) : CutList [(Token.tooDeep .statement).text] texts :=
  ⟨[texts], .cons (.inr rfl) .nil, List.flatten_singleton⟩

theorem append {a b c d : List String} (hab : CutList a b) (hcd : CutList c d) :
    CutList (a ++ c) (b ++ d) := by
  obtain ⟨whole, hwhole, rfl⟩ := hab
  obtain ⟨whole', hwhole', rfl⟩ := hcd
  exact ⟨whole ++ whole', List.rel_append hwhole hwhole', List.flatten_append⟩

theorem flatMap {α β : Type} {r : α → β → Prop} {texts : α → List String} {texts' : β → List String}
    (hr : ∀ a b, r a b → CutList (texts a) (texts' b)) {as : List α} {bs : List β}
    (h : List.Forall₂ r as bs) : CutList (as.flatMap texts) (bs.flatMap texts') := by
  induction h with
  | nil => exact of_forall₂ .nil
  | cons hab _ ih =>
    rw [List.flatMap_cons, List.flatMap_cons]
    exact (hr _ _ hab).append ih

theorem eq {texts texts' : List String} (h : CutList texts texts')
    (hshows : ∀ text ∈ texts, ¬showsLimit text) : texts = texts' := by
  obtain ⟨whole, hwhole, rfl⟩ := h
  induction hwhole with
  | nil => rfl
  | cons hstands _ ih =>
    obtain ⟨hfirst, hrest⟩ := List.forall_mem_cons.1 hshows
    obtain ⟨text, rfl, hcut⟩ | rfl := hstands
    · rw [hcut.eq hfirst, ih hrest]
      rfl
    · exact absurd (showsLimit_tooDeep .statement) hfirst

end CutList

namespace Node

abbrev PieceCut : Piece → Piece → Prop := PieceRel (fun x y => Cut x.text y.text) (· = ·)

theorem inner_cut (statements : List Node) :
    List.Forall₂ PieceCut (statements.map .inner) (statements.map .inner) :=
  forall₂_map_same fun _ _ => .inner rfl

section Pieces

variable {read read' below below' : Reading} (hread : CutReading read read')
  (hbelow : CutReading below below')
include hread hbelow

theorem linkPieces_cut (name : String) (n : Node) :
    List.Forall₂ PieceCut (linkPieces read below name n) (linkPieces read' below' name n) :=
  .cons (.token (shape_cut hread hbelow n (Form.link name))) (inner_cut _)

theorem chainPieces_cut (n : Node) :
    List.Forall₂ PieceCut (chainPieces read below n) (chainPieces read' below' n) := by
  have hlinks : List.Forall₂ PieceCut (n.chain.1.flatMap (linkPieces read below "Else-If"))
      (n.chain.1.flatMap (linkPieces read' below' "Else-If")) :=
    forall₂_flatMap_same fun c _ => linkPieces_cut hread hbelow "Else-If" c
  simp only [chainPieces]
  refine List.rel_append (List.rel_append (linkPieces_cut hread hbelow "If" n) hlinks) ?_
  split
  · exact .nil
  · exact .cons (.token (.refl _)) (inner_cut _)

theorem pieces_cut (mode : TokenMode) {level level' : Node → Token}
    (hlevel : ∀ n, Cut (level n).text (level' n).text) (n : Node) :
    List.Forall₂ PieceCut (n.pieces mode level read below) (n.pieces mode level' read' below') := by
  unfold pieces
  split
  · exact forall₂_map_same fun c _ => .token (hlevel c)
  · split
    · cases mode with
      | full => exact .cons (.token (variablesToken_cut hread n)) .nil
      | skipDeclarations => exact .nil
    · split
      · exact chainPieces_cut hread hbelow n
      · split
        · exact inner_cut _
        · split
          · exact .cons (.token (shape_cut hread hbelow n _)) (inner_cut _)
          · exact .cons (.token (.refl _)) .nil

end Pieces

end Node

theorem Statement.tokens_cut (mode : TokenMode) {budget budget' : Nat} (h : budget ≤ budget')
    (n : Node) :
    CutList ((tokens mode budget n).map Token.text) ((tokens mode budget' n).map Token.text) := by
  induction budget generalizing budget' n with
  | zero => exact .limit _
  | succ budget ih =>
    obtain ⟨more, rfl⟩ := Nat.exists_eq_add_of_lt h
    have hread : CutReading (Expression.text budget) (Expression.text (budget + more)) :=
      Expression.text_cut (by omega)
    have hbelow : CutReading (Expression.text (budget - 1)) (Expression.text (budget + more - 1)) :=
      Expression.text_cut (by omega)
    have hpieces := Node.pieces_cut hread hbelow mode (Expression.text_cut h) n.exported
    rw [tokens, tokens, List.map_flatMap, List.map_flatMap]
    refine .flatMap ?_ hpieces
    rintro _ _ (hcut | rfl)
    · exact .of_forall₂ (.cons hcut .nil)
    · exact ih (by omega) _

/-! ## Functions -/

namespace Node

theorem bodyTokens_cut (mode : TokenMode) {budget budget' : Nat} (h : budget ≤ budget')
    (isFunction : Bool) (body : Node) :
    (∃ fault, body.bodyTokens mode budget isFunction = .error fault ∧
      body.bodyTokens mode budget' isFunction = .error fault) ∨
    ∃ found found', body.bodyTokens mode budget isFunction = .ok found ∧
      body.bodyTokens mode budget' isFunction = .ok found' ∧
      CutList (found.map Token.text) (found'.map Token.text) := by
  rw [bodyTokens, bodyTokens]
  split
  · dsimp only
    cases (if isFunction then body.leadingStrings else []).mapM directiveToken with
    | error fault => exact .inl ⟨fault, rfl, rfl⟩
    | ok leading =>
      refine .inr ⟨_, _, rfl, rfl, ?_⟩
      rw [List.map_append, List.map_append, List.map_flatMap, List.map_flatMap]
      refine (CutList.of_forall₂ (List.forall₂_same.2 fun _ _ => .refl _)).append ?_
      refine .flatMap ?_ (List.forall₂_eq_eq_eq.symm ▸ rfl)
      rintro statement _ rfl
      exact Statement.tokens_cut mode h statement
  · exact .inr ⟨_, _, rfl, rfl, .of_forall₂ (.cons (Expression.text_cut h body) .nil)⟩

theorem functionTokens_cut (mode : TokenMode) {depth depth' : Nat} (h : depth ≤ depth') (n : Node) :
    (∃ fault, n.functionTokens ⟨mode, depth⟩ = .error fault ∧
      n.functionTokens ⟨mode, depth'⟩ = .error fault) ∨
    ∃ found found', n.functionTokens ⟨mode, depth⟩ = .ok found ∧
      n.functionTokens ⟨mode, depth'⟩ = .ok found' ∧
      CutList (found.map Token.text) (found'.map Token.text) := by
  rw [functionTokens, functionTokens]
  split
  · exact .inl ⟨_, rfl, rfl⟩
  · rename_i body _
    have hbudget : depth + 1 ≤ depth' + 1 := Nat.succ_le_succ h
    dsimp only
    obtain ⟨fault, hfault, hfault'⟩ | ⟨found, found', hfound, hfound', hcut⟩ :=
      bodyTokens_cut mode hbudget n.isFunction body
    · rw [hfault, hfault']
      exact .inl ⟨fault, rfl, rfl⟩
    · rw [hfound, hfound']
      refine .inr ⟨_, _, rfl, rfl, ?_⟩
      rw [List.map_append, List.map_append]
      refine .append (.of_forall₂ ?_) hcut
      cases mode with
      | skipDeclarations => exact .nil
      | full =>
        rw [List.map_map, List.map_map]
        exact CutReading.map (Parameter.token_cut hbudget) n.parameters

/-- The depth that is told apart shows only where it ends: with more of it a function has the same
fault, or tokens for which those found stand in some order, so the same tokens if none of those found
says that anything was nested too deeply. -/
theorem tokens_deeper (mode : TokenMode) {depth depth' : Nat} (h : depth ≤ depth') (n : Node) :
    (∀ fault, n.tokens ⟨mode, depth⟩ = .error fault ↔ n.tokens ⟨mode, depth'⟩ = .error fault) ∧
      ∀ found, n.tokens ⟨mode, depth⟩ = .ok found →
        (∃ found', n.tokens ⟨mode, depth'⟩ = .ok found' ∧
          ∃ texts texts', texts.Perm found ∧ texts'.Perm found' ∧ CutList texts texts') ∧
        ((∀ text ∈ found, ¬showsLimit text) → n.tokens ⟨mode, depth'⟩ = .ok found) := by
  obtain ⟨fault, hfault, hfault'⟩ | ⟨tokens, tokens', htokens, htokens', hcut⟩ :=
    functionTokens_cut mode h n
  · simp only [Node.tokens, hfault, hfault']
    exact ⟨fun _ => trivial, by rintro _ ⟨⟩⟩
  · simp only [Node.tokens, htokens, htokens']
    refine ⟨fun _ => iff_of_false (by rintro ⟨⟩) (by rintro ⟨⟩), ?_⟩
    rintro _ ⟨⟩
    have hsorted : (sortTexts (tokens.map Token.text)).Perm (tokens.map Token.text) :=
      List.mergeSort_perm _ _
    refine ⟨⟨_, rfl, _, _, hsorted.symm, (List.mergeSort_perm _ _).symm, hcut⟩, fun hshows => ?_⟩
    have hsame := hcut.eq fun text htext => hshows text (hsorted.mem_iff.2 htext)
    exact congrArg (fun texts => Except.ok (sortTexts texts)) hsame.symm

/-- A returned number is too deep where no level may be nested, and not where one may. -/
theorem tokens_deeper_returnedNumber :
    ∃ t, ofRows? "function f() \x7b return 5; \x7d" (returningNumber 1) = some t ∧
      ∃ n ∈ t.children,
        n.tokens ⟨.full, 0⟩ = .ok ["STATEMENT:Return[t_EXPRESSION:depth-limit]"] ∧
        (∃ found', n.tokens ⟨.full, 256⟩ = .ok found' ∧ ∃ texts texts',
          texts.Perm ["STATEMENT:Return[t_EXPRESSION:depth-limit]"] ∧ texts'.Perm found' ∧
            CutList texts texts') ∧
        (∀ text ∈ ["STATEMENT:Return[LITERAL:Numeric]"], ¬showsLimit text) ∧
        n.tokens ⟨.full, 1⟩ = .ok ["STATEMENT:Return[LITERAL:Numeric]"] ∧
        n.tokens ⟨.full, 256⟩ = .ok ["STATEMENT:Return[LITERAL:Numeric]"] := by
  obtain ⟨t, _, ht, -, n, hn, hshallow, hdeep⟩ :
      ∃ t t', ofRows? "function f() \x7b return 5; \x7d" (returningNumber 1) = some t ∧
        ofRows? "function f() \x7b return 5; \x7d" (returningNumber 1) = some t' ∧
        ∃ n ∈ t.children,
          n.tokens ⟨.full, 0⟩ = .ok ["STATEMENT:Return[t_EXPRESSION:depth-limit]"] ∧
          n.tokens ⟨.full, 1⟩ = .ok ["STATEMENT:Return[LITERAL:Numeric]"] :=
    exists_trees (by decide +kernel)
  have hshows : ∀ text ∈ ["STATEMENT:Return[LITERAL:Numeric]"], ¬showsLimit text := by decide
  have hcut := ((tokens_deeper .full (by decide : 0 ≤ 256) n).2 _ hshallow).1
  have hsame := ((tokens_deeper .full (by decide : 1 ≤ 256) n).2 _ hdeep).2 hshows
  exact ⟨t, ht, n, hn, hshallow, hcut, hshows, hdeep, hsame⟩

end Node

end Fingerprint
