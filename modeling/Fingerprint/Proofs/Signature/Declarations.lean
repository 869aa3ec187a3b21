import Mathlib.Tactic.Common
import Fingerprint.Proofs.Arranged
import Fingerprint.Proofs.Function.Naming
import Fingerprint.Proofs.Tree.Walks
/-!
# Leaving out declarations

A signature can be taken without parameters and variable declarations.  It is then the full
signature less the tokens whose texts tell of these: no other construct has a token of such a text,
and nothing else is lost.  The tokens of a statement are followed down to its pieces, which is where
the mode counts.
-/

namespace Fingerprint

namespace Token

/-- Whether a token, by its text, tells of a parameter or of a variable declaration. -/
def declares (token : String) : Bool :=
  "PARAMETER:".toList.isPrefixOf token.toList || "t_PARAMETER:".toList.isPrefixOf token.toList ||
    tokenKind token == "DECLARATION:Variable"

def isDeclaring : Token → Bool
  | shaped category kind _ =>
    category == .parameter || (category == .declaration && tokenKind kind == "Variable")
  | fallback category _ => category == .parameter

theorem takeWhile_append_bracket (kind tail : List Char)
    (htail : ∀ c ∈ tail.head?, c = '[') :
    (kind ++ tail).takeWhile (· != '[') = kind.takeWhile (· != '[') := by
  induction kind with
  | nil =>
    cases tail with
    | nil => rfl
    | cons c rest =>
      rw [htail c rfl]
      rfl
  | cons c rest ih => simp only [List.cons_append, List.takeWhile_cons, ih]

theorem exists_text_eq (category : Category) (kind : String) (parts : List String) :
    ∃ tail : List Char, (∀ c ∈ tail.head?, c = '[') ∧
      (shaped category kind parts).text.toList =
        category.text.toList ++ ':' :: (kind.toList ++ tail) := by
  cases parts with
  | nil => exact ⟨[], by simp, by simp [text]⟩
  | cons part rest =>
    refine ⟨'[' :: ((commas (part :: rest)).toList ++ [']']), by simp, ?_⟩
    simp [text]

theorem toList_tokenKind (token : String) :
    (tokenKind token).toList = token.toList.takeWhile (· != '[') := String.toList_ofList

theorem tokenKind_text (category : Category) (kind : String) (parts : List String) :
    tokenKind (shaped category kind parts).text = category.text ++ ":" ++ tokenKind kind := by
  obtain ⟨tail, htail, htext⟩ := exists_text_eq category kind parts
  have hcategory : ∀ c ∈ category.text.toList, (c != '[') = true := by
    cases category <;> simp [Category.text]
  rw [← String.toList_inj, toList_tokenKind, htext, List.takeWhile_append_of_pos hcategory,
    List.takeWhile_cons_of_pos (by decide), takeWhile_append_bracket _ _ htail]
  simp [toList_tokenKind]

theorem tokenKind_eq_variable (category : Category) (kind : String) :
    category.text ++ ":" ++ kind = "DECLARATION:Variable" ↔
      category = .declaration ∧ kind = "Variable" := by
  rw [← String.toList_inj, ← String.toList_inj]
  cases category <;> simp [Category.text]

theorem declares_text (t : Token) : declares t.text = t.isDeclaring := by
  unfold declares
  cases t with
  | shaped category kind parts =>
    obtain ⟨tail, -, htext⟩ := exists_text_eq category kind parts
    have hvariable : (tokenKind (shaped category kind parts).text == "DECLARATION:Variable") =
        (category == .declaration && tokenKind kind == "Variable") := by
      rw [tokenKind_text, Bool.eq_iff_iff, beq_iff_eq, tokenKind_eq_variable, Bool.and_eq_true,
        beq_iff_eq, beq_iff_eq]
    rw [hvariable, htext]
    cases category <;> rfl
  | fallback category kind =>
    have htext : (fallback category kind).text.toList =
        't' :: '_' :: (category.text.toList ++ ':' :: kind.toList) := by
      simp [text]
    have hkind : tokenKind (fallback category kind).text ≠ "DECLARATION:Variable" := by
      rw [Ne, ← String.toList_inj, toList_tokenKind, htext]
      simp
    rw [beq_false_of_ne hkind, htext]
    cases category <;> rfl

def withoutDeclarations (tokens : List String) : List String := tokens.filter (!declares ·)

end Token

/-! ## Tokens of bodies -/

namespace Node

theorem expressions_category :
    ∀ entry ∈ Form.expressions, entry.2.category = .expression ∨ entry.2.category = .literal := by
  decide

theorem statements_category :
    ∀ entry ∈ Form.statements, entry.2.category = .statement ∨
      entry.2.category = .declaration ∧
        entry.2.head ∈ ["Function", "Generator", "Class"].map Head.fixed := by
  decide

theorem isDeclaring_expressionShape (read below : Reading) (n : Node) :
    (expressionShape read below n).isDeclaring = false := by
  unfold expressionShape
  cases hform : Form.expressions.lookup n.kind with
  | none => rfl
  | some form =>
    have hcategory : form.category = .expression ∨ form.category = .literal :=
      expressions_category _ (mem_of_lookup_eq_some hform)
    rcases hcategory with hcategory | hcategory <;>
      simp only [shape, Token.isDeclaring, hcategory] <;> rfl

theorem isDeclaring_statementShape (read below : Reading) {n : Node} {form : Form}
    (hform : Form.statements.lookup n.kind = some form) :
    (shape read below n form).isDeclaring = false := by
  have hcategory : form.category = .statement ∨ form.category = .declaration ∧
      form.head ∈ ["Function", "Generator", "Class"].map Head.fixed :=
    statements_category _ (mem_of_lookup_eq_some hform)
  rcases hcategory with hcategory | ⟨hcategory, hhead⟩
  · simp only [shape, Token.isDeclaring, hcategory]
    rfl
  · obtain ⟨name, hname, hfixed⟩ := List.mem_map.1 hhead
    have hkind : ∀ name ∈ ["Function", "Generator", "Class"], tokenKind name ≠ "Variable" := by
      decide
    simp only [shape, Token.isDeclaring, hcategory, ← hfixed, Head.name,
      beq_false_of_ne (hkind name hname)]
    rfl

end Node

theorem Expression.isDeclaring_token (budget : Nat) (n : Node) :
    (Expression.token budget n).isDeclaring = false := by
  cases budget with
  | zero => rfl
  | succ budget =>
    rw [Expression.token_succ]
    exact Node.isDeclaring_expressionShape _ _ _

theorem Parameter.isDeclaring_token (budget : Nat) :
    ∀ n : Node, (Parameter.token budget n).isDeclaring = true := by
  induction budget with
  | zero => exact fun _ => rfl
  | succ budget ih =>
    intro n
    rw [Parameter.token, Parameter.shape]
    split
    any_goals rfl
    iterate 2
      · dsimp only
        cases n.child? "value" with
        | some value => rfl
        | none =>
          cases n.child? "pattern" with
          | some pattern => exact ih pattern
          | none => rfl

namespace Piece

def isDeclaring : Piece → Bool
  | token t => t.isDeclaring
  | inner _ => false

end Piece

namespace Node

theorem statementCategory_ne_parameter (kind : String) :
    statementCategory kind ≠ .parameter := by
  unfold statementCategory
  split
  · decide
  · split <;> decide

theorem isDeclaring_of_mem_inner {statements : List Node} :
    ∀ piece ∈ statements.map Piece.inner, piece.isDeclaring = false := by
  intro piece hpiece
  obtain ⟨statement, -, rfl⟩ := List.mem_map.1 hpiece
  rfl

theorem isDeclaring_of_mem_linkPieces {read below : Reading} {name : String} {n : Node} :
    ∀ piece ∈ linkPieces read below name n, piece.isDeclaring = false := by
  rw [linkPieces, List.forall_mem_cons]
  exact ⟨rfl, isDeclaring_of_mem_inner⟩

theorem isDeclaring_of_mem_chainPieces {read below : Reading} {n : Node} :
    ∀ piece ∈ chainPieces read below n, piece.isDeclaring = false := by
  simp only [chainPieces]
  refine List.forall_mem_append.2 ⟨List.forall_mem_append.2 ⟨isDeclaring_of_mem_linkPieces, ?_⟩, ?_⟩
  · intro piece hpiece
    obtain ⟨link, -, hlink⟩ := List.mem_flatMap.1 hpiece
    exact isDeclaring_of_mem_linkPieces piece hlink
  · split
    · exact List.forall_mem_nil _
    · rw [List.forall_mem_cons]
      exact ⟨rfl, isDeclaring_of_mem_inner⟩

theorem filter_pieces {level : Node → Token} (hlevel : ∀ c, (level c).isDeclaring = false)
    (read below : Reading) (n : Node) :
    (n.pieces .full level read below).filter (!·.isDeclaring) =
      n.pieces .skipDeclarations level read below := by
  have hkeep : ∀ {pieces : List Piece}, (∀ piece ∈ pieces, piece.isDeclaring = false) →
      pieces.filter (!·.isDeclaring) = pieces := by
    intro pieces h
    exact List.filter_eq_self.2 fun piece hpiece => by simp [h piece hpiece]
  unfold pieces
  split
  · refine hkeep fun piece hpiece => ?_
    obtain ⟨c, -, rfl⟩ := List.mem_map.1 hpiece
    exact hlevel c
  · split
    · rfl
    · split
      · exact hkeep isDeclaring_of_mem_chainPieces
      · split
        · exact hkeep isDeclaring_of_mem_inner
        · cases hform : Form.statements.lookup n.kind with
          | some form =>
            refine hkeep (List.forall_mem_cons.2 ⟨?_, isDeclaring_of_mem_inner⟩)
            exact isDeclaring_statementShape read below hform
          | none =>
            refine hkeep (List.forall_mem_singleton.2 ?_)
            exact beq_false_of_ne (statementCategory_ne_parameter n.kind)

end Node

theorem filter_flatMap_eq {α β : Type} {p : β → Bool} {q : α → Bool} {f g : α → List β}
    (h : ∀ a, (f a).filter p = if q a then g a else []) (items : List α) :
    (items.flatMap f).filter p = (items.filter q).flatMap g := by
  rw [List.filter_flatMap, ← flatMap_ite_nil]
  exact congrArg (items.flatMap ·) (funext h)

namespace Statement

theorem filter_tokens (budget : Nat) : ∀ n : Node,
    (tokens .full budget n).filter (!·.isDeclaring) = tokens .skipDeclarations budget n := by
  induction budget with
  | zero => exact fun _ => rfl
  | succ budget ih =>
    intro n
    rw [tokens, tokens, ← Node.filter_pieces (Expression.isDeclaring_token (budget + 1))]
    refine filter_flatMap_eq (fun piece => ?_) _
    cases piece with
    | token t =>
      rw [List.filter_cons, List.filter_nil]
      rfl
    | inner statement => exact ih statement

end Statement

namespace Node

theorem isDeclaring_directiveToken {n : Node} {t : Token} (h : n.directiveToken = .ok t) :
    t.isDeclaring = false := by
  unfold directiveToken at h
  split at h
  · obtain ⟨content, -, hpure⟩ := bind_eq_ok.1 h
    cases hpure
    rfl
  · cases h
    rfl

theorem bodyTokens_skipDeclarations (budget : Nat) (isFunction : Bool) (body : Node) :
    bodyTokens .skipDeclarations budget isFunction body =
      (bodyTokens .full budget isFunction body).map (List.filter (!·.isDeclaring)) := by
  unfold bodyTokens
  split
  · dsimp only
    cases hleading : (if isFunction then body.leadingStrings else []).mapM directiveToken with
    | error fault => rfl
    | ok leading =>
      have hkeep : leading.filter (!·.isDeclaring) = leading :=
        List.filter_eq_self.2 fun t ht => by
          obtain ⟨n, -, hn⟩ := exists_of_mem_right (forall₂_of_mapM_eq_ok hleading) ht
          simp [isDeclaring_directiveToken hn]
      refine congrArg Except.ok ?_
      rw [List.filter_append, hkeep, List.filter_flatMap]
      simp only [Statement.filter_tokens]
  · refine congrArg Except.ok ?_
    rw [List.filter_cons, Expression.isDeclaring_token]
    rfl

theorem functionTokens_skipDeclarations (maxDepth : Nat) (n : Node) :
    n.functionTokens ⟨.skipDeclarations, maxDepth⟩ =
      (n.functionTokens ⟨.full, maxDepth⟩).map (List.filter (!·.isDeclaring)) := by
  unfold functionTokens
  cases n.child? "body" with
  | none => rfl
  | some body =>
    simp only [bodyTokens_skipDeclarations]
    cases bodyTokens .full (maxDepth + 1) n.isFunction body with
    | error fault => rfl
    | ok tokens =>
      have hdrop : (n.parameters.map (Parameter.token (maxDepth + 1))).filter (!·.isDeclaring) =
          [] := by
        refine List.filter_eq_nil_iff.2 fun t ht => ?_
        obtain ⟨parameter, -, rfl⟩ := List.mem_map.1 ht
        simp [Parameter.isDeclaring_token]
      refine congrArg Except.ok ?_
      rw [List.filter_append, hdrop]

end Node

theorem Node.tokens_skipDeclarations (maxDepth : Nat) (n : Node) :
    n.tokens ⟨.skipDeclarations, maxDepth⟩ =
      (n.tokens ⟨.full, maxDepth⟩).map Token.withoutDeclarations := by
  rw [tokens, tokens, functionTokens_skipDeclarations]
  cases n.functionTokens ⟨.full, maxDepth⟩ with
  | error fault => rfl
  | ok found =>
    refine congrArg Except.ok ?_
    have htexts : (!Token.declares ·) ∘ Token.text = fun t => !t.isDeclaring := by
      funext t
      rw [Function.comp_apply, Token.declares_text]
    rw [Token.withoutDeclarations, filter_sortTexts, List.filter_map, htexts]

/-! ## Functions and signatures -/

def Located.withoutDeclarations (function : Located) : Located :=
  { function with tokens := Token.withoutDeclarations function.tokens }

/-- The signature of a function without the tokens that declare; their kinds go with them. -/
def FunctionSignature.withoutDeclarations (f : FunctionSignature) : FunctionSignature :=
  { f with
    statementTypes := Fingerprint.statementTypes (Token.withoutDeclarations f.statementTokens)
    statementTokens := Token.withoutDeclarations f.statementTokens }

def Signature.withoutDeclarations (s : Signature) : Signature :=
  { s with functions := s.functions.map FunctionSignature.withoutDeclarations }

theorem Node.located_skipDeclarations (maxDepth : Nat) (n : Node) (target : Option Node) :
    n.located ⟨.skipDeclarations, maxDepth⟩ target =
      (n.located ⟨.full, maxDepth⟩ target).map Located.withoutDeclarations := by
  rw [located, located, tokens_skipDeclarations]
  cases n.localName target with
  | error fault => rfl
  | ok name =>
    cases n.tokens ⟨.full, maxDepth⟩ <;> rfl

namespace Site

theorem locate_skipDeclarations (maxDepth depth : Nat) (s : Site) :
    s.locate ⟨.skipDeclarations, maxDepth⟩ depth =
      (s.locate ⟨.full, maxDepth⟩ depth).map (.map Located.withoutDeclarations) := by
  have hlocated : ∀ (n : Node) (target : Option Node),
      (n.located ⟨.skipDeclarations, maxDepth⟩ target).map Signal.emit =
        ((n.located ⟨.full, maxDepth⟩ target).map Signal.emit).map
          (.map Located.withoutDeclarations) := by
    intro n target
    rw [Node.located_skipDeclarations]
    cases n.located ⟨.full, maxDepth⟩ target <;> rfl
  unfold locate
  split
  · exact hlocated _ _
  · split
    · exact hlocated _ _
    · rfl

theorem functions_skipDeclarations (maxDepth : Nat) (root : Site) :
    root.functions ⟨.skipDeclarations, maxDepth⟩ =
      (root.functions ⟨.full, maxDepth⟩).map (Entry.mapAll Located.withoutDeclarations) :=
  walk_map (fun _ s => locate_skipDeclarations maxDepth _ s) root

end Site

namespace Located

mutual

theorem nameEntry_withoutDeclarations (parent : String) (names : GivenNames) :
    ∀ e : Entry Located, nameEntry parent names (e.map withoutDeclarations) =
      ((nameEntry parent names e).1.map (Prod.map id Token.withoutDeclarations),
        (nameEntry parent names e).2)
  | ⟨path, function, children⟩ => by
    simp only [Entry.map, nameEntry]
    rw [nameAll_withoutDeclarations]
    rfl

theorem nameAll_withoutDeclarations (parent : String) (names : GivenNames) :
    ∀ forest : List (Entry Located),
      nameAll parent names (Entry.mapAll withoutDeclarations forest) =
        ((nameAll parent names forest).1.map (Prod.map id Token.withoutDeclarations),
          (nameAll parent names forest).2)
  | [] => rfl
  | e :: rest => by
    simp only [Entry.mapAll, nameAll]
    rw [nameEntry_withoutDeclarations, nameAll_withoutDeclarations, List.map_append]

end

theorem flatten_withoutDeclarations (forest : List (Entry Located)) :
    flatten (Entry.mapAll withoutDeclarations forest) =
      (flatten forest).map FunctionSignature.withoutDeclarations := by
  have hnamed : named (Entry.mapAll withoutDeclarations forest) =
      (named forest).map (Prod.map id Token.withoutDeclarations) :=
    congrArg Prod.fst (nameAll_withoutDeclarations "" {} forest)
  have hsort := List.map_mergeSort (r := fun a b : String × List String => textLe a.1 b.1)
    (s := fun a b : String × List String => textLe a.1 b.1)
    (f := Prod.map id Token.withoutDeclarations) (l := named forest) (fun a _ b _ => rfl)
  rw [flatten, flatten, hnamed, ← hsort]
  apply List.ext_getElem?
  intro i
  simp only [List.getElem?_mapIdx, List.getElem?_map]
  cases ((named forest).mergeSort fun a b => textLe a.1 b.1)[i]? <;> rfl

end Located

/-- **Leaving out declarations leaves out their tokens.**  Without declarations an extraction fails
just when it fails with them, and otherwise gives the same names, places and literals; the tokens of
every function are the full ones, in their order, less those that tell of a parameter or a variable
declaration, and their kinds are the sorted kinds of what is left. -/
theorem Signature.extract_skipDeclarations (maxDepth : Nat) (root : Site) :
    extract ⟨.skipDeclarations, maxDepth⟩ root =
      (extract ⟨.full, maxDepth⟩ root).map withoutDeclarations := by
  rw [extract, extract, Site.functions_skipDeclarations]
  cases root.functions ⟨.full, maxDepth⟩ with
  | error fault => rfl
  | ok forest =>
    cases root.literals with
    | error fault => rfl
    | ok literals =>
      refine congrArg Except.ok ?_
      rw [withoutDeclarations, Located.flatten_withoutDeclarations]

end Fingerprint
