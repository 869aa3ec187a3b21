import Mathlib.Tactic.Common
import Fingerprint.Proofs.Token.Statements
import Fingerprint.Proofs.Tree.Correspondence
import Fingerprint.Tree.Rows
/-!
# Literals are abstracted away

Functions of two trees that differ in their literals have the same tokens.
-/

namespace Fingerprint

namespace Node

/-- Whether no literal stands in what a node shows, and none where it looks for a list. -/
def hidesLiterals (n : Node) : Bool :=
  (n.slots.flatMap (Slot.shown n)).all (!·.hasLiteral) &&
    (n.slots.flatMap (Slot.opened n) ++
      if n.isFunction then (n.child? "parameters").toList else []).all (!·.isLiteral)

theorem hasLiteral_eq_false_of_shown {n m : Node} (h : n.hidesLiterals = true) {slot : Slot}
    (hslot : slot ∈ n.slots) (hm : m ∈ slot.shown n) : m.hasLiteral = false := by
  rw [hidesLiterals, Bool.and_eq_true] at h
  have hshown := List.all_eq_true.1 h.1 m (List.mem_flatMap.2 ⟨slot, hslot, hm⟩)
  simpa using hshown

theorem isLiteral_eq_false_of_opened {n m : Node} (h : n.hidesLiterals = true)
    (hm : m ∈ n.opened) : m.isLiteral = false := by
  rw [hidesLiterals, Bool.and_eq_true] at h
  simpa using List.all_eq_true.1 h.2 m hm

section Functions

variable {t t' : Node} (h : SameButLiterals t t')
  (hides : ∀ p ∈ pairs t t', p.1.hidesLiterals = true)
include h hides

theorem legible_corresponds : Legible False False isLiteral (Corresponds t t') where
  toAlike := alike_corresponds h
  shown_eq hab hslot :=
    map_eq_of_forall₂ (fun _ _ ⟨hc, _, hcd⟩ =>
      h.text _ hcd (hasLiteral_eq_false_of_shown (hides _ hab) hslot hc))
      (forall₂_mem ((alike_corresponds h).shown hab hslot))
  order := (alike_corresponds h).order_of_start_lt_iff not_false fun hab hcd => h.order _ hab _ hcd
  opened hab hc := isLiteral_eq_false_of_opened (hides _ hab) hc
  reserved := False.elim
  binding := False.elim
  endsInN_eq hab hkind := h.bigness _ hab hkind
  directiveTexts_eq hab hfunction := h.directives _ hab hfunction

theorem functionTokens_eq_ok_iff (options : TokenOptions) {a b : Node} (hab : Corresponds t t' a b)
    (hfunction : a.isFunction = true) {tokens : List Token} :
    a.functionTokens options = .ok tokens ↔ b.functionTokens options = .ok tokens := by
  have hrel := functionTokens_alike (legible_corresponds h hides) options hab hfunction
  revert hrel
  cases a.functionTokens options with
  | error fault =>
    cases b.functionTokens options with
    | error fault' => exact fun _ => iff_of_false (nomatch ·) (nomatch ·)
    | ok found => rintro ⟨⟩
  | ok found =>
    cases b.functionTokens options with
    | error fault => rintro ⟨⟩
    | ok found' =>
      rintro ⟨hfound⟩
      rw [hfound.eq not_false]

end Functions

/-- Constants do not show: functions that stand in the same place of two trees that differ in their
literals have the same tokens, if literals are hidden in the first. -/
theorem tokens_sameButLiterals {t t' : Node} (h : SameButLiterals t t') {p : Node × Node}
    (hp : p ∈ pairs t t') (hfunction : p.1.isFunction = true)
    (hides : ∀ q ∈ pairs p.1 p.2, q.1.hidesLiterals = true) (options : TokenOptions)
    (found : List String) :
    p.1.tokens options = .ok found ↔ p.2.tokens options = .ok found := by
  have hfunctions : ∀ {tokens : List Token},
      p.1.functionTokens options = .ok tokens ↔ p.2.functionTokens options = .ok tokens :=
    functionTokens_eq_ok_iff (h.restrict hp) hides options (corresponds_self p.1 p.2) hfunction
  rw [tokens, tokens, map_eq_ok, map_eq_ok]
  simp only [hfunctions]

/-- The rows of a function `f` that returns an expression of `width` bytes, which starts at
byte 22. -/
def returning (width : Nat) (expression : List Row) : List Row :=
  [⟨"program", true, none, 0, 25 + width, 1⟩,
    ⟨"function_declaration", true, none, 0, 25 + width, 4⟩,
    ⟨"function", false, none, 0, 8, 0⟩,
    ⟨"identifier", true, some "name", 9, 10, 0⟩,
    ⟨"formal_parameters", true, some "parameters", 10, 12, 2⟩,
    ⟨"(", false, none, 10, 11, 0⟩,
    ⟨")", false, none, 11, 12, 0⟩,
    ⟨"statement_block", true, some "body", 13, 25 + width, 3⟩,
    ⟨"\x7b", false, none, 13, 14, 0⟩,
    ⟨"return_statement", true, none, 15, 23 + width, 3⟩,
    ⟨"return", false, none, 15, 21, 0⟩] ++ expression ++
    [⟨";", false, none, 22 + width, 23 + width, 0⟩,
      ⟨"\x7d", false, none, 24 + width, 25 + width, 0⟩]

def returningNumber (width : Nat) : List Row :=
  returning width [⟨"number", true, none, 22, 22 + width, 0⟩]

/-- The returned expression is `import.meta` with a number that was skipped before its last
token. -/
def returningBrokenMeta : List Row :=
  returning 14
    [⟨"meta_property", true, none, 22, 36, 4⟩,
      ⟨"import", false, none, 22, 28, 0⟩,
      ⟨".", false, none, 28, 29, 0⟩,
      ⟨"ERROR", true, none, 30, 31, 1⟩,
      ⟨"number", true, none, 30, 31, 0⟩,
      ⟨"meta", false, none, 32, 36, 0⟩]

theorem exists_trees {p : Node → Node → Prop} [∀ t t', Decidable (p t t')] {source source' : String}
    {rows rows' : List Row}
    (h : ((ofRows? source rows).bind fun t =>
      (ofRows? source' rows').map fun t' => decide (p t t')) = some true) :
    ∃ t t', ofRows? source rows = some t ∧ ofRows? source' rows' = some t' ∧ p t t' := by
  obtain ⟨t, ht, h⟩ := Option.bind_eq_some_iff.1 h
  obtain ⟨t', ht', h⟩ := Option.map_eq_some_iff.1 h
  exact ⟨t, t', ht, ht', of_decide_eq_true h⟩

theorem tokens_sameButLiterals_returnedNumber :
    ∃ t t', ofRows? "function f() \x7b return 5; \x7d" (returningNumber 1) = some t ∧
      ofRows? "function f() \x7b return 1024; \x7d" (returningNumber 4) = some t' ∧
      SameButLiterals t t' ∧
      ∃ p ∈ pairs t t', p.1.isFunction = true ∧
        (∀ q ∈ pairs p.1 p.2, q.1.hidesLiterals = true) ∧
        p.1.tokens {} = .ok ["STATEMENT:Return[LITERAL:Numeric]"] ∧
        p.2.tokens {} = .ok ["STATEMENT:Return[LITERAL:Numeric]"] := by
  obtain ⟨t, t', ht, ht', hsame, p, hp, hfunction, hides, htokens⟩ :
      ∃ t t', ofRows? "function f() \x7b return 5; \x7d" (returningNumber 1) = some t ∧
        ofRows? "function f() \x7b return 1024; \x7d" (returningNumber 4) = some t' ∧
        SameButLiterals t t' ∧
        ∃ p ∈ pairs t t', p.1.isFunction = true ∧
          (∀ q ∈ pairs p.1 p.2, q.1.hidesLiterals = true) ∧
          p.1.tokens {} = .ok ["STATEMENT:Return[LITERAL:Numeric]"] :=
    exists_trees (by decide +kernel)
  exact ⟨t, t', ht, ht', hsame, p, hp, hfunction, hides, htokens,
    (tokens_sameButLiterals hsame hp hfunction hides {} _).1 htokens⟩

/-- A number that was skipped inside of `import.meta` is a part of the text that the token of the
meta property shows. -/
theorem tokens_brokenMetaProperty :
    ∃ t t', ofRows? "function f() \x7b return import. 5 meta; \x7d" returningBrokenMeta = some t ∧
      ofRows? "function f() \x7b return import. 7 meta; \x7d" returningBrokenMeta = some t' ∧
      SameButLiterals t t' ∧
      ∃ p ∈ pairs t t', p.1.isFunction = true ∧
        p.1.tokens {} = .ok ["STATEMENT:Return[EXPRESSION:MetaProperty[import. 5 meta]]"] ∧
        p.2.tokens {} = .ok ["STATEMENT:Return[EXPRESSION:MetaProperty[import. 7 meta]]"] :=
  exists_trees (by decide +kernel)

end Node

end Fingerprint
