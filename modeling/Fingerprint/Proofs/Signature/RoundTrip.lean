import Fingerprint.Proofs.Literal.Collected
import Fingerprint.Proofs.Literal.Reread
import Fingerprint.Signature.Basic
/-!
# Signatures that are read back

A signature is written as JSON and read from it.  Its functions come back as long as their places
fit 64 bits, and its texts come back always.  What can be lost are the last bits of a number, so the
signature comes back just when its numbers do.
-/

namespace Fingerprint

open Document

theorem exists_forall₂_iff {α β : Type} {r : α → β → Prop} {items : List α} :
    (∃ others, List.Forall₂ r items others) ↔ ∀ a ∈ items, ∃ b, r a b := by
  constructor
  · rintro ⟨others, h⟩
    induction h with
    | nil => exact List.forall_mem_nil _
    | cons hab _ ih => exact List.forall_mem_cons.2 ⟨⟨_, hab⟩, ih⟩
  · intro h
    induction items with
    | nil => exact ⟨[], .nil⟩
    | cons a rest ih =>
      obtain ⟨⟨b, hab⟩, hrest⟩ := List.forall_mem_cons.1 h
      obtain ⟨others, hothers⟩ := ih hrest
      exact ⟨b :: others, .cons hab hothers⟩

/-! ## Functions -/

theorem natural?_ofInteger (n : Nat) :
    natural? (.number (.ofInteger n)) = if n < twoPow 64 then some n else none := by
  by_cases hfit : n < twoPow 64
  · rw [natural?, number?, JsonNumber.value?_ofInteger_natural hfit, if_pos hfit]
  · have hsign : decide ((n : Int) < 0) = false := by simp
    have hvalue : (JsonNumber.ofInteger n).value? =
        (JsonNumber.ofInteger n).double?.map .double := by
      rw [JsonNumber.value?, JsonNumber.ofInteger, hsign]
      simp only [if_true, Bool.false_eq_true, if_false, Int.natAbs_natCast,
        Decimal.ofDigits_digitsOf, hfit]
    rw [natural?, number?, hvalue, if_neg hfit]
    cases (JsonNumber.ofInteger n).double? <;> rfl

theorem list?_textsToJson (texts : List String) :
    list? text? (textsToJson texts).document = some texts := by
  rw [textsToJson, Json.document, Json.documents_eq_map, List.map_map]
  apply list?_map
  intro text _
  exact string?_unitsOf text

namespace FunctionSignature

theorem ofDocument?_toJson (f : FunctionSignature) :
    ofDocument? f.toJson.document = if f.index < twoPow 64 then some f else none := by
  have hdocument : f.toJson.document = fieldsOf
      [("type", .text (unitsOf f.type)), ("name", .text (unitsOf f.name)),
        ("index", .number (.ofInteger f.index)),
        ("fnStatementTypes", (textsToJson f.statementTypes).document),
        ("fnStatementTokens", (textsToJson f.statementTokens).document)] := rfl
  have htext : ∀ s, text? (.text (unitsOf s)) = some s := string?_unitsOf
  rw [hdocument, ofDocument?, record?_fieldsOf (by rfl) (by decide)]
  simp only [List.map_cons, List.map_nil, Option.bind_eq_bind, Option.bind_some, optional?,
    required?, htext, natural?_ofInteger, list?_textsToJson, Option.pure_def]
  split <;> rfl

end FunctionSignature

theorem Located.forall_index_lt_iff (forest : List (Entry Located)) (bound : Nat) :
    (∀ f ∈ flatten forest, f.index < bound) ↔ (flatten forest).length ≤ bound := by
  rw [flatten, List.length_mapIdx]
  generalize (named forest).mergeSort _ = sorted
  constructor
  · intro h
    by_contra hlong
    rw [not_le] at hlong
    have hlt := h _ (List.getElem_mem (by rwa [List.length_mapIdx]))
    rw [List.getElem_mapIdx] at hlt
    exact lt_irrefl bound hlt
  · intro hlength f hf
    obtain ⟨index, hindex, rfl⟩ := List.mem_mapIdx.1 hf
    exact lt_of_lt_of_le hindex hlength

/-! ## Signatures -/

namespace Signature

/-- Whether two signatures are the same, with numbers compared as values. -/
def Agrees (s t : Signature) : Prop :=
  t.functions = s.functions ∧ List.Forall₂ (fun a b => (a == b) = true) s.literals t.literals

theorem ofText?_compact_iff {s t : Signature} :
    ofText? s.toJson.compact = some t ↔
      List.Forall₂ (fun f g => FunctionSignature.ofDocument? f.toJson.document = some g)
        s.functions t.functions ∧
      List.Forall₂ (fun l m => Literal.ofDocument? l.toJson.document = some m)
        s.literals t.literals := by
  have hdocument : s.toJson.document = fieldsOf
      [("functionSignature", .array (Json.documents (s.functions.map FunctionSignature.toJson))),
        ("literalSignature", .array (Json.documents (s.literals.map Literal.toJson)))] := rfl
  rw [ofText?, Json.ofText?_compact, Option.bind_some, hdocument, ofDocument?,
    record?_fieldsOf (by rfl) (by decide)]
  simp only [List.map_cons, List.map_nil, Option.bind_eq_bind, Option.bind_some, optional?,
    Option.pure_def, Option.bind_eq_some_iff, Option.some.injEq, list?_eq_some_iff,
    Json.documents_eq_map, List.map_map, List.forall₂_map_left_iff, Function.comp_apply]
  constructor
  · rintro ⟨functions, hfunctions, literals, hliterals, rfl⟩
    exact ⟨hfunctions, hliterals⟩
  · rintro ⟨hfunctions, hliterals⟩
    exact ⟨_, hfunctions, _, hliterals, rfl⟩

theorem agrees_iff {s : Signature} :
    (∃ t, ofText? s.toJson.compact = some t ∧ s.Agrees t) ↔
      (∀ f ∈ s.functions, f.index < twoPow 64) ∧
      ∀ l ∈ s.literals, ∃ m, Literal.ofDocument? l.toJson.document = some m ∧ (l == m) = true := by
  constructor
  · rintro ⟨t, hread, hsame, hequal⟩
    obtain ⟨hfunctions, hliterals⟩ := ofText?_compact_iff.1 hread
    rw [hsame, List.forall₂_same] at hfunctions
    constructor
    · intro f hf
      have hback := hfunctions f hf
      rw [FunctionSignature.ofDocument?_toJson] at hback
      by_contra hlarge
      rw [if_neg hlarge] at hback
      cases hback
    · exact exists_forall₂_iff.1 ⟨_, hliterals.mp (fun _ _ hread hequal => ⟨hread, hequal⟩) hequal⟩
  · rintro ⟨hfunctions, hliterals⟩
    obtain ⟨literals, hmatch⟩ := exists_forall₂_iff.2 hliterals
    refine ⟨⟨s.functions, literals⟩, ofText?_compact_iff.2 ⟨?_, hmatch.imp fun _ _ h => h.1⟩, rfl,
      hmatch.imp fun _ _ h => h.2⟩
    rw [List.forall₂_same]
    intro f hf
    rw [FunctionSignature.ofDocument?_toJson, if_pos (hfunctions f hf)]

/-- **What is extracted is read back but for rounding.**  An extracted signature comes back from its
text just when its functions are no more than 64 bits can number and every number among its literals
is a small integer or one where reading the shortest digits ends. -/
theorem ofText?_compact_of_extract_iff {options : TokenOptions} {root : Site} {s : Signature}
    (h : extract options root = .ok s) :
    (∃ t, ofText? s.toJson.compact = some t ∧ s.Agrees t) ↔
      s.functions.length ≤ twoPow 64 ∧ ∀ x, .number x ∈ s.literals → x.readsBack = true := by
  rw [extract, bind_eq_ok] at h
  obtain ⟨forest, -, h⟩ := h
  rw [bind_eq_ok] at h
  obtain ⟨literals, hliterals, h⟩ := h
  cases h
  have hfinite := Site.isFinite_of_mem_literals hliterals
  rw [agrees_iff, Located.forall_index_lt_iff]
  refine and_congr_right fun _ => ⟨?_, ?_⟩
  · intro hback x hx
    exact (Literal.ofDocument?_toJson_number (hfinite _ hx)).1 (hback _ hx)
  · intro hnumbers l hl
    cases l with
    | number x => exact (Literal.ofDocument?_toJson_number (hfinite _ hl)).2 (hnumbers x hl)
    | text t => exact ⟨_, Literal.ofDocument?_text t, beq_self_eq_true t⟩

def loneNumber (text : String) : Site :=
  ⟨⟨⟨0, "program", true, none, 0, ⟨0, 0⟩, text⟩,
    [⟨⟨1, "expression_statement", true, none, 0, ⟨0, 0⟩, text⟩,
      [⟨⟨2, "number", true, none, 0, ⟨0, 0⟩, text⟩, []⟩]⟩]⟩, []⟩

/-- A fraction of twelve digits comes back. -/
theorem ofText?_compact_twelveDigits :
    ∃ s, extract {} (loneNumber "0.982339042173") = .ok s ∧ s.literals.length = 1 ∧
      ∃ t, ofText? s.toJson.compact = some t ∧ s.Agrees t := by
  have h : extract {} (loneNumber "0.982339042173") =
      .ok ⟨[], [.number (.ranked false 4607023343033840042 (by decide))]⟩ := by
    decide +kernel
  refine ⟨_, h, rfl, (ofText?_compact_of_extract_iff h).2 ⟨Nat.zero_le _, ?_⟩⟩
  intro x hx
  rw [List.mem_singleton, Literal.number.injEq] at hx
  rw [hx]
  decide +kernel

/-- The digits of this number make an integer between `2 ^ 53` and `2 ^ 54` that is odd.  Rounding
it first makes the quotient end in the next value. -/
theorem ofText?_compact_sixteenDigits :
    ∃ s t, extract {} (loneNumber "0.9823390421731879") = .ok s ∧
      ofText? s.toJson.compact = some t ∧ ¬s.Agrees t := by
  refine ⟨⟨[], [.number (.ranked false 4607023343033841734 (by decide))]⟩,
    ⟨[], [.number (.ranked false 4607023343033841735 (by decide))]⟩, ?_, ?_, ?_⟩
  · decide +kernel
  · decide +kernel
  · rintro ⟨-, hliterals⟩
    rw [List.forall₂_cons] at hliterals
    exact absurd hliterals.1 (by decide)

end Signature

end Fingerprint
