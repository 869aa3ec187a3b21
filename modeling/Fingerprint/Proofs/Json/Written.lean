import Fingerprint.Proofs.Double.Shortest
import Fingerprint.Proofs.Json.DecimalText
/-!
# Written values are read

Every value that is written without blanks is read as one document, which has the same arrays,
objects and texts, and for a number the parts that it is written as.
-/

namespace Fingerprint

open Document

/-! ## Integers -/

namespace JsonNumber

def ofInteger (n : Int) : JsonNumber := ⟨decide (n < 0), Decimal.digitsOf n.natAbs, [], none, true⟩

theorem isWritten_ofInteger (n : Int) : (ofInteger n).IsWritten := by
  refine ⟨Decimal.isDigit_of_mem_digitsOf, Nat.toDigits_ne_nil, ?_, ?_, ?_, rfl⟩
  · intro hlong
    apply Decimal.head?_digitsOf
    by_contra hzero
    have hone : (Decimal.digitsOf 0).length = 1 := rfl
    rw [ofInteger, show n.natAbs = 0 by omega, hone] at hlong
    exact lt_irrefl 1 hlong
  · rintro c hc
    cases hc
  · rintro _ _ h
    cases h

theorem toList_toString (n : Int) : (toString n).toList = (ofInteger n).render := by
  cases n with
  | ofNat n =>
    have htext : toString (Int.ofNat n) = Nat.repr n := rfl
    have hsign : decide (Int.ofNat n < 0) = false := by simp
    rw [htext, Nat.toList_repr, render, ofInteger, hsign, if_neg Bool.false_ne_true, magnitudeText]
    simp [fractionText, exponentText]
  | negSucc n =>
    have htext : toString (Int.negSucc n) = "-" ++ Nat.repr (n + 1) := rfl
    have hsign : decide (Int.negSucc n < 0) = true := by simp [Int.negSucc_lt_zero]
    rw [htext, String.toList_append, Nat.toList_repr, render, ofInteger, hsign, if_pos rfl,
      magnitudeText]
    simp [fractionText, exponentText]

theorem readsAs_toString (n : Int) : ReadsAs (toString n).toList (.number (ofInteger n)) := by
  rw [toList_toString]
  exact (isWritten_ofInteger n).readsAs

theorem value?_ofInteger_natural {n : Nat} (hn : n < twoPow 64) :
    (ofInteger n).value? = some (.unsigned n) := by
  have hsign : decide ((n : Int) < 0) = false := by simp
  rw [value?, ofInteger, hsign]
  simp only [if_true, Bool.false_eq_true, if_false, Int.natAbs_natCast, Decimal.ofDigits_digitsOf,
    hn]

theorem value?_ofInteger_negative {n : Nat} (hpos : 0 < n) (hn : n ≤ twoPow 63) :
    (ofInteger (-n)).value? = some (.negative n) := by
  have hsign : decide (-(n : Int) < 0) = true := by simp [hpos]
  rw [value?, ofInteger, hsign]
  simp only [if_true, Int.natAbs_neg, Int.natAbs_natCast, Decimal.ofDigits_digitsOf]
  rw [if_pos ⟨hpos, hn⟩]

end JsonNumber

/-! ## Doubles -/

namespace Double

def jsonParts (negative : Bool) (rank : Nat) : JsonNumber :=
  if rank = 0 then ⟨negative, ['0'], ['0'], none, false⟩
  else (shortest .toEven rank).written negative

theorem isWritten_jsonParts (negative : Bool) {rank : Nat} (hfinite : rank < infinityRank) :
    (jsonParts negative rank).IsWritten := by
  rw [jsonParts]
  split
  · refine ⟨?_, List.cons_ne_nil _ _, ?_, ?_, ?_, rfl⟩
    · intro c hc
      rw [List.mem_singleton.1 hc]
      decide
    · intro hlong
      exact absurd hlong (lt_irrefl 1)
    · intro c hc
      rw [List.mem_singleton.1 hc]
      decide
    · rintro _ _ h
      cases h
  · have hpos : 0 < rank := Nat.pos_of_ne_zero ‹_›
    exact Decimal.isWritten_written negative
      (coefficient_pos hpos (shortest_spec .toEven hpos hfinite).1)

theorem toList_jsonMagnitude (negative : Bool) (rank : Nat) :
    (jsonMagnitude rank).toList = (jsonParts negative rank).magnitudeText := by
  rw [jsonMagnitude, jsonParts]
  by_cases hzero : rank = 0
  · rw [if_pos hzero, if_pos hzero]
    rfl
  · rw [if_neg hzero, if_neg hzero, Decimal.written]
    split
    · exact Decimal.toList_positional negative _
    · exact Decimal.toList_scientific negative _

def document : Double → Document
  | .ranked negative rank _ =>
    if rank = infinityRank then .null else .number (jsonParts negative rank)
  | .nan => .null

theorem readsAs_null : ReadsAs "null".toList .null := by
  refine ⟨'n', ['u', 'l', 'l'], rfl, rfl, by decide, fun stack => ⟨_, ?_, State.settles_self _⟩⟩
  rfl

theorem readsAs_json (x : Double) : ReadsAs x.json.toList x.document := by
  cases x with
  | nan => exact readsAs_null
  | ranked negative rank bounded =>
    rw [json, document]
    by_cases hinfinite : rank = infinityRank
    · rw [if_pos hinfinite, if_pos hinfinite]
      exact readsAs_null
    · rw [if_neg hinfinite, if_neg hinfinite]
      have hwritten := isWritten_jsonParts negative (lt_of_le_of_ne bounded hinfinite)
      have hrender : ((if negative then "-" else "") ++ jsonMagnitude rank).toList =
          (jsonParts negative rank).render := by
        have hsign : (jsonParts negative rank).negative = negative := by
          rw [jsonParts, Decimal.written, Decimal.positionalParts, Decimal.scientificParts]
          split_ifs <;> rfl
        rw [String.toList_append, toList_jsonMagnitude negative, JsonNumber.render, hsign]
        cases negative <;> rfl
      rw [hrender]
      exact hwritten.readsAs

end Double

/-! ## Values -/

namespace Json

mutual

def document : Json → Document
  | null => .null
  | bool value => .bool value
  | integer n => .number (.ofInteger n)
  | number x => x.document
  | text s => .text (unitsOf s)
  | array items => .array (documents items)
  | object fields => .object (fieldDocuments fields)

def documents : List Json → List Document
  | [] => []
  | item :: rest => document item :: documents rest

def fieldDocuments : List (String × Json) → List (List StringUnit × Document)
  | [] => []
  | (key, value) :: rest => (unitsOf key, document value) :: fieldDocuments rest

end

theorem documents_eq_map (items : List Json) : documents items = items.map document := by
  induction items with
  | nil => rfl
  | cons item rest ih => rw [documents, ih, List.map_cons]

theorem fieldDocuments_eq_map (fields : List (String × Json)) :
    fieldDocuments fields = fields.map fun f => (unitsOf f.1, document f.2) := by
  induction fields with
  | nil => rfl
  | cons f rest ih => rw [fieldDocuments, ih, List.map_cons]

theorem toList_compactItems (items : List Json) :
    (compactItems items).toList =
      List.intercalate [','] (items.map fun i => (compact i).toList) := by
  induction items with
  | nil => rfl
  | cons item rest ih =>
    cases rest with
    | nil => rw [compactItems, List.map_singleton, List.intercalate_singleton]
    | cons second rest =>
      rw [compactItems, String.toList_append, String.toList_append, ih]
      · simp only [List.map_cons, List.intercalate_cons_cons]
        rfl
      · exact fun h => by cases h

def fieldText (f : String × Json) : FieldText := ⟨f.1, (compact f.2).toList, document f.2⟩

theorem toList_compactFields (fields : List (String × Json)) :
    (compactFields fields).toList =
      List.intercalate [','] ((fields.map fieldText).map FieldText.toList) := by
  induction fields with
  | nil => rfl
  | cons f rest ih =>
    have hfield : (quote f.1 ++ ":" ++ compact f.2).toList = (fieldText f).toList := by
      rw [String.toList_append, String.toList_append, List.append_assoc]
      rfl
    cases rest with
    | nil =>
      rw [compactFields, hfield, List.map_singleton, List.map_singleton,
        List.intercalate_singleton]
    | cons second rest =>
      rw [compactFields, String.toList_append, String.toList_append, hfield, ih]
      · simp only [List.map_cons, List.intercalate_cons_cons]
        rfl
      · exact fun h => by cases h

theorem readsAs_bool (value : Bool) : ReadsAs (scalar (bool value)).toList (.bool value) := by
  cases value with
  | true =>
    refine ⟨'t', ['r', 'u', 'e'], rfl, rfl, by decide, fun stack => ⟨_, ?_, State.settles_self _⟩⟩
    rfl
  | false =>
    refine ⟨'f', ['a', 'l', 's', 'e'], rfl, rfl, by decide,
      fun stack => ⟨_, ?_, State.settles_self _⟩⟩
    rfl

theorem readsAs_array {items : List Json}
    (h : ∀ item ∈ items, ReadsAs (compact item).toList (document item)) :
    ReadsAs (compact (array items)).toList (document (array items)) := by
  have hread := ReadsAs.array (items.map fun i => ((compact i).toList, document i)) (by
    intro item hitem
    obtain ⟨i, hi, rfl⟩ := List.mem_map.1 hitem
    exact h i hi)
  rw [List.map_map, List.map_map] at hread
  rw [compact, document, String.toList_append, String.toList_append, toList_compactItems,
    documents_eq_map]
  exact hread

theorem readsAs_object {fields : List (String × Json)}
    (h : ∀ f ∈ fields, ReadsAs (compact f.2).toList (document f.2)) :
    ReadsAs (compact (object fields)).toList (document (object fields)) := by
  have hread := ReadsAs.object (fields.map fieldText) (by
    intro f hf
    obtain ⟨g, hg, rfl⟩ := List.mem_map.1 hf
    exact h g hg)
  rw [compact, document, String.toList_append, String.toList_append, toList_compactFields,
    fieldDocuments_eq_map]
  rw [List.map_map (f := fieldText) (g := FieldText.field)] at hread
  exact hread

mutual

theorem readsAs_compact : (value : Json) → ReadsAs (compact value).toList (document value)
  | null => Double.readsAs_null
  | bool value => readsAs_bool value
  | integer n => JsonNumber.readsAs_toString n
  | number x => x.readsAs_json
  | text s => ReadsAs.quote s
  | array items => readsAs_array (readsAs_items items)
  | object fields => readsAs_object (readsAs_fields fields)

theorem readsAs_items : (items : List Json) →
    ∀ item ∈ items, ReadsAs (compact item).toList (document item)
  | [] => List.forall_mem_nil _
  | item :: rest => List.forall_mem_cons.2 ⟨readsAs_compact item, readsAs_items rest⟩

theorem readsAs_fields : (fields : List (String × Json)) →
    ∀ f ∈ fields, ReadsAs (compact f.2).toList (document f.2)
  | [] => List.forall_mem_nil _
  | (_, value) :: rest => List.forall_mem_cons.2 ⟨readsAs_compact value, readsAs_fields rest⟩

end

/-- Every value that is written is read. -/
theorem ofText?_compact (value : Json) : Document.ofText? value.compact = some value.document :=
  (readsAs_compact value).ofText?

end Json

end Fingerprint
