import Mathlib.Data.Finset.Card
import Fingerprint.Matching.Comparison
import Fingerprint.Proofs.Double.Ratio
import Fingerprint.Proofs.Literal.Candidates
import Fingerprint.Proofs.TextOrder
/-!
# Overlaps as sizes of intersections and unions

The counts of an overlap are the sizes of the intersection and of the union of two bags.  For
functions these are bags of tokens, for literals sets of keys.
-/

namespace Fingerprint

/-- The counts of two ascending lists are the sizes of intersection and union of their bags. -/
theorem overlapCounts_eq {α : Type} [LinearOrder α] [BEq α] [LawfulBEq α] {lt : α → α → Bool}
    (hlt : ∀ x y, lt x y = decide (x < y)) {a b : List α} (ha : a.Pairwise (· ≤ ·))
    (hb : b.Pairwise (· ≤ ·)) :
    overlapCounts lt a b =
      (((a : Multiset α) ∩ (b : Multiset α)).card, ((a : Multiset α) ∪ (b : Multiset α)).card) := by
  have hcard := congrArg Multiset.card
    (Multiset.union_add_inter (a : Multiset α) (b : Multiset α))
  simp only [Multiset.card_add, Multiset.coe_card] at hcard
  rw [overlapCounts, Ascending.shared_eq_card_inter hlt ha hb]
  simp only [Prod.mk.injEq, true_and]
  omega

theorem overlapCounts_map {α β : Type} [BEq α] [BEq β] {f : α → β} {lt : α → α → Bool}
    {lt' : β → β → Bool} (hlt : ∀ x y, lt x y = lt' (f x) (f y))
    (hbeq : ∀ x y : α, (x == y) = (f x == f y)) (a b : List α) :
    overlapCounts lt a b = overlapCounts lt' (a.map f) (b.map f) := by
  rw [overlapCounts, overlapCounts, Ascending.shared_map hlt hbeq, List.length_map, List.length_map]

/-! ## Tokens -/

namespace Strictness

def tokenBag : Strictness → List String → Multiset String
  | loose, tokens => tokens.toFinset.val
  | strict, tokens => tokens

theorem pairwise_bag (strictness : Strictness) (tokens : List String) :
    (strictness.bag tokens).Pairwise (· ≤ ·) := by
  have hsorted := pairwise_sortTexts tokens
  cases strictness with
  | loose => exact (Ascending.pairwise_lt_dropRepeats hsorted).imp le_of_lt
  | strict => exact hsorted

theorem coe_bag (strictness : Strictness) (tokens : List String) :
    (strictness.bag tokens : Multiset String) = strictness.tokenBag tokens := by
  cases strictness with
  | loose =>
    have hset : (sortTexts tokens).toFinset = tokens.toFinset :=
      List.toFinset_eq_of_perm _ _ (List.mergeSort_perm _ _)
    exact (Ascending.coe_dropRepeats (pairwise_sortTexts tokens)).trans (congrArg _ hset)
  | strict => exact coe_sortTexts tokens

theorem length_bag (strictness : Strictness) (tokens : List String) :
    (strictness.bag tokens).length = (strictness.tokenBag tokens).card := by
  rw [← coe_bag, Multiset.coe_card]

theorem overlapCounts_bag (strictness : Strictness) (a b : List String) :
    overlapCounts textLt (strictness.bag a) (strictness.bag b) =
      ((strictness.tokenBag a ∩ strictness.tokenBag b).card,
        (strictness.tokenBag a ∪ strictness.tokenBag b).card) := by
  have htext : ∀ x y, textLt x y = decide (x < y) := fun _ _ => rfl
  rw [overlapCounts_eq htext (strictness.pairwise_bag a) (strictness.pairwise_bag b), coe_bag,
    coe_bag]

theorem mem_tokenBag {strictness : Strictness} {tokens : List String} {t : String} :
    t ∈ strictness.tokenBag tokens ↔ t ∈ tokens := by
  cases strictness with
  | loose => exact List.mem_toFinset
  | strict => exact Multiset.mem_coe

theorem card_tokenBag_le (strictness : Strictness) (tokens : List String) :
    (strictness.tokenBag tokens).card ≤ tokens.length := by
  cases strictness with
  | loose => exact List.toFinset_card_le tokens
  | strict => exact le_rfl

theorem card_inter_pos_iff {strictness : Strictness} {a b : List String} :
    0 < (strictness.tokenBag a ∩ strictness.tokenBag b).card ↔ ∃ t ∈ a, t ∈ b := by
  rw [Multiset.card_pos_iff_exists_mem]
  simp only [Multiset.mem_inter, mem_tokenBag]

theorem card_inter_le_card_union (a b : Multiset String) : (a ∩ b).card ≤ (a ∪ b).card :=
  Multiset.card_le_card (Multiset.inter_le_left.trans Multiset.le_union_left)

theorem card_inter_eq_card_union_iff {a b : Multiset String} :
    (a ∩ b).card = (a ∪ b).card ↔ a = b := by
  constructor
  · intro hcard
    have hle : a ∩ b ≤ a ∪ b := Multiset.inter_le_left.trans Multiset.le_union_left
    exact inf_eq_sup.1 (Multiset.eq_of_le_of_card_le hle hcard.ge)
  · rintro rfl
    exact congrArg Multiset.card (inf_eq_sup.2 rfl)

theorem card_union_le (strictness : Strictness) (a b : List String) :
    (strictness.tokenBag a ∪ strictness.tokenBag b).card ≤ a.length + b.length := by
  have hsum : (strictness.tokenBag a ∪ strictness.tokenBag b).card ≤
      (strictness.tokenBag a).card + (strictness.tokenBag b).card := by
    rw [← Multiset.card_add]
    exact Multiset.card_le_card (Multiset.union_le_add _ _)
  exact hsum.trans (Nat.add_le_add (strictness.card_tokenBag_le a) (strictness.card_tokenBag_le b))

end Strictness

/-! ## Literals -/

namespace Literal

theorem overlapCounts_ascending (unknown known : List Literal) :
    overlapCounts lt (ascending unknown) (ascending known) =
      ((keys unknown ∩ keys known).card, (keys unknown ∪ keys known).card) := by
  obtain ⟨hunknown, hunknownKeys⟩ := pairwise_map_sortKey_ascending unknown
  obtain ⟨hknown, hknownKeys⟩ := pairwise_map_sortKey_ascending known
  have hmap : overlapCounts lt (ascending unknown) (ascending known) =
      overlapCounts (fun x y => decide (x < y)) ((ascending unknown).map sortKey)
        ((ascending known).map sortKey) := overlapCounts_map lt_eq beq_eq _ _
  rw [hmap, overlapCounts_eq (fun _ _ => rfl) (hunknown.imp le_of_lt) (hknown.imp le_of_lt),
    hunknownKeys, hknownKeys, ← Finset.inter_val, ← Finset.union_val]
  rfl

theorem share_iff {unknown known : List Literal} :
    share unknown known = true ↔ (keys unknown ∩ keys known).Nonempty := by
  simp only [share, List.any_eq_true, Finset.Nonempty, Finset.mem_inter, keys, List.mem_toFinset,
    List.mem_map, beq_eq_decide_sortKey, decide_eq_true_iff]
  constructor
  · rintro ⟨l, hl, k, hk, heq⟩
    exact ⟨l.sortKey, ⟨l, hl, rfl⟩, k, hk, heq.symm⟩
  · rintro ⟨_, ⟨l, hl, rfl⟩, k, hk, heq⟩
    exact ⟨l, hl, k, hk, heq.symm⟩

theorem keys_nonempty {literals : List Literal} (h : literals ≠ []) : (keys literals).Nonempty := by
  obtain ⟨l, rest, rfl⟩ := List.exists_cons_of_ne_nil h
  exact ⟨l.sortKey, by simp [keys]⟩

end Literal

/-! ## Scores by literals -/

namespace Overlap

def total (measure : Overlap) (unknown known : List Literal) : Nat :=
  match measure with
  | jaccard => (Literal.keys unknown ∪ Literal.keys known).card
  | coverage => (Literal.keys unknown).card

theorem total_pos (measure : Overlap) {unknown : List Literal} (known : List Literal)
    (h : unknown ≠ []) : 0 < measure.total unknown known := by
  have hkeys := Literal.keys_nonempty h
  cases measure with
  | jaccard => exact Finset.card_pos.2 (hkeys.mono Finset.subset_union_left)
  | coverage => exact Finset.card_pos.2 hkeys

end Overlap

theorem Strategy.score_literals (measure : Overlap) (unknown library : Signature) :
    score (.literals measure) unknown library =
      .ofCounts (Literal.keys unknown.literals ∩ Literal.keys library.literals).card
        (measure.total unknown.literals library.literals) := by
  rw [score, Overlap.confidence, Literal.overlapCounts_ascending, Literal.length_ascending]
  cases measure <;> rfl

theorem Strategy.score_literals_num_pos (measure : Overlap) {unknown : Signature}
    (library : Signature) (h : unknown.literals ≠ []) :
    0 < (score (.literals measure) unknown library).num ↔
      Literal.share unknown.literals library.literals = true := by
  have htotal := measure.total_pos library.literals h
  rw [score_literals, Confidence.ofCounts, if_neg (by omega), Finset.card_pos, Literal.share_iff]

theorem Strategy.score_literals_eq_zero (measure : Overlap) {unknown library : Signature}
    (h : unknown.literals ≠ []) (hshare : Literal.share unknown.literals library.literals = false) :
    (score (.literals measure) unknown library).num = 0 ∧
      (score (.literals measure) unknown library).val = .zero := by
  have htotal := measure.total_pos library.literals h
  have hnum : (Literal.keys unknown.literals ∩ Literal.keys library.literals).card = 0 := by
    rw [Finset.card_eq_zero, ← Finset.not_nonempty_iff_eq_empty, ← Literal.share_iff, hshare]
    exact Bool.false_ne_true
  rw [score_literals, hnum, Confidence.ofCounts, if_neg (by omega)]
  exact ⟨rfl, Double.ofNat_zero_div htotal⟩

end Fingerprint
