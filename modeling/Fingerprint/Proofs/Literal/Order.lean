import Mathlib.Data.Finset.Card
import Mathlib.Data.Prod.Lex
import Fingerprint.Literal.Value
import Fingerprint.Proofs.Ascending
import Fingerprint.Proofs.Double.Rank
/-!
# The order of literals

Literals are ordered as their keys are: the text first, then numbers before texts, then the value.
Two literals are equal as the program compares them just when they have the same key, so that
lists of literals stand for sets of keys.
-/

namespace Fingerprint

namespace Double

theorem beq_eq_decide_key (x y : Double) : (x == y) = decide (x.key = y.key) := rfl

/-- A key tells values apart, but for the two zeros. -/
theorem eq_or_zeros_of_key_eq {x y : Double} (h : x.key = y.key) :
    x = y ∨ ∃ negative negative' bounded bounded',
      x = ranked negative 0 bounded ∧ y = ranked negative' 0 bounded' := by
  cases x with
  | nan =>
    cases y with
    | nan => exact .inl rfl
    | ranked negative rank bounded =>
      cases negative <;> simp only [key, if_true, Bool.false_eq_true, if_false] at h <;> omega
  | ranked negative rank bounded =>
    cases y with
    | nan =>
      cases negative <;> simp only [key, if_true, Bool.false_eq_true, if_false] at h <;> omega
    | ranked negative' rank' bounded' =>
      by_cases hsign : negative = negative'
      · subst hsign
        have hrank : rank = rank' := by
          cases negative <;> simp only [key, if_true, Bool.false_eq_true, if_false] at h <;> omega
        subst hrank
        exact .inl rfl
      · have hrank : rank = 0 ∧ rank' = 0 := by
          cases negative <;> cases negative' <;>
            simp only [key, if_true, Bool.false_eq_true, if_false, not_true_eq_false] at h hsign <;>
            omega
        obtain ⟨rfl, rfl⟩ := hrank
        exact .inr ⟨negative, negative', bounded, bounded', rfl, rfl⟩

theorem display_eq_of_key_eq {x y : Double} (h : x.key = y.key) : x.display = y.display := by
  have hzero : ∀ negative bounded, (ranked negative 0 bounded).display = "0" := by
    intro negative bounded
    rw [display, safeInteger?_zero]
    rfl
  rcases eq_or_zeros_of_key_eq h with rfl | ⟨negative, negative', bounded, bounded', rfl, rfl⟩
  · rfl
  · rw [hzero, hzero]

end Double

namespace Literal

def sortKey : Literal → String ×ₗ ℕ ×ₗ ℤ
  | number x => toLex (x.display, toLex (0, x.key))
  | text s => toLex (s, toLex (1, 0))

theorem compare_eq (a b : Literal) : compare a b = compare a.sortKey b.sortKey := by
  cases a <;> cases b <;> rfl

theorem lt_eq (a b : Literal) : lt a b = decide (a.sortKey < b.sortKey) := by
  rw [lt, compare_eq, Bool.eq_iff_iff, decide_eq_true_iff, ← compare_lt_iff_lt]
  exact Ordering.isLT_iff_eq_lt

theorem le_eq (a b : Literal) : le a b = decide (a.sortKey ≤ b.sortKey) := by
  rw [le, compare_eq, Bool.eq_iff_iff, decide_eq_true_iff, ← compare_le_iff_le]
  exact Ordering.isLE_iff_ne_gt

theorem beq_eq_decide_sortKey (a b : Literal) : (a == b) = decide (a.sortKey = b.sortKey) := by
  cases a with
  | number x =>
    cases b with
    | number y =>
      have hbeq : (number x == number y) = (x == y) := rfl
      rw [hbeq, Double.beq_eq_decide_key, decide_eq_decide]
      constructor
      · intro h
        simp only [sortKey, h, Double.display_eq_of_key_eq h]
      · intro h
        have hvalue := congrArg (fun k => (ofLex (ofLex k).2).2) h
        exact hvalue
    | text t =>
      have hne : (number x).sortKey ≠ (text t).sortKey := by simp [sortKey]
      rw [decide_eq_false hne]
      rfl
  | text s =>
    cases b with
    | number y =>
      have hne : (text s).sortKey ≠ (number y).sortKey := by simp [sortKey]
      rw [decide_eq_false hne]
      rfl
    | text t =>
      have hbeq : (text s == text t) = (s == t) := rfl
      rw [hbeq, Bool.eq_iff_iff, beq_iff_eq, decide_eq_true_iff]
      simp [sortKey]

theorem beq_eq (a b : Literal) : (a == b) = (a.sortKey == b.sortKey) := by
  rw [beq_eq_decide_sortKey, Bool.eq_iff_iff, decide_eq_true_iff, beq_iff_eq]

instance : Std.TransOrd Literal where
  eq_swap := by
    intro a b
    rw [compare_eq a b, compare_eq b a]
    exact Std.OrientedCmp.eq_swap
  isLE_trans := by
    intro a b c
    rw [compare_eq a b, compare_eq b c, compare_eq a c]
    exact Std.TransCmp.isLE_trans

instance : Std.LawfulBEqOrd Literal where
  compare_eq_iff_beq := by
    intro a b
    rw [compare_eq, beq_eq_decide_sortKey, decide_eq_true_iff]
    exact compare_eq_iff_eq

/-! ## Ascending lists -/

def keys (literals : List Literal) : Finset (String ×ₗ ℕ ×ₗ ℤ) := (literals.map sortKey).toFinset

theorem map_sortKey_ascending (literals : List Literal) :
    (ascending literals).map sortKey =
      Ascending.dropRepeats ((literals.map sortKey).mergeSort fun x y => decide (x ≤ y)) := by
  have hsort : (literals.mergeSort le).map sortKey =
      (literals.map sortKey).mergeSort fun x y => decide (x ≤ y) :=
    List.map_mergeSort fun a _ b _ => le_eq a b
  rw [ascending, Ascending.map_dropRepeats beq_eq, hsort]

theorem pairwise_map_sortKey_ascending (literals : List Literal) :
    ((ascending literals).map sortKey).Pairwise (· < ·) ∧
      ((ascending literals).map sortKey : Multiset (String ×ₗ ℕ ×ₗ ℤ)) = (keys literals).val := by
  have hsorted : ((literals.map sortKey).mergeSort fun x y => decide (x ≤ y)).Pairwise (· ≤ ·) := by
    have hpair : ((literals.map sortKey).mergeSort fun x y => decide (x ≤ y)).Pairwise
        fun x y => decide (x ≤ y) = true :=
      List.pairwise_mergeSort (fun a b c => by simpa using le_trans)
        (fun a b => by simpa using le_total a b) _
    exact hpair.imp fun hle => by simpa using hle
  rw [map_sortKey_ascending]
  refine ⟨Ascending.pairwise_lt_dropRepeats hsorted, ?_⟩
  rw [Ascending.coe_dropRepeats hsorted, keys]
  congr 1
  exact List.toFinset_eq_of_perm _ _ (List.mergeSort_perm _ _)

theorem length_ascending (literals : List Literal) :
    (ascending literals).length = (keys literals).card := by
  rw [← List.length_map sortKey, ← Multiset.coe_card,
    (pairwise_map_sortKey_ascending literals).2]
  rfl

theorem pairwise_lt_ascending (literals : List Literal) :
    (ascending literals).Pairwise fun a b => lt a b = true := by
  have hkeys := (pairwise_map_sortKey_ascending literals).1
  rw [List.pairwise_map] at hkeys
  exact hkeys.imp fun h => by rwa [lt_eq, decide_eq_true_iff]

end Literal

end Fingerprint
