import Mathlib.Algebra.Order.Archimedean.Basic
import Mathlib.Data.Rat.Cast.Order
import Mathlib.Tactic.FieldSimp
import Fingerprint.Proofs.Double.Ratio
/-!
# Nearest values

What rounding to the nearest value means, said of numbers and without a word about how it is done.
A number is rounded to the magnitude at the least distance, and of two at the same distance to the
one of even rank.  Infinity stands where the next binade would begin.
-/

namespace Fingerprint.Double

def magnitude (rank : Nat) : ℚ := units rank / unitsPerOne

def rational? : Double → Option ℚ
  | ranked negative rank _ =>
    if rank < infinityRank then some (if negative then -magnitude rank else magnitude rank)
    else none
  | nan => none

structure IsNearestRank (q : ℚ) (rank : Nat) : Prop where
  bounded : rank ≤ infinityRank
  least : ∀ other ≤ infinityRank, |q - magnitude rank| ≤ |q - magnitude other|
  even : ∀ other ≤ infinityRank, other ≠ rank →
    |q - magnitude rank| = |q - magnitude other| → rank % 2 = 0

/-! ## Distances -/

theorem unitsPerOne_cast_pos : (0 : ℚ) < unitsPerOne := Nat.cast_pos.2 unitsPerOne_pos

@[simp] theorem magnitude_zero : magnitude 0 = 0 := by
  have hunits : (units 0 : ℚ) = 0 := by rw [units_zero, Nat.cast_zero]
  exact div_eq_zero_iff.2 (.inl hunits)

theorem magnitude_nonneg (rank : Nat) : 0 ≤ magnitude rank :=
  div_nonneg (Nat.cast_nonneg _) unitsPerOne_cast_pos.le

theorem strictMono_magnitude : StrictMono magnitude := fun _ _ h =>
  div_lt_div_of_pos_right (Nat.cast_lt.2 (strictMono_units h)) unitsPerOne_cast_pos

theorem abs_sub_le_abs_sub_iff {q a b : ℚ} (hab : a < b) :
    |q - a| ≤ |q - b| ↔ 2 * q ≤ a + b := by
  rcases abs_cases (q - a) with ⟨ha, ha'⟩ | ⟨ha, ha'⟩ <;>
    rcases abs_cases (q - b) with ⟨hb, hb'⟩ | ⟨hb, hb'⟩ <;>
      rw [ha, hb] <;> constructor <;> intro h <;> linarith

theorem abs_sub_le_abs_sub_iff' {q a b : ℚ} (hab : a < b) :
    |q - b| ≤ |q - a| ↔ a + b ≤ 2 * q := by
  rcases abs_cases (q - a) with ⟨ha, ha'⟩ | ⟨ha, ha'⟩ <;>
    rcases abs_cases (q - b) with ⟨hb, hb'⟩ | ⟨hb, hb'⟩ <;>
      rw [ha, hb] <;> constructor <;> intro h <;> linarith

theorem magnitude_add_magnitude (rank : Nat) :
    magnitude rank + magnitude (rank + 1) = middle rank / unitsPerOne := by
  rw [magnitude, magnitude, ← add_div, middle, Nat.cast_add]

/-- A number is rounded to at most a finite rank if it is less than the middle above the rank, or if
it is that middle and the rank is even. -/
theorem nearestRank_le_iff_rational {num den rank : Nat} (hden : 0 < den)
    (hrank : rank < infinityRank) :
    nearestRank (num * unitsPerOne) den ≤ rank ↔
      2 * (num / den : ℚ) < magnitude rank + magnitude (rank + 1) ∨
        2 * (num / den : ℚ) = magnitude rank + magnitude (rank + 1) ∧ rank % 2 = 0 := by
  have hden' : (0 : ℚ) < den := Nat.cast_pos.2 hden
  have hU := unitsPerOne_cast_pos
  have hquotient : 2 * (num / den : ℚ) =
      (2 * (num * unitsPerOne) : ℕ) / (den * unitsPerOne) := by
    push_cast
    field_simp
  have hmiddle : magnitude rank + magnitude (rank + 1) =
      (middle rank * den : ℕ) / (den * unitsPerOne) := by
    rw [magnitude_add_magnitude]
    push_cast
    field_simp
  have hpos : (0 : ℚ) < den * unitsPerOne := mul_pos hden' hU
  rw [nearestRank_le_iff hden hrank, hquotient, hmiddle, div_lt_div_iff_of_pos_right hpos,
    div_left_inj' hpos.ne', Nat.cast_lt, Nat.cast_inj]

section Rounded

variable {num den rank other : Nat}

/-- Up to the middle between the rank it is rounded to and one above a number may come, and just to
it if the rank is even. -/
theorem le_middle_of_nearestRank (hden : 0 < den)
    (hrank : nearestRank (num * unitsPerOne) den = rank) (hlt : rank < other)
    (hother : other ≤ infinityRank) :
    2 * (num / den : ℚ) ≤ magnitude rank + magnitude other ∧
      (2 * (num / den : ℚ) = magnitude rank + magnitude other → rank % 2 = 0) := by
  have hnext : magnitude (rank + 1) ≤ magnitude other := strictMono_magnitude.monotone hlt
  rcases (nearestRank_le_iff_rational hden (lt_of_lt_of_le hlt hother)).1 hrank.le with
    hless | ⟨heq, hparity⟩
  · exact ⟨by linarith, fun h => by linarith⟩
  · exact ⟨by linarith, fun _ => hparity⟩

/-- Down to the middle between the rank it is rounded to and one below a number may come, and just
to it if the rank is even. -/
theorem middle_le_of_nearestRank (hden : 0 < den)
    (hrank : nearestRank (num * unitsPerOne) den = rank) (hlt : other < rank) :
    magnitude other + magnitude rank ≤ 2 * (num / den : ℚ) ∧
      (2 * (num / den : ℚ) = magnitude other + magnitude rank → rank % 2 = 0) := by
  obtain ⟨below, rfl⟩ : ∃ below, rank = below + 1 := ⟨rank - 1, by omega⟩
  have hprev : magnitude other ≤ magnitude below :=
    strictMono_magnitude.monotone (Nat.le_of_lt_succ hlt)
  have hfinite : below < infinityRank := by
    have := nearestRank_le_infinityRank (num * unitsPerOne) den
    omega
  have hnot := mt (@nearestRank_le_iff_rational num den below hden hfinite).2 (by omega)
  rw [not_or, not_and, not_lt] at hnot
  refine ⟨by linarith [hnot.1], fun heq => ?_⟩
  have hodd := hnot.2 (le_antisymm (by linarith) hnot.1)
  omega

/-- **Rounding finds the nearest rank.** -/
theorem isNearestRank_nearestRank (num : Nat) {den : Nat} (hden : 0 < den) :
    IsNearestRank (num / den) (nearestRank (num * unitsPerOne) den) where
  bounded := nearestRank_le_infinityRank _ _
  least other hother := by
    rcases lt_trichotomy (nearestRank (num * unitsPerOne) den) other with hlt | heq | hgt
    · exact (abs_sub_le_abs_sub_iff (strictMono_magnitude hlt)).2
        (le_middle_of_nearestRank hden rfl hlt hother).1
    · rw [heq]
    · exact (abs_sub_le_abs_sub_iff' (strictMono_magnitude hgt)).2
        (middle_le_of_nearestRank hden rfl hgt).1
  even other hother hne heq := by
    rcases lt_or_gt_of_ne hne with hgt | hlt
    · obtain ⟨hle, heven⟩ := middle_le_of_nearestRank hden rfl hgt
      exact heven (le_antisymm ((abs_sub_le_abs_sub_iff (strictMono_magnitude hgt)).1 heq.ge) hle)
    · obtain ⟨hle, heven⟩ := le_middle_of_nearestRank hden rfl hlt hother
      exact heven (le_antisymm hle ((abs_sub_le_abs_sub_iff' (strictMono_magnitude hlt)).1 heq.ge))

theorem IsNearestRank.nearestRank_eq (h : IsNearestRank (num / den) rank) (hden : 0 < den) :
    nearestRank (num * unitsPerOne) den = rank := by
  obtain ⟨hbounded, hleast, heven⟩ := h
  apply le_antisymm
  · rcases Nat.eq_or_lt_of_le hbounded with rfl | hfinite
    · exact nearestRank_le_infinityRank _ _
    · have hlt := strictMono_magnitude (Nat.lt_add_one rank)
      have hle := (abs_sub_le_abs_sub_iff hlt).1 (hleast (rank + 1) hfinite)
      rw [nearestRank_le_iff_rational hden hfinite]
      refine (lt_or_eq_of_le hle).imp_right fun heq => ⟨heq, ?_⟩
      refine heven (rank + 1) hfinite (Nat.succ_ne_self rank) (le_antisymm ?_ ?_)
      · exact (abs_sub_le_abs_sub_iff hlt).2 heq.le
      · exact (abs_sub_le_abs_sub_iff' hlt).2 heq.ge
  · by_contra hnot
    obtain ⟨below, rfl⟩ : ∃ below, rank = below + 1 := ⟨rank - 1, by omega⟩
    have hlt := strictMono_magnitude (Nat.lt_add_one below)
    have hge := (abs_sub_le_abs_sub_iff' hlt).1 (hleast below (by omega))
    have hle : nearestRank (num * unitsPerOne) den ≤ below := by omega
    rcases (nearestRank_le_iff_rational hden (by omega)).1 hle with hless | ⟨heq, hparity⟩
    · linarith
    · have hparity' := heven below (by omega) (Nat.ne_of_lt (Nat.lt_add_one below))
        (le_antisymm ((abs_sub_le_abs_sub_iff' hlt).2 heq.ge)
          ((abs_sub_le_abs_sub_iff hlt).2 heq.le))
      omega

theorem isNearestRank_iff (hden : 0 < den) :
    IsNearestRank (num / den) rank ↔ nearestRank (num * unitsPerOne) den = rank := by
  constructor
  · exact fun h => h.nearestRank_eq hden
  · rintro rfl
    exact isNearestRank_nearestRank num hden

end Rounded

theorem isNearestRank_natCast_iff {n rank : Nat} :
    IsNearestRank n rank ↔ nearestRank (n * unitsPerOne) 1 = rank := by
  have hone : (n : ℚ) = n / (1 : ℕ) := by rw [Nat.cast_one, div_one]
  rw [hone, isNearestRank_iff Nat.one_pos]

theorem IsNearestRank.eq {q : ℚ} (hq : 0 ≤ q) {a b : Nat} (ha : IsNearestRank q a)
    (hb : IsNearestRank q b) : a = b := by
  have hratio : q = (q.num.toNat : ℚ) / q.den := by
    conv_lhs => rw [← Rat.num_div_den q, ← Int.toNat_of_nonneg (Rat.num_nonneg.2 hq)]
    rfl
  rw [hratio, isNearestRank_iff q.den_pos] at ha hb
  exact ha.symm.trans hb

end Fingerprint.Double
