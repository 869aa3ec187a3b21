import Mathlib.Algebra.Order.Field.Power
import Fingerprint.Proofs.Double.Nearest
import Fingerprint.Proofs.Double.Shortest
import Fingerprint.Proofs.Json.DecimalText
/-!
# Decimals are rounded once

A decimal is rounded to the nearest value.  Decimals far outside the range of values are not even
looked at, but zero and infinity are nearest to those.
-/

namespace Fingerprint.Decimal

open Double

def value (d : Decimal) : ℚ := d.coefficient * 10 ^ d.exponent

theorem value_eq (d : Decimal) :
    d.value = (d.coefficient * gridNum d.exponent : ℕ) / (gridDen d.exponent : ℕ) := by
  rw [value, gridNum, gridDen]
  split
  · have hexponent : d.exponent = -(d.exponent.natAbs : ℤ) := by omega
    rw [Nat.mul_one, tenPow_eq, Nat.cast_pow, div_eq_mul_inv]
    conv_lhs => rw [hexponent, zpow_neg, zpow_natCast]
    rfl
  · have hexponent : d.exponent = (d.exponent.natAbs : ℤ) := by omega
    rw [Nat.cast_mul, Nat.cast_one, div_one, tenPow_eq, Nat.cast_pow]
    conv_lhs => rw [hexponent, zpow_natCast]
    rfl

theorem pow_width_le {n : Nat} (hn : 0 < n) : 10 ^ (width n - 1) ≤ n := by
  by_contra hnot
  rcases Nat.eq_zero_or_pos (width n - 1) with hzero | hpos
  · rw [hzero, Nat.pow_zero] at hnot
    omega
  · have hle := width_le hpos (not_le.1 hnot)
    omega

/-! ## Out of reach -/

theorem twoPow_three_mul_le (n : Nat) : twoPow (3 * n) ≤ tenPow n := by
  rw [twoPow_eq, tenPow_eq, Nat.pow_mul]
  exact Nat.pow_le_pow_left (by omega) n

theorem twoPow_lt_tenPow : twoPow 1075 < tenPow 400 :=
  (twoPow_lt_twoPow (by omega)).trans_le (twoPow_three_mul_le 400)

theorem nearestRank_of_large {num den : Nat} (hden : 0 < den) (h : tenPow 400 * den ≤ num) :
    nearestRank (num * unitsPerOne) den = infinityRank := by
  apply le_antisymm (nearestRank_le_infinityRank _ _)
  rw [← nearestRank_units le_rfl]
  apply nearestRank_mono Nat.one_pos hden
  have hunits : units infinityRank ≤ tenPow 400 * unitsPerOne := by
    rw [units_infinityRank, unitsPerOne, show 2098 = 1024 + 1074 by rfl, twoPow_add]
    apply Nat.mul_le_mul_right
    exact (twoPow_le_twoPow (by omega)).trans twoPow_lt_tenPow.le
  calc units infinityRank * den ≤ tenPow 400 * unitsPerOne * den := Nat.mul_le_mul_right _ hunits
    _ = tenPow 400 * den * unitsPerOne := Nat.mul_right_comm _ _ _
    _ ≤ num * unitsPerOne := Nat.mul_le_mul_right _ h
    _ = num * unitsPerOne * 1 := (Nat.mul_one _).symm

theorem nearestRank_of_small {num den : Nat} (hnum : 0 < num) (h : tenPow 400 * num ≤ den) :
    nearestRank (num * unitsPerOne) den = 0 := by
  have hden : 0 < den := lt_of_lt_of_le (Nat.mul_pos (tenPow_pos 400) hnum) h
  rw [← Nat.le_zero, nearestRank_le_iff hden infinityRank_pos, middle_zero, Nat.one_mul]
  left
  calc 2 * (num * unitsPerOne) = twoPow 1075 * num := by
        rw [show 1075 = 1 + 1074 by rfl, twoPow_add, unitsPerOne, twoPow_eq 1]
        ring
    _ < tenPow 400 * num := Nat.mul_lt_mul_of_pos_right twoPow_lt_tenPow hnum
    _ ≤ den := h

theorem tenPow_le_tenPow {m n : Nat} (h : m ≤ n) : tenPow m ≤ tenPow n :=
  Nat.pow_le_pow_right (by omega) h

theorem tenPow_add (m n : Nat) : tenPow (m + n) = tenPow m * tenPow n := Nat.pow_add 10 m n

/-- A decimal whose digits all stand far behind the point. -/
theorem tenPow_mul_le_gridDen {d : Decimal} (hfar : d.exponent + width d.coefficient < -400) :
    tenPow 400 * (d.coefficient * gridNum d.exponent) ≤ gridDen d.exponent := by
  rw [gridNum, gridDen, if_pos (by omega), if_pos (by omega), Nat.mul_one]
  calc tenPow 400 * d.coefficient ≤ tenPow 400 * tenPow (width d.coefficient) :=
        Nat.mul_le_mul_left _ (lt_pow_width _).le
    _ = tenPow (400 + width d.coefficient) := (tenPow_add _ _).symm
    _ ≤ tenPow d.exponent.natAbs := tenPow_le_tenPow (by omega)

/-- A decimal whose first digit stands far before the point. -/
theorem tenPow_mul_gridDen_le {d : Decimal} (hpos : 0 < d.coefficient)
    (hfar : 400 < d.exponent + width d.coefficient) :
    tenPow 400 * gridDen d.exponent ≤ d.coefficient * gridNum d.exponent := by
  have hwidth := width_pos d.coefficient
  have hlead : tenPow (width d.coefficient - 1) ≤ d.coefficient := pow_width_le hpos
  rw [gridNum, gridDen]
  split
  · calc tenPow 400 * tenPow d.exponent.natAbs = tenPow (400 + d.exponent.natAbs) :=
          (tenPow_add _ _).symm
      _ ≤ tenPow (width d.coefficient - 1) := tenPow_le_tenPow (by omega)
      _ ≤ d.coefficient * 1 := by rwa [Nat.mul_one]
  · calc tenPow 400 * 1 = tenPow 400 := Nat.mul_one _
      _ ≤ tenPow (width d.coefficient - 1 + d.exponent.natAbs) := tenPow_le_tenPow (by omega)
      _ = tenPow (width d.coefficient - 1) * tenPow d.exponent.natAbs := tenPow_add _ _
      _ ≤ d.coefficient * tenPow d.exponent.natAbs := Nat.mul_le_mul_right _ hlead

/-- **A decimal is rounded once**, as the ratio that it is. -/
theorem toDouble_eq_ofRatio (negative : Bool) (d : Decimal) :
    d.toDouble negative =
      ofRatio negative (d.coefficient * gridNum d.exponent) (gridDen d.exponent) := by
  have hden := gridDen_pos d.exponent
  rw [toDouble]
  split
  · rename_i hsmall
    rcases Nat.eq_zero_or_pos d.coefficient with hzero | hpos
    · rw [hzero, Nat.zero_mul]
      exact ofRatio_congr negative Nat.one_pos hden (by rw [Nat.zero_mul, Nat.zero_mul])
    · have hrank := nearestRank_of_small (Nat.mul_pos hpos (gridNum_pos _))
        (tenPow_mul_le_gridDen (hsmall.resolve_left hpos.ne'))
      simp only [ofRatio, ofUnits, Nat.zero_mul, nearestRank_zero Nat.one_pos, hrank]
  · rename_i hnot
    have hpos : 0 < d.coefficient := Nat.pos_of_ne_zero fun hzero => hnot (.inl hzero)
    split
    · have hrank := nearestRank_of_large hden (tenPow_mul_gridDen_le hpos ‹_›)
      simp only [infinity, ofRatio, ofUnits, hrank]
    · rw [gridNum, gridDen]
      split
      · rw [Nat.mul_one]
      · rfl

theorem exists_toDouble_eq (d : Decimal) :
    ∃ rank bounded, d.toDouble false = .ranked false rank bounded ∧
      IsNearestRank d.value rank := by
  refine ⟨_, nearestRank_le_infinityRank _ _, toDouble_eq_ofRatio false d, ?_⟩
  rw [value_eq]
  exact isNearestRank_nearestRank _ (gridDen_pos _)

end Fingerprint.Decimal
