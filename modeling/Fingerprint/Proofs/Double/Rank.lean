import Mathlib.Algebra.Group.Nat.Defs
import Mathlib.Tactic.Common
import Fingerprint.Double.Basic
/-!
# Ranks and magnitudes
-/

namespace Fingerprint

theorem twoPow_eq (n : Nat) : twoPow n = 2 ^ n := rfl

theorem tenPow_eq (n : Nat) : tenPow n = 10 ^ n := rfl

theorem twoPow_pos (n : Nat) : 0 < twoPow n := Nat.two_pow_pos n

theorem tenPow_pos (n : Nat) : 0 < tenPow n := Nat.pow_pos (by omega)

theorem twoPow_add (m n : Nat) : twoPow (m + n) = twoPow m * twoPow n := Nat.pow_add 2 m n

theorem twoPow_le_twoPow {m n : Nat} (h : m ≤ n) : twoPow m ≤ twoPow n :=
  Nat.pow_le_pow_right (by omega) h

theorem twoPow_lt_twoPow {m n : Nat} (h : m < n) : twoPow m < twoPow n :=
  Nat.pow_lt_pow_right (by omega) h

namespace Double

theorem unitsPerOne_pos : 0 < unitsPerOne := twoPow_pos 1074

theorem infinityRank_pos : 0 < infinityRank := Nat.mul_pos (by omega) (twoPow_pos 52)

@[simp] theorem units_zero : units 0 = 0 := by
  rw [units, mantissa, if_pos (twoPow_pos 52), Nat.zero_mul]

theorem safeInteger?_zero (negative : Bool) (bounded : 0 ≤ infinityRank) :
    (ranked negative 0 bounded).safeInteger? = some 0 := by
  have hcond : 0 < infinityRank ∧ units 0 % unitsPerOne = 0 ∧
      units 0 / unitsPerOne < twoPow 53 := by
    rw [units_zero, Nat.zero_mod, Nat.zero_div]
    exact ⟨infinityRank_pos, rfl, twoPow_pos 53⟩
  rw [safeInteger?, if_pos hcond, units_zero, Nat.zero_div]
  cases negative <;> rfl

end Double

end Fingerprint
