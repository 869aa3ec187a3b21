import Fingerprint.Double.Decimal
import Fingerprint.Proofs.Double.Rounding
/-!
# Shortest decimals

The search for the decimal of fewest digits goes over ever finer grids.  It starts on a grid that is
coarser than the numbers that round to the rank, and among the grids that it tries is one that is
finer, which has a point there.  So the search ends with a decimal that rounds to the rank, and the
first grid on which it finds one is not so fine that the digits would not fit 64 bits.
-/

namespace Fingerprint.Double

/-! ## Grids -/

theorem gridNum_pos (k : Int) : 0 < gridNum k := by
  rw [gridNum]
  split
  · exact Nat.one_pos
  · exact tenPow_pos _

theorem gridDen_pos (k : Int) : 0 < gridDen k := by
  rw [gridDen]
  split
  · exact tenPow_pos _
  · exact Nat.one_pos

theorem grid_succ (k : Int) : gridNum (k + 1) * gridDen k = 10 * (gridNum k * gridDen (k + 1)) := by
  rw [gridNum, gridNum, gridDen, gridDen]
  rcases lt_trichotomy k (-1) with hlt | rfl | hgt
  · have hpred : k.natAbs = (k + 1).natAbs + 1 := by omega
    rw [if_pos (by omega), if_pos (by omega), if_pos (by omega), if_pos (by omega), hpred,
      tenPow_eq, tenPow_eq, Nat.pow_succ]
    ring
  · decide
  · have hsucc : (k + 1).natAbs = k.natAbs + 1 := by omega
    rw [if_neg (by omega), if_neg (by omega), if_neg (by omega), if_neg (by omega), hsucc,
      tenPow_eq, tenPow_eq, Nat.pow_succ]
    ring

/-- Whether the point `n` of a grid rounds to a rank. -/
def RoundsTo (n : Nat) (k : Int) (rank : Nat) : Prop :=
  nearestRank (n * gridNum k * unitsPerOne) (gridDen k) = rank

/-- Whether a grid is at least as coarse as the numbers that round to a rank. -/
def Coarse (rank : Nat) (k : Int) : Prop :=
  2 ^ scale rank * gridDen k ≤ gridNum k * (2 * unitsPerOne)

/-! ## The interval of a rank -/

theorem interval_snd (rank : Nat) : (interval rank).2 = 2 * middle rank := by
  rw [interval, middle, units_succ]
  simp only [twoPow_eq]
  omega

theorem interval_fst (rank : Nat) : (interval (rank + 1)).1 = 2 * middle rank := by
  rw [interval, middle, units_succ]
  by_cases hfirst : (rank + 1) % twoPow 52 = 0 ∧ twoPow 53 ≤ rank + 1
  · have hscale : scale (rank + 1) = scale rank + 1 := by
      rw [twoPow_eq, twoPow_eq] at hfirst
      rw [scale_eq, scale_eq]
      omega
    rw [if_pos hfirst, hscale, twoPow_eq, Nat.pow_succ]
    omega
  · have hscale : scale (rank + 1) = scale rank := by
      rw [twoPow_eq, twoPow_eq] at hfirst
      rw [scale_eq, scale_eq]
      omega
    rw [if_neg hfirst, hscale, twoPow_eq]
    omega

theorem isInside_iff {rank : Nat} (hpos : 0 < rank) (hfinite : rank < infinityRank) (k : Int)
    (n : Nat) : isInside rank k n = true ↔ RoundsTo n k rank := by
  obtain ⟨below, rfl⟩ : ∃ below, rank = below + 1 := ⟨rank - 1, by omega⟩
  have habove : nearestRank (n * gridNum k * unitsPerOne) (gridDen k) ≤ below + 1 ↔ _ :=
    nearestRank_le_iff (gridDen_pos k) hfinite
  have hbelow : nearestRank (n * gridNum k * unitsPerOne) (gridDen k) ≤ below ↔ _ :=
    nearestRank_le_iff (gridDen_pos k) (by omega)
  have hpoint : n * (gridNum k * (4 * unitsPerOne)) = 4 * (n * gridNum k * unitsPerOne) := by ring
  rw [RoundsTo, isInside, interval_fst, interval_snd, hpoint, Nat.mul_assoc 2 (middle below),
    Nat.mul_assoc 2 (middle (below + 1))]
  set point := n * gridNum k * unitsPerOne
  set low := middle below * gridDen k
  set high := middle (below + 1) * gridDen k
  split
  · rw [decide_eq_true_iff]
    omega
  · rw [decide_eq_true_iff]
    omega

/-! ## One grid -/

/-- What is found on a grid rounds to the rank, and is one of the neighbours of the magnitude. -/
theorem roundsTo_of_onGrid? {tie : TieRule} {rank : Nat} (hpos : 0 < rank)
    (hfinite : rank < infinityRank) {k : Int} {n : Nat} (h : onGrid? tie rank k = some n) :
    RoundsTo n k rank ∧ n ≤ 4 * units rank * gridDen k / (gridNum k * (4 * unitsPerOne)) + 1 := by
  rw [onGrid?] at h
  rw [← isInside_iff hpos hfinite]
  generalize 4 * units rank * gridDen k / (gridNum k * (4 * unitsPerOne)) = floor at h ⊢
  split at h
  · rename_i hfloor hnext
    split at h
    · cases h
      exact ⟨hnext, le_rfl⟩
    · cases h
      exact ⟨hfloor, Nat.le_succ _⟩
  · rename_i hfloor hnext
    cases h
    exact ⟨hfloor, Nat.le_succ _⟩
  · rename_i hfloor hnext
    cases h
    exact ⟨hnext, le_rfl⟩
  · cases h

/-- On a grid that is finer than the numbers that round to the rank something is found: the first
point above the magnitude. -/
theorem coarse_of_onGrid?_eq_none {tie : TieRule} {rank : Nat} (hpos : 0 < rank)
    (hfinite : rank < infinityRank) {k : Int} (h : onGrid? tie rank k = none) : Coarse rank k := by
  by_contra hfine
  rw [Coarse, not_le] at hfine
  set grid := gridNum k * (4 * unitsPerOne) with hgrid
  set value := 4 * units rank * gridDen k with hvalue
  have hgridPos : 0 < grid :=
    Nat.mul_pos (gridNum_pos k) (Nat.mul_pos (by omega) unitsPerOne_pos)
  have hsplit := Nat.div_add_mod value grid
  have hrest := Nat.mod_lt value hgridPos
  have hinside : isInside rank k (value / grid + 1) = true := by
    obtain ⟨below, rfl⟩ : ∃ below, rank = below + 1 := ⟨rank - 1, by omega⟩
    have hpoint : (value / grid + 1) * grid = grid * (value / grid) + grid := by ring
    have hhigh : 2 * middle (below + 1) * gridDen k =
        value + 2 * (2 ^ scale (below + 1) * gridDen k) := by
      rw [middle, units_succ (below + 1), hvalue]
      ring
    have hlow : 2 * middle below * gridDen k < value := by
      rw [hvalue, middle]
      apply Nat.mul_lt_mul_of_pos_right _ (gridDen_pos k)
      have hnext := units_lt_succ below
      omega
    have hgridFine : grid < 2 * (2 ^ scale (below + 1) * gridDen k) := by
      have hdouble : grid = 2 * (gridNum k * (2 * unitsPerOne)) := by rw [hgrid]; ring
      omega
    rw [isInside, interval_fst, interval_snd, ← hgrid, hpoint, hhigh]
    split
    · rw [decide_eq_true_iff]
      omega
    · rw [decide_eq_true_iff]
      omega
  rw [onGrid?] at h
  simp only [← hgrid, ← hvalue, hinside] at h
  split at h <;> simp_all

/-- The first grid on which something is found is not so fine that it would not fit 64 bits. -/
theorem lt_of_onGrid? {tie : TieRule} {rank : Nat} (hpos : 0 < rank)
    (hfinite : rank < infinityRank) {k : Int} (hcoarse : Coarse rank (k + 1)) {n : Nat}
    (h : onGrid? tie rank k = some n) : n < twoPow 64 := by
  have hle := (roundsTo_of_onGrid? hpos hfinite h).2
  have hgridPos : 0 < gridNum k * (4 * unitsPerOne) :=
    Nat.mul_pos (gridNum_pos k) (Nat.mul_pos (by omega) unitsPerOne_pos)
  have hmantissa := mantissa_lt rank
  -- A tenth of a coarse grid is at least a tenth of a step, and the magnitude is a 53-bit number
  -- of steps.
  have hstep : 2 ^ scale rank * gridDen k ≤ 10 * (gridNum k * (2 * unitsPerOne)) := by
    have hscaled := Nat.mul_le_mul_right (gridDen k) hcoarse
    have hnext := grid_succ k
    have hleft : 2 ^ scale rank * gridDen (k + 1) * gridDen k =
        2 ^ scale rank * gridDen k * gridDen (k + 1) := by ring
    have hright : gridNum (k + 1) * (2 * unitsPerOne) * gridDen k =
        10 * (gridNum k * (2 * unitsPerOne)) * gridDen (k + 1) := by
      calc gridNum (k + 1) * (2 * unitsPerOne) * gridDen k
          = gridNum (k + 1) * gridDen k * (2 * unitsPerOne) := by ring
        _ = 10 * (gridNum k * gridDen (k + 1)) * (2 * unitsPerOne) := by rw [hnext]
        _ = 10 * (gridNum k * (2 * unitsPerOne)) * gridDen (k + 1) := by ring
    rw [hleft, hright] at hscaled
    exact Nat.le_of_mul_le_mul_right hscaled (gridDen_pos (k + 1))
  have hquotient : 4 * units rank * gridDen k / (gridNum k * (4 * unitsPerOne)) ≤ 20 * 2 ^ 53 := by
    apply Nat.div_le_of_le_mul
    calc 4 * units rank * gridDen k = 4 * mantissa rank * (2 ^ scale rank * gridDen k) := by
          rw [units, twoPow_eq]
          ring
      _ ≤ 4 * mantissa rank * (10 * (gridNum k * (2 * unitsPerOne))) := Nat.mul_le_mul_left _ hstep
      _ ≤ 4 * 2 ^ 53 * (10 * (gridNum k * (2 * unitsPerOne))) :=
        Nat.mul_le_mul_right _ (Nat.mul_le_mul_left 4 hmantissa.le)
      _ = gridNum k * (4 * unitsPerOne) * (20 * 2 ^ 53) := by ring
  rw [twoPow_eq]
  omega

/-! ## The first and the last grid -/

theorem twoPow_le_tenPow {a m : Nat} (h : 28 * a ≤ 93 * m) : twoPow a ≤ tenPow m := by
  have hbase : 2 ^ 93 ≤ 10 ^ 28 := by norm_num
  rw [twoPow_eq, tenPow_eq, ← Nat.pow_le_pow_iff_left (n := 28) (by omega)]
  calc (2 ^ a) ^ 28 = 2 ^ (28 * a) := by rw [← Nat.pow_mul, Nat.mul_comm]
    _ ≤ 2 ^ (93 * m) := Nat.pow_le_pow_right (by omega) h
    _ = (2 ^ 93) ^ m := Nat.pow_mul ..
    _ ≤ (10 ^ 28) ^ m := Nat.pow_le_pow_left hbase m
    _ = (10 ^ m) ^ 28 := by rw [← Nat.pow_mul, ← Nat.pow_mul, Nat.mul_comm]

theorem tenPow_le_twoPow {m a : Nat} (h : 10 * m ≤ 3 * a) : tenPow m ≤ twoPow a := by
  have hbase : 10 ^ 3 ≤ 2 ^ 10 := by norm_num
  rw [twoPow_eq, tenPow_eq, ← Nat.pow_le_pow_iff_left (n := 3) (by omega)]
  calc (10 ^ m) ^ 3 = (10 ^ 3) ^ m := by rw [← Nat.pow_mul, ← Nat.pow_mul, Nat.mul_comm]
    _ ≤ (2 ^ 10) ^ m := Nat.pow_le_pow_left hbase m
    _ = 2 ^ (10 * m) := (Nat.pow_mul ..).symm
    _ ≤ 2 ^ (3 * a) := Nat.pow_le_pow_right (by omega) h
    _ = (2 ^ a) ^ 3 := by rw [← Nat.pow_mul, Nat.mul_comm]

theorem two_mul_unitsPerOne : 2 * unitsPerOne = twoPow 1075 := by
  have hone : 2 = twoPow 1 := rfl
  rw [unitsPerOne, hone, ← twoPow_add]

theorem log2_lt_of_lt {n k : Nat} (hn : n ≠ 0) (h : n < twoPow k) : Nat.log2 n < k :=
  (Nat.log2_lt hn).2 h

theorem log2_units_bounds {rank : Nat} (hpos : 0 < rank) (hfinite : rank < infinityRank) :
    scale rank ≤ Nat.log2 (units rank) ∧ Nat.log2 (units rank) ≤ scale rank + 52 ∧
      Nat.log2 (units rank) < 2098 := by
  have hunits : units rank ≠ 0 := by
    have hlt := strictMono_units hpos
    rw [units_zero] at hlt
    omega
  have hpow := Nat.two_pow_pos (scale rank)
  refine ⟨?_, ?_, ?_⟩
  · rw [Nat.le_log2 hunits, units, twoPow_eq]
    apply Nat.le_mul_of_pos_left
    rw [units] at hunits
    exact Nat.pos_of_ne_zero (left_ne_zero_of_mul hunits)
  · rw [← Nat.lt_succ_iff, Nat.log2_lt hunits, units, twoPow_eq]
    calc mantissa rank * 2 ^ scale rank < 2 ^ 53 * 2 ^ scale rank :=
          Nat.mul_lt_mul_of_pos_right (mantissa_lt rank) hpow
      _ = 2 ^ (scale rank + 52 + 1) := by
        rw [← Nat.pow_add]
        congr 1
        omega
  · exact log2_lt_of_lt hunits (lt_infinityRank_iff.1 hfinite)

/-- Where the search starts: about the power of ten of the magnitude. -/
def firstGrid (rank : Nat) : Int := ((Nat.log2 (units rank) : Int) - 1073) * 30103 / 100000 + 1

theorem coarse_firstGrid {rank : Nat} (hpos : 0 < rank) (hfinite : rank < infinityRank) :
    Coarse rank (firstGrid rank + 1) := by
  obtain ⟨hscale, -, hbound⟩ := log2_units_bounds hpos hfinite
  rw [Coarse, two_mul_unitsPerOne, ← twoPow_eq]
  have hgrid : firstGrid rank + 1 =
      ((Nat.log2 (units rank) : Int) - 1073) * 30103 / 100000 + 2 := by
    rw [firstGrid]
    omega
  generalize firstGrid rank + 1 = k at hgrid ⊢
  rw [gridDen, gridNum]
  by_cases hk : k < 0
  · rw [if_pos hk, if_pos hk, Nat.one_mul]
    calc twoPow (scale rank) * tenPow k.natAbs
        ≤ twoPow (scale rank) * twoPow (1075 - scale rank) :=
          Nat.mul_le_mul_left _ (tenPow_le_twoPow (by omega))
      _ = twoPow 1075 := by
        rw [← twoPow_add]
        congr 1
        omega
  · rw [if_neg hk, if_neg hk, Nat.mul_one]
    calc twoPow (scale rank) ≤ twoPow ((scale rank - 1075) + 1075) := twoPow_le_twoPow (by omega)
      _ = twoPow (scale rank - 1075) * twoPow 1075 := twoPow_add _ _
      _ ≤ tenPow k.natAbs * twoPow 1075 :=
        Nat.mul_le_mul_right _ (twoPow_le_tenPow (by omega))

theorem not_coarse_lastGrid {rank : Nat} (hpos : 0 < rank) (hfinite : rank < infinityRank) :
    ¬Coarse rank (firstGrid rank - 20) := by
  obtain ⟨-, hscale, hbound⟩ := log2_units_bounds hpos hfinite
  rw [Coarse, two_mul_unitsPerOne, ← twoPow_eq, not_le]
  have hgrid : firstGrid rank - 20 =
      ((Nat.log2 (units rank) : Int) - 1073) * 30103 / 100000 - 19 := by
    rw [firstGrid]
    omega
  generalize firstGrid rank - 20 = k at hgrid ⊢
  rw [gridDen, gridNum]
  by_cases hk : k < 0
  · rw [if_pos hk, if_pos hk, Nat.one_mul]
    calc twoPow 1075 < twoPow (scale rank + (1076 - scale rank)) := twoPow_lt_twoPow (by omega)
      _ = twoPow (scale rank) * twoPow (1076 - scale rank) := twoPow_add _ _
      _ ≤ twoPow (scale rank) * tenPow k.natAbs :=
        Nat.mul_le_mul_left _ (twoPow_le_tenPow (by omega))
  · rw [if_neg hk, if_neg hk, Nat.mul_one]
    calc tenPow k.natAbs * twoPow 1075 ≤ twoPow (scale rank - 1076) * twoPow 1075 :=
          Nat.mul_le_mul_right _ (tenPow_le_twoPow (by omega))
      _ = twoPow (scale rank - 1076 + 1075) := (twoPow_add _ _).symm
      _ < twoPow (scale rank) := twoPow_lt_twoPow (by omega)

/-! ## The search -/

theorem shortestFrom_spec (tie : TieRule) {rank : Nat} (hpos : 0 < rank)
    (hfinite : rank < infinityRank) (fuel : Nat) :
    ∀ k : Int, Coarse rank (k + 1) → ¬Coarse rank (k + 1 - fuel) →
      let d := shortestFrom tie rank k fuel
      RoundsTo d.coefficient d.exponent rank ∧ d.coefficient < twoPow 64 ∧
        k - fuel < d.exponent ∧ d.exponent ≤ k := by
  induction fuel with
  | zero =>
    intro k hcoarse hfine
    rw [Nat.cast_zero, Int.sub_zero] at hfine
    exact absurd hcoarse hfine
  | succ fuel ih =>
    intro k hcoarse hfine
    cases hgrid : onGrid? tie rank k with
    | some n =>
      have hfound : shortestFrom tie rank k (fuel + 1) = ⟨n, k⟩ := by rw [shortestFrom, hgrid]
      rw [hfound]
      refine ⟨(roundsTo_of_onGrid? hpos hfinite hgrid).1, lt_of_onGrid? hpos hfinite hcoarse hgrid,
        ?_, le_rfl⟩
      push_cast
      omega
    | none =>
      have hfiner : shortestFrom tie rank k (fuel + 1) = shortestFrom tie rank (k - 1) fuel := by
        rw [shortestFrom, hgrid]
      have hnext : Coarse rank (k - 1 + 1) := by
        rw [Int.sub_add_cancel]
        exact coarse_of_onGrid?_eq_none hpos hfinite hgrid
      obtain ⟨hrounds, hfit, hlow, hhigh⟩ := ih (k - 1) hnext (by
        rwa [show k - 1 + 1 - (fuel : Int) = k + 1 - ((fuel + 1 : Nat) : Int) by push_cast; omega])
      rw [hfiner]
      refine ⟨hrounds, hfit, ?_, by omega⟩
      push_cast
      omega

/-- **Shortest decimals round back.**  The shortest decimal of a positive finite rank rounds to it,
and its digits fit 64 bits. -/
theorem shortest_spec (tie : TieRule) {rank : Nat} (hpos : 0 < rank)
    (hfinite : rank < infinityRank) :
    RoundsTo (shortest tie rank).coefficient (shortest tie rank).exponent rank ∧
      (shortest tie rank).coefficient < twoPow 64 ∧
      (shortest tie rank).exponent.natAbs ≤ 345 := by
  obtain ⟨-, -, hbound⟩ := log2_units_bounds hpos hfinite
  have hfine : ¬Coarse rank (firstGrid rank + 1 - (21 : Nat)) := by
    rw [show firstGrid rank + 1 - ((21 : Nat) : Int) = firstGrid rank - 20 by push_cast; omega]
    exact not_coarse_lastGrid hpos hfinite
  obtain ⟨hrounds, hfit, hlow, hhigh⟩ :=
    shortestFrom_spec tie hpos hfinite 21 (firstGrid rank) (coarse_firstGrid hpos hfinite) hfine
  have hshortest : shortest tie rank = shortestFrom tie rank (firstGrid rank) 21 :=
    if_neg (ne_of_gt hpos)
  rw [hshortest]
  refine ⟨hrounds, hfit, ?_⟩
  have hfirst : firstGrid rank =
      ((Nat.log2 (units rank) : Int) - 1073) * 30103 / 100000 + 1 := rfl
  push_cast at hlow
  omega

theorem coefficient_pos {rank : Nat} (hpos : 0 < rank) {n : Nat} {k : Int}
    (h : RoundsTo n k rank) : 0 < n := by
  rw [Nat.pos_iff_ne_zero]
  rintro rfl
  rw [RoundsTo, Nat.zero_mul, Nat.zero_mul, nearestRank_zero (gridDen_pos k)] at h
  omega

end Fingerprint.Double
