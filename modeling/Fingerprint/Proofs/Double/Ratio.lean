import Fingerprint.Proofs.Double.Rounding
/-!
# Ratios of counts

Dividing counts rounds their ratio once.  Ratios of at most one out of fewer than `2 ^ 26` compare
as values as they do exactly, because they lie farther apart than neighbouring values.
-/

namespace Fingerprint.Double

theorem div_ranked {x y : Nat} {hx : x ≤ infinityRank} {hy : y ≤ infinityRank}
    (hxfinite : x < infinityRank) (hyfinite : y < infinityRank) (hpos : 0 < units y) :
    ranked false x hx / ranked false y hy = ofRatio false (units x) (units y) := by
  have hy0 : y ≠ 0 := by
    rintro rfl
    rw [units_zero] at hpos
    exact lt_irrefl 0 hpos
  change div (ranked false x hx) (ranked false y hy) = _
  rw [div, if_neg (ne_of_lt hxfinite), if_neg (ne_of_lt hyfinite), if_neg hy0, bne_self_eq_false]

theorem ofRatio_congr (negative : Bool) {num den num' den' : Nat} (hden : 0 < den)
    (hden' : 0 < den') (heq : num * den' = num' * den) :
    ofRatio negative num den = ofRatio negative num' den' := by
  have hround : nearestRank (num * unitsPerOne) den = nearestRank (num' * unitsPerOne) den' := by
    apply nearestRank_congr hden hden'
    rw [Nat.mul_right_comm, heq, Nat.mul_right_comm]
  simp only [ofRatio, ofUnits, hround]

theorem ofNat_div_ofNat_mul {a m k : Nat} (ha : a < 2 ^ 53) (hm : m < 2 ^ 53) (hk : k ≤ 971)
    (hpos : 0 < m) : ofNat a / ofNat (m * twoPow k) = ofRatio false a (m * twoPow k) := by
  obtain ⟨x, hx, hofa, hxfinite, hxunits⟩ := exists_ofNat_eq ha
  obtain ⟨y, hy, hofb, hyfinite, hyunits⟩ := exists_ofNat_mul_eq hm hk
  have hden : 0 < m * twoPow k := Nat.mul_pos hpos (twoPow_pos k)
  have hunits : 0 < units y := by
    rw [hyunits]
    exact Nat.mul_pos hden unitsPerOne_pos
  rw [hofa, hofb, div_ranked hxfinite hyfinite hunits]
  apply ofRatio_congr false hunits hden
  rw [hxunits, hyunits]
  ring

/-- Counts of 53 bits are divided exactly, but for one rounding. -/
theorem ofNat_div_ofNat {a b : Nat} (ha : a < 2 ^ 53) (hb : b < 2 ^ 53) (hpos : 0 < b) :
    ofNat a / ofNat b = ofRatio false a b := by
  have hone : b * twoPow 0 = b := Nat.mul_one b
  have h := ofNat_div_ofNat_mul ha hb (Nat.zero_le 971) hpos
  rwa [hone] at h

theorem ofRatio_zero {den : Nat} (hden : 0 < den) : ofRatio false 0 den = zero := by
  simp only [ofRatio, ofUnits, zero, Nat.zero_mul, nearestRank_zero hden]

theorem zero_div {y : Nat} {hy : y ≤ infinityRank} (hpos : y ≠ 0) :
    ranked false 0 (Nat.zero_le _) / ranked false y hy = zero := by
  change div (ranked false 0 _) (ranked false y hy) = _
  rw [div, if_neg (ne_of_lt infinityRank_pos), if_neg hpos, bne_self_eq_false, units_zero]
  split
  · rfl
  · exact ofRatio_zero (units_zero ▸ strictMono_units (Nat.pos_of_ne_zero hpos))

theorem ofNat_zero_div {b : Nat} (hpos : 0 < b) : ofNat 0 / ofNat b = zero := by
  have hrank : nearestRank (b * unitsPerOne) 1 ≠ 0 := by
    intro hzero
    have hbU : 0 < b * unitsPerOne := Nat.mul_pos hpos unitsPerOne_pos
    have hle := (nearestRank_le_iff Nat.one_pos infinityRank_pos).1 hzero.le
    rw [middle_zero] at hle
    omega
  have hzero : ofNat 0 = ranked false 0 (Nat.zero_le _) := ofRatio_zero Nat.one_pos
  rw [hzero]
  exact zero_div hrank

/-! ## Ratios of small counts -/

theorem exists_units_eq_one : ∃ one < infinityRank, units one = unitsPerOne := by
  obtain ⟨one, hunits⟩ := exists_units_eq (m := 1) (by norm_num) 1074
  rw [Nat.one_mul] at hunits
  refine ⟨one, ?_, hunits⟩
  rw [lt_infinityRank_iff, hunits]
  exact twoPow_lt_twoPow (by omega)

theorem twoPow_lt_unitsPerOne : 2 ^ 52 < unitsPerOne :=
  twoPow_lt_twoPow (m := 52) (by omega)

/-- Neighbouring ratios of at most one with small denominators are told apart by their ranks. -/
theorem nearestRank_lt_of_small {a b c d : Nat} (hb : b < 2 ^ 26) (hd : d < 2 ^ 26) (hcd : c ≤ d)
    (hlt : a * d < c * b) :
    nearestRank (a * unitsPerOne) b < nearestRank (c * unitsPerOne) d := by
  have hcbpos : 0 < c * b := by omega
  have hbpos : 0 < b := Nat.pos_of_mul_pos_left hcbpos
  have hcpos : 0 < c := Nat.pos_of_mul_pos_right hcbpos
  have hdpos : 0 < d := lt_of_lt_of_le hcpos hcd
  have hU := twoPow_lt_unitsPerOne
  by_contra hnot
  rw [not_lt] at hnot
  obtain ⟨one, hone, honeUnits⟩ := exists_units_eq_one
  set rank := nearestRank (c * unitsPerOne) d with hrank
  -- Both ratios are at most one, which bounds the step between ranks around them.
  have hleOne : rank ≤ one := by
    rw [hrank, ← nearestRank_units hone.le, honeUnits]
    apply nearestRank_mono hdpos Nat.one_pos
    rw [Nat.mul_one, Nat.mul_comm unitsPerOne]
    exact Nat.mul_le_mul_right _ hcd
  have hfinite : rank < infinityRank := lt_of_le_of_lt hleOne hone
  have hunits : units rank ≤ unitsPerOne := by
    rw [← honeUnits]
    exact strictMono_units.monotone hleOne
  have habove : 2 * (c * unitsPerOne) ≤ middle rank * d := by
    rcases (nearestRank_le_iff hdpos hfinite).1 hrank.symm.le with hlt | ⟨heq, -⟩
    · exact hlt.le
    · exact heq.le
  have hsmall : b * d < 2 ^ 52 := by
    calc b * d < 2 ^ 26 * 2 ^ 26 := Nat.mul_lt_mul'' hb hd
      _ = 2 ^ 52 := by norm_num
  have hstep : unitsPerOne ≤ 2 ^ scale rank * (b * d) := by
    cases hcase : rank with
    | zero =>
      rw [hcase, middle_zero, Nat.one_mul] at habove
      have hcU : unitsPerOne ≤ c * unitsPerOne := Nat.le_mul_of_pos_left _ hcpos
      omega
    | succ below =>
      have hbelow : middle below * b ≤ 2 * (a * unitsPerOne) := by
        by_contra hlow
        have hle : nearestRank (a * unitsPerOne) b ≤ below :=
          (nearestRank_le_iff hbpos (by omega)).2 (.inl (not_le.1 hlow))
        omega
      have hnear : middle rank ≤ middle below + 2 * 2 ^ scale rank := by
        rw [hcase]
        exact middle_succ_le below
      rw [← hcase]
      have hgap : 2 * unitsPerOne * (a * d + 1) ≤ 2 * unitsPerOne * (c * b) :=
        Nat.mul_le_mul_left _ hlt
      have habove' := Nat.mul_le_mul_right b habove
      have hbelow' := Nat.mul_le_mul_right d hbelow
      have hnear' := Nat.mul_le_mul_right (b * d) hnear
      linarith
  rcases scale_eq_zero_or_le_mantissa rank with hscale | hfull
  · rw [hscale, Nat.pow_zero, Nat.one_mul] at hstep
    omega
  · have hbinade : 2 ^ 52 * 2 ^ scale rank ≤ unitsPerOne :=
      le_trans (Nat.mul_le_mul_right _ hfull) hunits
    have hless : 2 ^ scale rank * (b * d) < 2 ^ scale rank * 2 ^ 52 :=
      Nat.mul_lt_mul_of_pos_left hsmall (Nat.two_pow_pos _)
    rw [Nat.mul_comm (2 ^ 52)] at hbinade
    omega

theorem compare_ofRatio {a b c d : Nat} (hbpos : 0 < b) (hdpos : 0 < d) (hb : b < 2 ^ 26)
    (hd : d < 2 ^ 26) (hab : a ≤ b) (hcd : c ≤ d) :
    compare (ofRatio false a b) (ofRatio false c d) = compare (a * d) (c * b) := by
  have hkeys : compare (ofRatio false a b) (ofRatio false c d) =
      compare (nearestRank (a * unitsPerOne) b : ℤ) (nearestRank (c * unitsPerOne) d : ℤ) := rfl
  rw [hkeys]
  rcases lt_trichotomy (a * d) (c * b) with hlt | heq | hgt
  · rw [compare_lt_iff_lt.2 hlt, compare_lt_iff_lt, Nat.cast_lt]
    exact nearestRank_lt_of_small hb hd hcd hlt
  · rw [compare_eq_iff_eq.2 heq, compare_eq_iff_eq, Nat.cast_inj]
    apply nearestRank_congr hbpos hdpos
    rw [Nat.mul_right_comm, heq, Nat.mul_right_comm]
  · rw [compare_gt_iff_gt.2 hgt, compare_gt_iff_gt, Nat.cast_lt]
    exact nearestRank_lt_of_small hd hb hab hgt

/-! ## Ratios below one -/

theorem nearestRank_lt_one {num den : Nat} (hlt : num < den) (hden : den < 2 ^ 53) :
    nearestRank (num * unitsPerOne) den < nearestRank unitsPerOne 1 := by
  obtain ⟨one, hone, honeUnits⟩ := exists_units_eq_one
  have hU := twoPow_lt_unitsPerOne
  have hrank : nearestRank unitsPerOne 1 = one := by
    rw [← honeUnits, nearestRank_units hone.le]
  rw [hrank]
  cases hcase : one with
  | zero =>
    rw [hcase, units_zero] at honeUnits
    omega
  | succ below =>
    rw [hcase, units_succ] at honeUnits
    -- The magnitude before one is less than a part in `2 ^ 52` away from it.
    have hgap : 2 ^ scale below * den < 2 * unitsPerOne := by
      have hgap52 : 2 ^ 52 * 2 ^ scale below ≤ unitsPerOne := by
        rcases scale_eq_zero_or_le_mantissa below with hscale | hfull
        · rw [hscale]
          omega
        · calc 2 ^ 52 * 2 ^ scale below ≤ mantissa below * 2 ^ scale below :=
                Nat.mul_le_mul_right _ hfull
            _ = units below := rfl
            _ ≤ unitsPerOne := honeUnits ▸ Nat.le_add_right _ _
      have hpos := Nat.two_pow_pos (scale below)
      calc 2 ^ scale below * den < 2 ^ scale below * 2 ^ 53 := Nat.mul_lt_mul_of_pos_left hden hpos
        _ = 2 * (2 ^ 52 * 2 ^ scale below) := by ring
        _ ≤ 2 * unitsPerOne := Nat.mul_le_mul_left 2 hgap52
    have hmiddle : middle below + 2 ^ scale below = 2 * unitsPerOne := by
      rw [middle, units_succ]
      omega
    have hnum : num * unitsPerOne + unitsPerOne ≤ den * unitsPerOne := by
      rw [← Nat.succ_mul]
      exact Nat.mul_le_mul_right _ hlt
    have hmul : middle below * den + 2 ^ scale below * den = 2 * (den * unitsPerOne) := by
      rw [← Nat.add_mul, hmiddle]
      ring
    apply Nat.lt_succ_of_le
    rw [nearestRank_le_iff (by omega) (by omega)]
    exact .inl (by omega)

theorem key_ofRatio_lt_one {num den : Nat} (hlt : num < den) (hden : den < 2 ^ 53) :
    (ofRatio false num den).key < (ofRatio false 1 1).key := by
  change (nearestRank (num * unitsPerOne) den : ℤ) < (nearestRank (1 * unitsPerOne) 1 : ℤ)
  rw [Nat.one_mul, Nat.cast_lt]
  exact nearestRank_lt_one hlt hden

theorem key_ofRatio_pos {num den : Nat} (hnum : 0 < num) (hpos : 0 < den) (hden : den < 2 ^ 53) :
    0 < (ofRatio false num den).key := by
  change (0 : ℤ) < (nearestRank (num * unitsPerOne) den : ℤ)
  rw [Nat.cast_pos]
  by_contra hzero
  have hmiddle := (nearestRank_le_iff hpos infinityRank_pos).1 (not_lt.1 hzero)
  have hU := twoPow_lt_unitsPerOne
  have hle : unitsPerOne ≤ num * unitsPerOne := Nat.le_mul_of_pos_left _ hnum
  rw [middle_zero] at hmiddle
  omega

end Fingerprint.Double
