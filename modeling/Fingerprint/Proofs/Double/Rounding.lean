import Mathlib.Tactic.Ring
import Mathlib.Tactic.Linarith
import Fingerprint.Proofs.Double.Rank
/-!
# Rounding to the nearest rank

Between neighbouring ranks the magnitudes grow, and `num / den` units are rounded to at most a rank
just when they do not pass the middle between that rank and the next.  All else about rounding is
read off this one fact: it is monotone, it fixes the magnitudes themselves, and it keeps ratios
apart that are farther from each other than two neighbours.
-/

namespace Fingerprint.Double

/-! ## Magnitudes -/

theorem scale_eq (rank : Nat) : scale rank = rank / 2 ^ 52 - 1 := rfl

theorem scale_mul_add_mantissa (rank : Nat) : scale rank * 2 ^ 52 + mantissa rank = rank := by
  rw [scale_eq, mantissa, twoPow_eq]
  split <;> omega

theorem mantissa_lt (rank : Nat) : mantissa rank < 2 ^ 53 := by
  rw [mantissa, twoPow_eq]
  split <;> omega

/-- Significands are full, except below the first binade. -/
theorem scale_eq_zero_or_le_mantissa (rank : Nat) : scale rank = 0 ∨ 2 ^ 52 ≤ mantissa rank := by
  rw [scale_eq, mantissa, twoPow_eq]
  split <;> omega

theorem units_mul_add {e q : Nat} (hfull : e = 0 ∨ 2 ^ 52 ≤ q) (hq : q ≤ 2 ^ 53) :
    units (e * 2 ^ 52 + q) = q * 2 ^ e := by
  rw [units, twoPow_eq]
  by_cases hcarry : q = 2 ^ 53
  · have hscale : scale (e * 2 ^ 52 + q) = e + 1 := by rw [scale_eq]; omega
    have hmantissa : mantissa (e * 2 ^ 52 + q) = 2 ^ 52 := by
      rw [mantissa, twoPow_eq]
      split <;> omega
    rw [hscale, hmantissa, hcarry, ← pow_add, ← pow_add]
    congr 1
    omega
  · have hscale : scale (e * 2 ^ 52 + q) = e := by rw [scale_eq]; omega
    have hmantissa : mantissa (e * 2 ^ 52 + q) = q := by
      rw [mantissa, twoPow_eq]
      split <;> omega
    rw [hscale, hmantissa]

theorem units_succ (rank : Nat) : units (rank + 1) = units rank + 2 ^ scale rank := by
  have hsucc : rank + 1 = scale rank * 2 ^ 52 + (mantissa rank + 1) := by
    rw [← Nat.add_assoc, scale_mul_add_mantissa]
  have hfull := scale_eq_zero_or_le_mantissa rank
  have hlt := mantissa_lt rank
  rw [hsucc, units_mul_add (hfull.imp_right fun h => by omega) hlt, units, twoPow_eq,
    Nat.succ_mul]

theorem units_lt_succ (rank : Nat) : units rank < units (rank + 1) := by
  rw [units_succ]
  exact Nat.lt_add_of_pos_right (Nat.two_pow_pos _)

theorem strictMono_units : StrictMono units := strictMono_nat_of_lt_succ units_lt_succ

/-- Twice the middle between a magnitude and the next. -/
def middle (rank : Nat) : Nat := units rank + units (rank + 1)

@[simp] theorem middle_zero : middle 0 = 1 := by
  rw [middle, units_succ, units_zero]
  rfl

theorem strictMono_middle : StrictMono middle := fun _ _ h =>
  Nat.add_lt_add (strictMono_units h) (strictMono_units (Nat.succ_lt_succ h))

theorem middle_succ_le (rank : Nat) :
    middle (rank + 1) ≤ middle rank + 2 * 2 ^ scale (rank + 1) := by
  have hscale : 2 ^ scale rank ≤ 2 ^ scale (rank + 1) := by
    apply Nat.pow_le_pow_right (by omega)
    rw [scale_eq, scale_eq]
    omega
  rw [middle, middle, units_succ (rank + 1), units_succ rank]
  omega

/-! ## Rounding to an integer -/

theorem roundHalfEven_cases (num : Nat) {den : Nat} (hden : 0 < den) :
    ∃ q r, num = q * den + r ∧ r < den ∧
      (2 * r < den ∧ roundHalfEven num den = q ∨ den < 2 * r ∧ roundHalfEven num den = q + 1 ∨
        2 * r = den ∧ roundHalfEven num den = q + q % 2) := by
  refine ⟨num / den, num % den, ?_, Nat.mod_lt num hden, ?_⟩
  · rw [Nat.mul_comm, Nat.div_add_mod]
  · rw [roundHalfEven]
    split
    · exact .inl ⟨‹_›, rfl⟩
    · split
      · exact .inr (.inl ⟨‹_›, rfl⟩)
      · exact .inr (.inr ⟨by omega, rfl⟩)

/-- A ratio lies at most half above what it is rounded to, and just half only if that is even. -/
theorem roundHalfEven_above (num : Nat) {den : Nat} (hden : 0 < den) :
    2 * num ≤ 2 * (roundHalfEven num den * den) + den ∧
      (2 * num = 2 * (roundHalfEven num den * den) + den → roundHalfEven num den % 2 = 0) := by
  obtain ⟨q, r, rfl, hr, ⟨hlow, heq⟩ | ⟨hhigh, heq⟩ | ⟨htie, heq⟩⟩ :=
    roundHalfEven_cases num hden
  · rw [heq]
    omega
  · rw [heq, Nat.add_mul, Nat.one_mul]
    omega
  · rw [heq]
    rcases Nat.mod_two_eq_zero_or_one q with heven | hodd
    · rw [heven, Nat.add_zero]
      omega
    · rw [hodd, Nat.add_mul, Nat.one_mul]
      omega

/-- It lies at most half below, and just half only if that is even. -/
theorem roundHalfEven_below (num : Nat) {den : Nat} (hden : 0 < den) :
    2 * (roundHalfEven num den * den) ≤ 2 * num + den ∧
      (2 * (roundHalfEven num den * den) = 2 * num + den → roundHalfEven num den % 2 = 0) := by
  obtain ⟨q, r, rfl, hr, ⟨hlow, heq⟩ | ⟨hhigh, heq⟩ | ⟨htie, heq⟩⟩ :=
    roundHalfEven_cases num hden
  · rw [heq]
    omega
  · rw [heq, Nat.add_mul, Nat.one_mul]
    omega
  · rw [heq]
    rcases Nat.mod_two_eq_zero_or_one q with heven | hodd
    · rw [heven, Nat.add_zero]
      omega
    · rw [hodd, Nat.add_mul, Nat.one_mul]
      omega

theorem div_le_roundHalfEven (num den : Nat) : num / den ≤ roundHalfEven num den := by
  rw [roundHalfEven]
  split
  · exact le_rfl
  · split <;> omega

theorem roundHalfEven_le_div_succ (num den : Nat) : roundHalfEven num den ≤ num / den + 1 := by
  rw [roundHalfEven]
  split
  · omega
  · split <;> omega

/-! ## Rounding to a rank -/

/-- The exponent at which a ratio has a significand of 53 bits, if it is large enough. -/
def exponentOf (num den : Nat) : Nat := Nat.log2 (num / den) - 52

def significandOf (num den : Nat) : Nat := roundHalfEven num (den * 2 ^ exponentOf num den)

theorem nearestRank_eq (num den : Nat) :
    nearestRank num den =
      min (exponentOf num den * 2 ^ 52 + significandOf num den) infinityRank := rfl

/-- The significand has 53 bits, apart from a carry and from ratios below the first binade. -/
theorem significandOf_bounds (num : Nat) {den : Nat} (hden : 0 < den) :
    significandOf num den ≤ 2 ^ 53 ∧
      (exponentOf num den = 0 ∨ 2 ^ 52 ≤ significandOf num den ∧
        2 ^ 52 * (den * 2 ^ exponentOf num den) ≤ num) := by
  have hlow := div_le_roundHalfEven num (den * 2 ^ exponentOf num den)
  have hhigh := roundHalfEven_le_div_succ num (den * 2 ^ exponentOf num den)
  rw [← Nat.div_div_eq_div_mul] at hlow hhigh
  change _ ≤ significandOf num den at hlow
  change significandOf num den ≤ _ at hhigh
  have hpow : 0 < den * 2 ^ exponentOf num den := Nat.mul_pos hden (Nat.two_pow_pos _)
  by_cases hzero : num / den = 0
  · have hexp : exponentOf num den = 0 := by rw [exponentOf, hzero]; rfl
    rw [hzero, Nat.zero_div] at hhigh
    exact ⟨by omega, .inl hexp⟩
  have hself : 2 ^ Nat.log2 (num / den) ≤ num / den := Nat.log2_self_le hzero
  have hlt : num / den < 2 ^ (Nat.log2 (num / den) + 1) := Nat.lt_log2_self
  by_cases hexp : exponentOf num den = 0
  · have hlog : Nat.log2 (num / den) + 1 ≤ 53 := by rw [exponentOf] at hexp; omega
    have hbound := Nat.pow_le_pow_right (n := 2) (by omega) hlog
    rw [hexp, Nat.pow_zero, Nat.div_one] at hhigh
    exact ⟨by omega, .inl hexp⟩
  · have hlog : Nat.log2 (num / den) = 52 + exponentOf num den := by
      rw [exponentOf] at hexp ⊢
      omega
    rw [hlog] at hself hlt
    have hfloor : 2 ^ 52 ≤ num / den / 2 ^ exponentOf num den := by
      rw [Nat.le_div_iff_mul_le (Nat.two_pow_pos _), ← Nat.pow_add]
      exact hself
    have hceil : num / den / 2 ^ exponentOf num den < 2 ^ 53 := by
      rw [Nat.div_lt_iff_lt_mul (Nat.two_pow_pos _), ← Nat.pow_add]
      rwa [show 53 + exponentOf num den = 52 + exponentOf num den + 1 by omega]
    refine ⟨by omega, .inr ⟨le_trans hfloor hlow, ?_⟩⟩
    rw [Nat.div_div_eq_div_mul, Nat.le_div_iff_mul_le hpow] at hfloor
    exact hfloor

theorem units_rounded (num : Nat) {den : Nat} (hden : 0 < den) :
    units (exponentOf num den * 2 ^ 52 + significandOf num den) =
      significandOf num den * 2 ^ exponentOf num den := by
  obtain ⟨hcarry, hfull⟩ := significandOf_bounds num hden
  exact units_mul_add (hfull.imp_right And.left) hcarry

/-- A ratio does not pass the middle above the rank it is rounded to, and meets it only if that is
even. -/
theorem le_middle_rounded (num : Nat) {den : Nat} (hden : 0 < den) :
    2 * num ≤ middle (exponentOf num den * 2 ^ 52 + significandOf num den) * den ∧
      (2 * num = middle (exponentOf num den * 2 ^ 52 + significandOf num den) * den →
        (exponentOf num den * 2 ^ 52 + significandOf num den) % 2 = 0) := by
  obtain ⟨hcarry, hfull⟩ := significandOf_bounds num hden
  obtain ⟨habove, htie⟩ := roundHalfEven_above num
    (Nat.mul_pos hden (Nat.two_pow_pos (exponentOf num den)))
  change 2 * num ≤ 2 * (significandOf num den * _) + _ at habove
  change 2 * num = 2 * (significandOf num den * _) + _ → significandOf num den % 2 = 0 at htie
  have hunits := units_rounded num hden
  have hsucc := units_succ (exponentOf num den * 2 ^ 52 + significandOf num den)
  set e := exponentOf num den
  set q := significandOf num den
  -- The step above the rank is that of the exponent, or twice that after a carry.
  have hstep : 2 ^ e ≤ 2 ^ scale (e * 2 ^ 52 + q) := by
    apply Nat.pow_le_pow_right (by omega)
    rw [scale_eq]
    omega
  have hmiddle : (2 * q + 1) * 2 ^ e ≤ middle (e * 2 ^ 52 + q) := by
    rw [middle, hsucc, hunits]
    linarith
  have hscaled : (2 * q + 1) * 2 ^ e * den ≤ middle (e * 2 ^ 52 + q) * den :=
    Nat.mul_le_mul_right den hmiddle
  have hhalf : 2 * (q * (den * 2 ^ e)) + den * 2 ^ e = (2 * q + 1) * 2 ^ e * den := by ring
  rw [hhalf] at habove htie
  refine ⟨le_trans habove hscaled, fun hmeet => ?_⟩
  have hparity := htie (le_antisymm habove (by omega))
  omega

/-- Nor does it pass the middle below. -/
theorem middle_le_rounded {num den rank : Nat} (hden : 0 < den)
    (hrank : exponentOf num den * 2 ^ 52 + significandOf num den = rank + 1) :
    middle rank * den ≤ 2 * num ∧ (middle rank * den = 2 * num → rank % 2 = 1) := by
  obtain ⟨hcarry, hfull⟩ := significandOf_bounds num hden
  obtain ⟨hbelow, htie⟩ := roundHalfEven_below num
    (Nat.mul_pos hden (Nat.two_pow_pos (exponentOf num den)))
  change 2 * (significandOf num den * _) ≤ _ at hbelow
  change 2 * (significandOf num den * _) = _ → significandOf num den % 2 = 0 at htie
  have hunits := units_rounded num hden
  rw [hrank] at hunits
  set e := exponentOf num den
  set q := significandOf num den
  by_cases hfirst : e = 0 ∨ 2 ^ 52 < q
  · have hq : 0 < q := by omega
    have hprev : units rank = (q - 1) * 2 ^ e := by
      have hrank' : rank = e * 2 ^ 52 + (q - 1) := by omega
      rw [hrank', units_mul_add (hfirst.imp_right fun h => by omega) (by omega)]
    have hmiddle : middle rank * den + den * 2 ^ e = 2 * (q * (den * 2 ^ e)) := by
      obtain ⟨p, hp⟩ : ∃ p, q = p + 1 := ⟨q - 1, by omega⟩
      rw [middle, hunits, hprev, hp, Nat.add_sub_cancel]
      ring
    refine ⟨by omega, fun hmeet => ?_⟩
    have hparity := htie (by omega)
    omega
  · -- At the least significand of a binade the step below is half of the one above.
    have hq : q = 2 ^ 52 := by omega
    obtain ⟨e', he'⟩ : ∃ e', e = e' + 1 := ⟨e - 1, by omega⟩
    have hprev : units rank = (2 ^ 53 - 1) * 2 ^ e' := by
      have hrank' : rank = e' * 2 ^ 52 + (2 ^ 53 - 1) := by omega
      rw [hrank', units_mul_add (.inr (by norm_num)) (by norm_num)]
    have hnum : 2 ^ 52 * (den * 2 ^ e) ≤ num := (hfull.resolve_left (by omega)).2
    have hlt : middle rank * den < 2 * num := by
      have hmiddle : middle rank * den + den * 2 ^ e' = 2 * (2 ^ 52 * (den * 2 ^ e)) := by
        rw [middle, hunits, hprev, hq, he']
        norm_num
        ring
      have hpos : 0 < den * 2 ^ e' := Nat.mul_pos hden (Nat.two_pow_pos _)
      omega
    exact ⟨le_of_lt hlt, fun hmeet => absurd hmeet (ne_of_lt hlt)⟩

/-- A ratio is rounded to at most a finite rank just when it lies below the middle between that and
the next, or on it if the rank is even. -/
theorem nearestRank_le_iff {num den rank : Nat} (hden : 0 < den) (hrank : rank < infinityRank) :
    nearestRank num den ≤ rank ↔
      2 * num < middle rank * den ∨ 2 * num = middle rank * den ∧ rank % 2 = 0 := by
  obtain ⟨habove, htie⟩ := le_middle_rounded num hden
  rw [nearestRank_eq]
  set rounded := exponentOf num den * 2 ^ 52 + significandOf num den with hrounded
  rw [min_le_iff, or_iff_left (not_le_of_gt hrank)]
  constructor
  · intro hle
    rcases Nat.eq_or_lt_of_le hle with rfl | hlt
    · rcases Nat.eq_or_lt_of_le habove with heq | hlt
      · exact .inr ⟨heq, htie heq⟩
      · exact .inl hlt
    · have hmiddle := Nat.mul_lt_mul_of_pos_right (strictMono_middle hlt) hden
      exact .inl (lt_of_le_of_lt habove hmiddle)
  · intro hle
    by_contra hnot
    obtain ⟨below, hbelow⟩ : ∃ below, rounded = below + 1 := ⟨rounded - 1, by omega⟩
    obtain ⟨hlow, hodd⟩ := middle_le_rounded hden (hrounded.symm.trans hbelow)
    rcases Nat.eq_or_lt_of_le (show rank ≤ below by omega) with rfl | hlt
    · have hparity : ¬ (rank % 2 = 0 ∧ rank % 2 = 1) := by omega
      rcases hle with hle | ⟨heq, heven⟩
      · omega
      · exact hparity ⟨heven, hodd heq.symm⟩
    · have hmiddle := Nat.mul_lt_mul_of_pos_right (strictMono_middle hlt) hden
      omega

theorem nearestRank_le_infinityRank (num den : Nat) : nearestRank num den ≤ infinityRank :=
  Nat.min_le_right _ _

theorem nearestRank_mono {num den num' den' : Nat} (hden : 0 < den) (hden' : 0 < den')
    (hle : num * den' ≤ num' * den) : nearestRank num den ≤ nearestRank num' den' := by
  by_contra hnot
  rw [not_le] at hnot
  have hrank : nearestRank num' den' < infinityRank :=
    lt_of_lt_of_le hnot (nearestRank_le_infinityRank num den)
  refine absurd ?_ (not_le_of_gt hnot)
  have hself := (nearestRank_le_iff hden' hrank).1 le_rfl
  rw [nearestRank_le_iff hden hrank]
  set middle' := middle (nearestRank num' den')
  have hleft : middle' * den' * den = middle' * den * den' := by ring
  rcases hself with hlt | ⟨heq, heven⟩
  · have hlt' : 2 * num * den' < middle' * den * den' := by
      have hscaled := Nat.mul_lt_mul_of_pos_right hlt hden
      rw [hleft] at hscaled
      linarith
    exact .inl (Nat.lt_of_mul_lt_mul_right hlt')
  · have hle' : 2 * num * den' ≤ middle' * den * den' := by
      have hscaled := congrArg (· * den) heq
      simp only [hleft] at hscaled
      linarith
    rcases Nat.eq_or_lt_of_le (Nat.le_of_mul_le_mul_right hle' hden') with heq' | hlt'
    · exact .inr ⟨heq', heven⟩
    · exact .inl hlt'

theorem nearestRank_congr {num den num' den' : Nat} (hden : 0 < den) (hden' : 0 < den')
    (heq : num * den' = num' * den) : nearestRank num den = nearestRank num' den' :=
  le_antisymm (nearestRank_mono hden hden' heq.le) (nearestRank_mono hden' hden heq.ge)

theorem nearestRank_units {rank : Nat} (hrank : rank ≤ infinityRank) :
    nearestRank (units rank) 1 = rank := by
  apply le_antisymm
  · rcases Nat.eq_or_lt_of_le hrank with rfl | hlt
    · exact nearestRank_le_infinityRank _ _
    · rw [nearestRank_le_iff Nat.one_pos hlt, middle]
      have hnext := units_lt_succ rank
      omega
  · by_contra hnot
    obtain ⟨below, hbelow⟩ : ∃ below, rank = below + 1 := ⟨rank - 1, by omega⟩
    have hle : nearestRank (units rank) 1 ≤ below := by omega
    rw [nearestRank_le_iff Nat.one_pos (by omega), middle, ← hbelow] at hle
    have hnext := units_lt_succ below
    rw [← hbelow] at hnext
    omega

theorem nearestRank_zero {den : Nat} (hden : 0 < den) : nearestRank 0 den = 0 := by
  have hzero : nearestRank (units 0) 1 = 0 := nearestRank_units (Nat.zero_le _)
  rw [units_zero] at hzero
  rw [← hzero]
  exact nearestRank_congr hden Nat.one_pos (by omega)

/-! ## Exact magnitudes -/

theorem exists_units_eq {m : Nat} (hm : m < 2 ^ 53) (k : Nat) :
    ∃ rank, units rank = m * twoPow k := by
  induction k generalizing m with
  | zero => exact ⟨0 * 2 ^ 52 + m, units_mul_add (.inl rfl) hm.le⟩
  | succ k ih =>
    by_cases hfull : 2 ^ 52 ≤ m
    · exact ⟨(k + 1) * 2 ^ 52 + m, units_mul_add (.inr hfull) hm.le⟩
    · obtain ⟨rank, hrank⟩ := ih (m := 2 * m) (by omega)
      refine ⟨rank, ?_⟩
      rw [hrank, Nat.add_comm, twoPow_add, twoPow_eq 1]
      ring

theorem units_infinityRank : units infinityRank = twoPow 2098 := by
  have hrank : infinityRank = 2046 * 2 ^ 52 + 2 ^ 52 := by
    rw [infinityRank, twoPow_eq, ← Nat.succ_mul]
  rw [hrank, units_mul_add (.inr le_rfl) (by norm_num), ← twoPow_eq, ← twoPow_eq, ← twoPow_add]

theorem lt_infinityRank_iff {rank : Nat} : rank < infinityRank ↔ units rank < twoPow 2098 := by
  rw [← units_infinityRank]
  exact strictMono_units.lt_iff_lt.symm

theorem exists_ofNat_mul_eq {m k : Nat} (hm : m < 2 ^ 53) (hk : k ≤ 971) :
    ∃ rank bounded, ofNat (m * twoPow k) = ranked false rank bounded ∧ rank < infinityRank ∧
      units rank = m * twoPow k * unitsPerOne := by
  obtain ⟨rank, hunits⟩ := exists_units_eq hm (k + 1074)
  have hfinite : rank < infinityRank := by
    rw [lt_infinityRank_iff, hunits]
    calc m * twoPow (k + 1074) < twoPow 53 * twoPow (k + 1074) :=
          Nat.mul_lt_mul_of_pos_right hm (twoPow_pos _)
      _ = twoPow (53 + (k + 1074)) := (twoPow_add 53 _).symm
      _ ≤ twoPow 2098 := twoPow_le_twoPow (by omega)
  have hscaled : units rank = m * twoPow k * unitsPerOne := by
    rw [hunits, twoPow_add, unitsPerOne, Nat.mul_assoc]
  refine ⟨rank, hfinite.le, ?_, hfinite, hscaled⟩
  have hround : nearestRank (m * twoPow k * unitsPerOne) 1 = rank := by
    rw [← hscaled]
    exact nearestRank_units hfinite.le
  simp only [ofNat, ofRatio, ofUnits, hround]

theorem exists_ofNat_eq {n : Nat} (hn : n < 2 ^ 53) :
    ∃ rank bounded, ofNat n = ranked false rank bounded ∧ rank < infinityRank ∧
      units rank = n * unitsPerOne := by
  have hone : n * twoPow 0 = n := Nat.mul_one n
  have h := exists_ofNat_mul_eq hn (Nat.zero_le 971)
  rwa [hone] at h

end Fingerprint.Double
