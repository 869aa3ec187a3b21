import Fingerprint.Proofs.Double.Nearest
/-!
# Digits summed up with rounding

A number is read digit by digit, in a radix that is a power of two.  As long as what has been read
has 53 bits, nothing is rounded.  From then on a digit is too small to count, while the product with
the radix is exact: the outcome is the number without its later digits, rounded once.  This differs
from the number itself, rounded once, just if the digits that are left lie in the middle between two
values and the others are not all zero.
-/

namespace Fingerprint.Double

/-! ## Scaling -/

theorem roundHalfEven_mul_right (num den : Nat) {m : Nat} (hm : 0 < m) :
    roundHalfEven (num * m) (den * m) = roundHalfEven num den := by
  have hrest : 2 * (num % den * m) = 2 * (num % den) * m := (Nat.mul_assoc ..).symm
  simp only [roundHalfEven, Nat.mul_div_mul_right num den hm, Nat.mul_mod_mul_right, hrest,
    Nat.mul_lt_mul_right hm]

theorem log2_mul_two_pow {n : Nat} (hn : n ≠ 0) (k : Nat) : (n * 2 ^ k).log2 = n.log2 + k := by
  rw [Nat.log2_eq_iff (Nat.mul_ne_zero hn (Nat.two_pow_pos k).ne'), Nat.add_right_comm,
    Nat.pow_add, Nat.pow_add _ _ k]
  exact ⟨Nat.mul_le_mul_right _ (Nat.log2_self_le hn),
    Nat.mul_lt_mul_of_pos_right Nat.lt_log2_self (Nat.two_pow_pos k)⟩

/-- A power of two moves a magnitude by as many binades. -/
theorem nearestRank_mul_two_pow {num : Nat} (hfull : 2 ^ 52 ≤ num) (k : Nat) :
    nearestRank (num * 2 ^ k) 1 = min (nearestRank num 1 + k * 2 ^ 52) infinityRank := by
  have hnum : num ≠ 0 := by omega
  have hlog : 52 ≤ num.log2 := (Nat.le_log2 hnum).2 hfull
  have hexponent : exponentOf (num * 2 ^ k) 1 = exponentOf num 1 + k := by
    rw [exponentOf, exponentOf, Nat.div_one, Nat.div_one, log2_mul_two_pow hnum]
    omega
  have hsignificand : significandOf (num * 2 ^ k) 1 = significandOf num 1 := by
    rw [significandOf, significandOf, hexponent, Nat.pow_add, ← Nat.mul_assoc,
      roundHalfEven_mul_right _ _ (Nat.two_pow_pos k)]
  have hmin : ∀ a b c : Nat, min (a + b) c = min (min a c + b) c := by omega
  rw [nearestRank_eq, nearestRank_eq, hexponent, hsignificand, Nat.add_mul, Nat.add_right_comm,
    hmin]

theorem lt_scale {rank j : Nat} (h : twoPow (53 + j) ≤ units rank) : j < scale rank := by
  have hlt : units rank < twoPow 53 * twoPow (scale rank) :=
    Nat.mul_lt_mul_of_pos_right (mantissa_lt rank) (twoPow_pos _)
  rw [twoPow_add] at h
  have hpow : twoPow j < twoPow (scale rank) := Nat.lt_of_mul_lt_mul_left (lt_of_le_of_lt h hlt)
  exact (Nat.pow_lt_pow_iff_right (by omega)).1 hpow

/-- Rounding does not take a magnitude below a power of two that it reaches. -/
theorem twoPow_le_units_nearestRank {num k : Nat} (hk : k ≤ 2098) (h : twoPow k ≤ num) :
    twoPow k ≤ units (nearestRank num 1) := by
  obtain ⟨rank, hrank⟩ := exists_units_eq (m := 1) (by norm_num) k
  rw [Nat.one_mul] at hrank
  have hbounded : rank ≤ infinityRank := by
    rw [← strictMono_units.le_iff_le, hrank, units_infinityRank]
    exact twoPow_le_twoPow hk
  have hle : nearestRank (twoPow k) 1 ≤ nearestRank num 1 :=
    nearestRank_mono Nat.one_pos Nat.one_pos (by omega)
  rw [← hrank, nearestRank_units hbounded] at hle
  rw [← hrank]
  exact strictMono_units.monotone hle

/-! ## Sums and products -/

section Finite

variable {x y : Nat} {hx : x ≤ infinityRank} {hy : y ≤ infinityRank}

theorem mul_ranked (hxfinite : x < infinityRank) (hyfinite : y < infinityRank) :
    ranked false x hx * ranked false y hy = ofUnits false (units x * units y) unitsPerOne := by
  change mul (ranked false x hx) (ranked false y hy) = _
  rw [mul, if_neg, bne_self_eq_false]
  simp [hxfinite.ne, hyfinite.ne]

theorem add_ranked (hxfinite : x < infinityRank) (hyfinite : y < infinityRank) :
    ranked false x hx + ranked false y hy = ofUnits false (units x + units y) 1 := by
  change add (ranked false x hx) (ranked false y hy) = _
  have hsum : ((units x : Int) + units y).natAbs = units x + units y := by omega
  have hsign : decide ((units x : Int) + units y < 0) = false := decide_eq_false (by omega)
  rw [add, if_neg hxfinite.ne, if_neg hyfinite.ne, addFinite]
  simp only [Bool.false_eq_true, if_false, hsum, hsign, Bool.and_self, ite_self]

theorem infinity_mul (hpos : 0 < y) :
    infinity false * ranked false y hy = infinity false := by
  change mul (ranked false infinityRank _) (ranked false y hy) = _
  rw [mul, if_pos (by simp), if_neg (by simp [hpos.ne', infinityRank_pos.ne'])]
  rfl

theorem infinity_add : infinity false + ranked false y hy = infinity false := by
  change add (ranked false infinityRank _) (ranked false y hy) = _
  rw [add, if_pos rfl, if_neg (by simp)]

end Finite

theorem ofNat_eq_ranked_iff {n rank : Nat} {bounded : rank ≤ infinityRank} :
    ofNat n = ranked false rank bounded ↔ nearestRank (n * unitsPerOne) 1 = rank := by
  constructor
  · intro h
    injection h
  · rintro rfl
    rfl

theorem ofNat_eq_infinity_iff {n : Nat} :
    ofNat n = infinity false ↔ nearestRank (n * unitsPerOne) 1 = infinityRank :=
  ofNat_eq_ranked_iff

theorem ofNat_cases (n : Nat) :
    ofNat n = infinity false ∨ ∃ rank bounded, ofNat n = ranked false rank bounded ∧
      rank < infinityRank ∧ nearestRank (n * unitsPerOne) 1 = rank := by
  rcases (nearestRank_le_infinityRank (n * unitsPerOne) 1).eq_or_lt with hinfinite | hfinite
  · exact .inl (ofNat_eq_infinity_iff.2 hinfinite)
  · exact .inr ⟨_, hfinite.le, rfl, hfinite, rfl⟩

/-- Whether a number has been rounded before does not matter to its product with a power of two. -/
theorem nearestRank_units_mul_two_pow {n rank : Nat}
    (hround : nearestRank (n * unitsPerOne) 1 = rank) (hbounded : rank ≤ infinityRank) (k : Nat) :
    nearestRank (units rank * 2 ^ k) 1 = nearestRank (n * unitsPerOne * 2 ^ k) 1 := by
  by_cases hn : n < 2 ^ 53
  · obtain ⟨rank', _, hvalue, -, hunits⟩ := exists_ofNat_eq hn
    have hsame : rank = rank' := hround.symm.trans (ofNat_eq_ranked_iff.1 hvalue)
    rw [hsame, hunits]
  · have hfull : twoPow 52 ≤ n * unitsPerOne := by
      calc twoPow 52 ≤ n := by rw [twoPow_eq]; omega
        _ ≤ n * unitsPerOne := Nat.le_mul_of_pos_right _ unitsPerOne_pos
    have hfull' : twoPow 52 ≤ units rank := by
      rw [← hround]
      exact twoPow_le_units_nearestRank (by omega) hfull
    rw [nearestRank_mul_two_pow hfull, nearestRank_mul_two_pow hfull', hround,
      nearestRank_units hbounded]

theorem ofNat_mul_twoPow (n : Nat) {k : Nat} (hk : k ≤ 971) :
    ofNat n * ofNat (twoPow k) = ofNat (twoPow k * n) := by
  obtain ⟨y, hy, hradix, hyfinite, hyunits⟩ := exists_ofNat_mul_eq (m := 1) (by norm_num) hk
  rw [Nat.one_mul] at hradix hyunits
  have hpos : 0 < y := by
    rw [Nat.pos_iff_ne_zero]
    rintro rfl
    rw [units_zero] at hyunits
    exact (Nat.mul_pos (twoPow_pos k) unitsPerOne_pos).ne hyunits
  have hscaled : nearestRank (twoPow k * n * unitsPerOne) 1 =
      nearestRank (n * unitsPerOne * 2 ^ k) 1 :=
    nearestRank_congr Nat.one_pos Nat.one_pos (by rw [twoPow_eq]; ring)
  rcases ofNat_cases n with hinfinite | ⟨x, hx, hvalue, hxfinite, hround⟩
  · have hproduct : ofNat (twoPow k * n) = infinity false := by
      rw [ofNat_eq_infinity_iff] at hinfinite ⊢
      apply le_antisymm (nearestRank_le_infinityRank _ _)
      rw [← hinfinite, hscaled]
      apply nearestRank_mono Nat.one_pos Nat.one_pos
      rw [Nat.mul_one, Nat.mul_one]
      exact Nat.le_mul_of_pos_right _ (Nat.two_pow_pos k)
    rw [hinfinite, hproduct, hradix, infinity_mul hpos]
  · have hmoved := nearestRank_units_mul_two_pow hround hxfinite.le k
    have hproduct : nearestRank (units x * (twoPow k * unitsPerOne)) unitsPerOne =
        nearestRank (units x * 2 ^ k) 1 :=
      nearestRank_congr unitsPerOne_pos Nat.one_pos (by rw [twoPow_eq]; ring)
    rw [hvalue, hradix, mul_ranked hxfinite hyfinite, hyunits]
    exact (ofNat_eq_ranked_iff.2 (hscaled.trans (hmoved.symm.trans hproduct.symm))).symm

/-- Where 54 bits or more have been read, a digit is less than half of a step. -/
theorem ofNat_add_of_lt {m k d : Nat} (hk : k ≤ 53) (hm : twoPow (53 + k) ≤ m)
    (hd : d < twoPow k) : ofNat m + ofNat d = ofNat m := by
  obtain ⟨y, hy, hdigit, hyfinite, hyunits⟩ :=
    exists_ofNat_eq (lt_of_lt_of_le hd (twoPow_le_twoPow hk))
  rcases ofNat_cases m with hinfinite | ⟨x, hx, hvalue, hxfinite, hround⟩
  · rw [hinfinite, hdigit, infinity_add]
  · have hlarge : twoPow (53 + (k + 1074)) ≤ units x := by
      rw [← hround]
      apply twoPow_le_units_nearestRank (by omega)
      rw [← Nat.add_assoc, twoPow_add _ 1074]
      exact Nat.mul_le_mul_right _ hm
    have hstep : 2 * (twoPow k * unitsPerOne) ≤ 2 ^ scale x := by
      have hscale := lt_scale hlarge
      calc 2 * (twoPow k * unitsPerOne) = twoPow (1 + (k + 1074)) := by
            rw [twoPow_add 1, twoPow_add k, unitsPerOne, twoPow_eq 1, Nat.pow_one]
        _ ≤ twoPow (scale x) := twoPow_le_twoPow (by omega)
    have hkept : nearestRank (units x + d * unitsPerOne) 1 = x := by
      apply le_antisymm
      · rw [nearestRank_le_iff Nat.one_pos hxfinite, middle, units_succ]
        have hdigits : d * unitsPerOne < twoPow k * unitsPerOne :=
          Nat.mul_lt_mul_of_pos_right hd unitsPerOne_pos
        exact .inl (by omega)
      · have hle : nearestRank (units x) 1 ≤ nearestRank (units x + d * unitsPerOne) 1 :=
          nearestRank_mono Nat.one_pos Nat.one_pos (by omega)
        rwa [nearestRank_units hxfinite.le] at hle
    rw [hvalue, hdigit, add_ranked hxfinite hyfinite, hyunits]
    simp only [ofUnits, hkept]

/-- Up to 53 bits and one more digit, sums are rounded only once. -/
theorem ofNat_add_of_exact {n k d : Nat} (hk : k ≤ 53) (hn : n < twoPow 53) (hd : d < twoPow k) :
    ofNat (twoPow k * n) + ofNat d = ofNat (twoPow k * n + d) := by
  obtain ⟨x, hx, hproduct, hxfinite, hxunits⟩ := exists_ofNat_mul_eq hn (show k ≤ 971 by omega)
  rw [Nat.mul_comm n] at hproduct hxunits
  obtain ⟨y, hy, hdigit, hyfinite, hyunits⟩ :=
    exists_ofNat_eq (lt_of_lt_of_le hd (twoPow_le_twoPow hk))
  rw [hproduct, hdigit, add_ranked hxfinite hyfinite, hxunits, hyunits, ← Nat.add_mul]
  rfl

/-! ## Reading digits -/

/-- A number with one more digit, where digits after the first 53 bits count as zeros. -/
def addDigit (radix n d : Nat) : Nat :=
  if n < twoPow 53 then radix * n + d else radix * n

theorem ofNat_addDigit {n k d : Nat} (hk : k ≤ 53) (hd : d < twoPow k) :
    ofNat n * ofNat (twoPow k) + ofNat d = ofNat (addDigit (twoPow k) n d) := by
  rw [ofNat_mul_twoPow n (by omega), addDigit]
  split
  · exact ofNat_add_of_exact hk ‹_› hd
  · apply ofNat_add_of_lt hk _ hd
    rw [Nat.add_comm, twoPow_add]
    exact Nat.mul_le_mul_left _ (not_lt.1 ‹_›)

/-- Summing digits up with rounding rounds, once, the number without its later digits. -/
theorem foldl_ofNat {k : Nat} (hk : k ≤ 53) {digits : List Nat}
    (hdigits : ∀ d ∈ digits, d < twoPow k) (n : Nat) :
    digits.foldl (fun value d => value * ofNat (twoPow k) + ofNat d) (ofNat n) =
      ofNat (digits.foldl (addDigit (twoPow k)) n) := by
  induction digits generalizing n with
  | nil => rfl
  | cons d digits ih =>
    rw [List.forall_mem_cons] at hdigits
    rw [List.foldl_cons, List.foldl_cons, ofNat_addDigit hk hdigits.1, ih hdigits.2]

/-! ## Numbers without their later digits -/

/-- A number `cut` has the leading bits of `n`, at least 54 of them if there are as many, and zeros
for the others. -/
def IsCut (n cut : Nat) : Prop :=
  ∃ e, twoPow e ∣ cut ∧ (e = 0 ∨ twoPow (53 + e) ≤ cut) ∧ cut ≤ n ∧ n < cut + twoPow e

theorem IsCut.refl (n : Nat) : IsCut n n :=
  ⟨0, one_dvd n, .inl (Eq.refl 0), le_rfl, Nat.lt_succ_self n⟩

theorem IsCut.addDigit {n cut k d : Nat} (h : IsCut n cut) (hd : d < twoPow k) :
    IsCut (twoPow k * n + d) (Double.addDigit (twoPow k) cut d) := by
  obtain ⟨e, hdvd, hlarge, hle, hlt⟩ := h
  rw [Double.addDigit]
  split
  · have he : e = 0 := hlarge.resolve_right fun hlarge => by
      have hpow := twoPow_le_twoPow (show 53 ≤ 53 + e by omega)
      omega
    rw [he, twoPow_eq 0] at hlt
    have hsame : cut = n := by omega
    rw [hsame]
    exact .refl _
  · have hcut : twoPow 53 ≤ cut := not_lt.1 ‹_›
    refine ⟨k + e, ?_, .inr ?_, ?_, ?_⟩
    · rw [twoPow_add]
      exact Nat.mul_dvd_mul_left _ hdvd
    · rw [Nat.add_left_comm, twoPow_add]
      apply Nat.mul_le_mul_left
      rcases hlarge with rfl | hlarge
      · exact hcut
      · exact hlarge
    · exact (Nat.mul_le_mul_left _ hle).trans (Nat.le_add_right _ _)
    · have hscaled : twoPow k * n + twoPow k ≤ twoPow k * (cut + twoPow e) := by
        rw [← Nat.mul_succ]
        exact Nat.mul_le_mul_left _ hlt
      rw [twoPow_add, ← Nat.mul_add]
      omega

theorem isCut_foldl {k : Nat} {digits : List Nat} (hdigits : ∀ d ∈ digits, d < twoPow k)
    {n cut : Nat} (h : IsCut n cut) :
    IsCut (digits.foldl (fun n d => twoPow k * n + d) n)
      (digits.foldl (addDigit (twoPow k)) cut) := by
  induction digits generalizing n cut with
  | nil => exact h
  | cons d digits ih =>
    rw [List.forall_mem_cons] at hdigits
    exact ih hdigits.2 (h.addDigit hdigits.1)

/-- Whether leaving digits out changes what a number is rounded to: the others lie in the middle
between a rank and the next one, and those that are left out are not all zero. -/
def IsLostTie (n cut rank : Nat) : Prop :=
  cut ≠ n ∧ 2 * (cut : ℚ) = magnitude rank + magnitude (rank + 1)

theorem isLostTie_iff {n cut rank : Nat} :
    IsLostTie n cut rank ↔ cut ≠ n ∧ 2 * (cut * unitsPerOne) = middle rank := by
  rw [IsLostTie, magnitude_add_magnitude, eq_div_iff unitsPerOne_cast_pos.ne', mul_assoc,
    ← Nat.cast_mul, ← Nat.cast_ofNat, ← Nat.cast_mul, Nat.cast_inj]

theorem infinityRank_even : infinityRank % 2 = 0 := by
  rw [infinityRank, twoPow_eq]
  norm_num

/-- Where `53 + e` bits or more are rounded, the middles between the neighbours and the steps are
multiples of `2 ^ (e + 1)`. -/
theorem twoPow_dvd_middle {num e rank : Nat} (hlarge : twoPow (53 + e) ≤ num)
    (hrank : nearestRank num 1 = rank) (hfinite : rank < infinityRank) :
    twoPow (e + 1) ∣ middle rank ∧ twoPow (e + 1) ≤ 2 ^ scale rank := by
  rw [lt_infinityRank_iff, ← hrank] at hfinite
  have hexponent : 53 + e ≤ 2098 := by
    by_contra hnot
    have hnum : twoPow 2098 ≤ num := (twoPow_le_twoPow (by omega)).trans hlarge
    exact absurd (twoPow_le_units_nearestRank le_rfl hnum) (not_le_of_gt hfinite)
  have hscale : e < scale rank := by
    apply lt_scale
    rw [← hrank]
    exact twoPow_le_units_nearestRank hexponent hlarge
  have hstep : twoPow (e + 1) ∣ 2 ^ scale rank := Nat.pow_dvd_pow 2 hscale
  refine ⟨?_, Nat.le_of_dvd (Nat.two_pow_pos _) hstep⟩
  have hunits : twoPow (e + 1) ∣ units rank := Dvd.dvd.mul_left hstep _
  rw [middle, units_succ]
  exact Nat.dvd_add hunits (Nat.dvd_add hunits hstep)

section Cut

variable {n cut rank : Nat}

/-- Where digits are left out, their last place counts no more than twice the step of the rank, and
twice the number lies less than one such place above what is kept. -/
theorem exists_place_of_isCut (h : IsCut n cut) (hne : cut ≠ n)
    (hrank : nearestRank (cut * unitsPerOne) 1 = rank) (hfinite : rank < infinityRank) :
    ∃ place m c, 2 * (cut * unitsPerOne) = place * m ∧ middle rank = place * c ∧
      2 * (n * unitsPerOne) < place * m + place ∧ place ≤ 2 ^ scale rank := by
  obtain ⟨e, ⟨m, hm⟩, hlarge, hle, hlt⟩ := h
  have hlarge : twoPow (53 + (e + 1074)) ≤ cut * unitsPerOne := by
    rw [← Nat.add_assoc, twoPow_add]
    refine Nat.mul_le_mul_right _ (hlarge.resolve_left fun he => ?_)
    rw [he, twoPow_eq 0] at hlt
    omega
  obtain ⟨⟨c, hc⟩, hstep⟩ := twoPow_dvd_middle hlarge hrank hfinite
  have hplace : twoPow (e + 1074 + 1) = 2 * (twoPow e * unitsPerOne) := by
    rw [twoPow_add, twoPow_add, unitsPerOne, twoPow_eq 1, Nat.pow_one, Nat.mul_comm]
  have hcut : 2 * (cut * unitsPerOne) = twoPow (e + 1074 + 1) * m := by
    rw [hm, hplace]
    ring
  refine ⟨twoPow (e + 1074 + 1), m, c, hcut, hc, ?_, hstep⟩
  have hscaled := Nat.mul_lt_mul_of_pos_right hlt unitsPerOne_pos
  rw [Nat.add_mul] at hscaled
  omega

/-- Digits that are left out do not lead over a middle that the others do not reach. -/
theorem nearestRank_of_not_isLostTie (h : IsCut n cut)
    (hrank : nearestRank (cut * unitsPerOne) 1 = rank) (hfinite : rank < infinityRank)
    (hkept : ¬IsLostTie n cut rank) : nearestRank (n * unitsPerOne) 1 = rank := by
  by_cases hsame : cut = n
  · rwa [← hsame]
  obtain ⟨place, m, c, hcut, hmiddle, habove, -⟩ := exists_place_of_isCut h hsame hrank hfinite
  have htie := (nearestRank_le_iff Nat.one_pos hfinite).1 hrank.le
  rw [isLostTie_iff, not_and, hcut, hmiddle] at hkept
  rw [Nat.mul_one, hcut, hmiddle] at htie
  have hless : place * m < place * c := htie.resolve_right fun heq => hkept hsame heq.1
  have hnext : place * m + place ≤ place * c := by
    rw [← Nat.mul_succ]
    exact Nat.mul_le_mul_left _ (Nat.lt_of_mul_lt_mul_left hless)
  apply le_antisymm
  · rw [nearestRank_le_iff Nat.one_pos hfinite, Nat.mul_one, hmiddle]
    exact .inl (by omega)
  · obtain ⟨-, -, -, hle, -⟩ := h
    rw [← hrank]
    apply nearestRank_mono Nat.one_pos Nat.one_pos
    rw [Nat.mul_one, Nat.mul_one]
    exact Nat.mul_le_mul_right _ hle

/-- Digits that are left out above a middle lead to the next rank. -/
theorem nearestRank_of_isLostTie (h : IsCut n cut)
    (hrank : nearestRank (cut * unitsPerOne) 1 = rank) (hfinite : rank < infinityRank)
    (hlost : IsLostTie n cut rank) :
    rank % 2 = 0 ∧ nearestRank (n * unitsPerOne) 1 = rank + 1 := by
  obtain ⟨hne, hmeet⟩ := isLostTie_iff.1 hlost
  have htie := (nearestRank_le_iff Nat.one_pos hfinite).1 hrank.le
  rw [Nat.mul_one] at htie
  have heven : rank % 2 = 0 := htie.elim (fun hless => absurd hmeet hless.ne) And.right
  obtain ⟨place, m, c, hcut, -, habove, hstep⟩ := exists_place_of_isCut h hne hrank hfinite
  have hnext : rank + 1 < infinityRank := by
    have := infinityRank_even
    omega
  refine ⟨heven, le_antisymm ?_ ?_⟩
  · rw [nearestRank_le_iff Nat.one_pos hnext, Nat.mul_one]
    have hmiddle : middle rank + 2 ^ scale rank ≤ middle (rank + 1) := by
      have hpos := Nat.two_pow_pos (scale (rank + 1))
      rw [middle, middle, units_succ (rank + 1), units_succ rank]
      omega
    exact .inl (by omega)
  · obtain ⟨-, -, -, hle, -⟩ := h
    have hbelow : cut * unitsPerOne < n * unitsPerOne :=
      Nat.mul_lt_mul_of_pos_right (lt_of_le_of_ne hle hne) unitsPerOne_pos
    by_contra hnot
    rcases (nearestRank_le_iff Nat.one_pos hfinite).1 (not_lt.1 hnot) with hless | ⟨heq, -⟩
    · omega
    · omega

theorem nearestRank_eq_infinityRank_iff_of_isCut (h : IsCut n cut) :
    nearestRank (n * unitsPerOne) 1 = infinityRank ↔
      nearestRank (cut * unitsPerOne) 1 = infinityRank := by
  constructor
  · intro hinfinite
    by_contra hnot
    have hfinite := lt_of_le_of_ne (nearestRank_le_infinityRank _ _) hnot
    by_cases hlost : IsLostTie n cut (nearestRank (cut * unitsPerOne) 1)
    · have heven := infinityRank_even
      have hnext := nearestRank_of_isLostTie h rfl hfinite hlost
      omega
    · exact hnot ((nearestRank_of_not_isLostTie h rfl hfinite hlost).symm.trans hinfinite)
  · intro hinfinite
    obtain ⟨e, -, -, hle, -⟩ := h
    apply le_antisymm (nearestRank_le_infinityRank _ _)
    rw [← hinfinite]
    apply nearestRank_mono Nat.one_pos Nat.one_pos
    rw [Nat.mul_one, Nat.mul_one]
    exact Nat.mul_le_mul_right _ hle

end Cut

end Fingerprint.Double
