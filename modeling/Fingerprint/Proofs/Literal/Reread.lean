import Fingerprint.Proofs.Double.Ratio
import Fingerprint.Proofs.Json.Records
import Fingerprint.Proofs.Json.Written
import Fingerprint.Proofs.Literal.Order
import Fingerprint.Signature.Json
/-!
# Literals that are read back

Texts and integers below `2 ^ 53` are read back as they are.  Any other number is written with the
fewest digits that determine it, but those are read by rounding the digits and then their product or
quotient with a power of ten.  The number comes back just when these roundings end at it.
-/

namespace Fingerprint

/-! ## Integers -/

namespace Double

theorem ofUnits_units (negative : Bool) {rank : Nat} (bounded : rank ≤ infinityRank) :
    ofUnits negative (units rank) 1 = ranked negative rank bounded := by
  simp only [ofUnits, nearestRank_units bounded]

theorem safeInteger?_spec {x : Double} {n : Int} (h : x.safeInteger? = some n) :
    n.natAbs < twoPow 53 ∧ (x == ofInt n) = true := by
  cases x with
  | nan => cases h
  | ranked negative rank bounded =>
    rw [safeInteger?] at h
    split at h
    · rename_i hsafe
      obtain ⟨-, hwhole, hsmall⟩ := hsafe
      rw [Option.some_inj] at h
      have habs : n.natAbs = units rank / unitsPerOne := by
        rw [← h]
        split
        · rw [Int.natAbs_neg, Int.natAbs_natCast]
        · rw [Int.natAbs_natCast]
      have hunits : n.natAbs * unitsPerOne = units rank := by
        rw [habs, Nat.div_mul_cancel (Nat.dvd_of_mod_eq_zero hwhole)]
      have hvalue : ofInt n = ranked (decide (n < 0)) rank bounded := by
        rw [ofInt, ofRatio, hunits, ofUnits_units]
      refine ⟨habs ▸ hsmall, ?_⟩
      rw [beq_eq_decide_key, hvalue, decide_eq_true_iff, key, key]
      cases hsign : decide (n < 0)
      · -- only a zero can be negative and give an integer that is not
        rw [decide_eq_false_iff_not] at hsign
        cases negative
        · rfl
        · rw [if_pos rfl] at h
          have hzero : units rank = units 0 := by
            rw [← hunits, units_zero, show n.natAbs = 0 by omega, Nat.zero_mul]
          rw [strictMono_units.injective hzero]
          rfl
      · rw [decide_eq_true_iff] at hsign
        cases negative
        · rw [if_neg Bool.false_ne_true] at h
          omega
        · rfl
    · cases h

end Double

namespace JsonNumber

theorem toDouble_ofInteger {n : Int} (hn : n.natAbs < twoPow 53) :
    (ofInteger n).value?.map Value.toDouble = some (.ofInt n) := by
  rcases Int.eq_nat_or_neg n with ⟨m, rfl | rfl⟩
  · rw [Int.natAbs_natCast] at hn
    have hfit : m < twoPow 64 := hn.trans (twoPow_lt_twoPow (by omega))
    have hsign : decide ((m : Int) < 0) = false := by simp
    rw [value?_ofInteger_natural hfit, Option.map_some, Value.toDouble, Double.ofNat, Double.ofInt,
      hsign, Int.natAbs_natCast]
  · rw [Int.natAbs_neg, Int.natAbs_natCast] at hn
    rcases Nat.eq_zero_or_pos m with rfl | hpos
    · rfl
    · have hfit : m ≤ twoPow 63 := hn.le.trans (twoPow_le_twoPow (by omega))
      rw [value?_ofInteger_negative hpos hfit, Option.map_some, Value.toDouble]

end JsonNumber

/-! ## Doubles -/

namespace Double

def readsBack : Double → Bool
  | .ranked negative rank bounded =>
    (ranked negative rank bounded).safeInteger?.isSome ||
      decide ((shortest .toEven rank).reread = some (.ranked false rank bounded))
  | .nan => false

theorem natAbs_leadingPower_le {d : Decimal} (hfit : d.coefficient < twoPow 64)
    (hexponent : d.exponent.natAbs ≤ 345) : d.leadingPower.natAbs ≤ JsonNumber.maxExponent := by
  have hwidth : Decimal.width d.coefficient ≤ 20 := by
    apply Decimal.width_le (by omega)
    calc d.coefficient < twoPow 64 := hfit
      _ < 10 ^ 20 := by
        rw [twoPow_eq]
        norm_num
  have hmax : JsonNumber.maxExponent = 2147483647 := by decide
  rw [hmax, Decimal.leadingPower]
  omega

/-- A value of positive rank is read as its shortest digits, scaled, with its sign. -/
theorem double?_document (negative : Bool) {rank : Nat} (bounded : rank ≤ infinityRank)
    (hpos : 0 < rank) (hfinite : rank < infinityRank) :
    (ranked negative rank bounded).document.double? =
      (shortest .toEven rank).reread.map fun y => if negative then -y else y := by
  obtain ⟨-, hfit, hexponent⟩ := shortest_spec .toEven hpos hfinite
  rw [document, if_neg (ne_of_lt hfinite), Document.double?, Document.number?, jsonParts,
    if_neg (ne_of_gt hpos),
    Decimal.value?_written negative hfit (natAbs_leadingPower_le hfit hexponent), Option.map_map]
  rfl

theorem beq_ranked_iff {negative : Bool} {rank : Nat} (bounded : rank ≤ infinityRank)
    (hpos : 0 < rank) (y : Double) :
    (ranked negative rank bounded == if negative then -y else y) = true ↔
      y = ranked false rank bounded := by
  rw [beq_eq_decide_key, decide_eq_true_iff]
  cases y with
  | nan =>
    have hneg : -(nan : Double) = nan := rfl
    rw [hneg, ite_self, key, key]
    constructor
    · intro h
      split at h <;> omega
    · intro h
      cases h
  | ranked sign other otherBounded =>
    have hneg : -(ranked sign other otherBounded) = ranked (!sign) other otherBounded := rfl
    rw [hneg]
    constructor
    · intro h
      cases negative <;> cases sign <;> simp [key] at h ⊢ <;> omega
    · intro h
      cases h
      cases negative <;> rfl

/-- Powers of ten up to the twenty-second are values, so a fraction of 53 bits with at most as many
places is read by a single rounding. -/
theorem reread_of_places {d : Decimal} (hfraction : d.exponent < 0)
    (hplaces : d.exponent.natAbs ≤ 22) (hdigits : d.coefficient < 2 ^ 53) :
    d.reread = some (ofRatio false d.coefficient (tenPow d.exponent.natAbs)) := by
  have hfive : 5 ^ d.exponent.natAbs < 2 ^ 53 :=
    lt_of_le_of_lt (Nat.pow_le_pow_right (by omega) hplaces) (by norm_num)
  have hten : 5 ^ d.exponent.natAbs * twoPow d.exponent.natAbs = tenPow d.exponent.natAbs := by
    rw [twoPow_eq, ← Nat.mul_pow, tenPow_eq]
  rw [Decimal.reread, if_neg (by omega), JsonNumber.scaled?, if_neg (by omega), if_pos (by omega),
    JsonNumber.power, ← hten,
    ofNat_div_ofNat_mul hdigits hfive (by omega) (Nat.pow_pos (by omega))]

/-- **Short fractions are read back.**  A value comes back if its shortest decimal is a fraction
with digits below `2 ^ 53` and at most twenty-two places. -/
theorem readsBack_of_places (negative : Bool) {rank : Nat} (bounded : rank ≤ infinityRank)
    (hfraction : (shortest .toEven rank).exponent < 0)
    (hplaces : (shortest .toEven rank).exponent.natAbs ≤ 22)
    (hdigits : (shortest .toEven rank).coefficient < 2 ^ 53) (hfinite : rank < infinityRank) :
    (ranked negative rank bounded).readsBack = true := by
  have hpos : 0 < rank := by
    rw [Nat.pos_iff_ne_zero]
    rintro rfl
    exact absurd hfraction (by decide)
  have hrounds := (shortest_spec .toEven hpos hfinite).1
  rw [RoundsTo, gridNum, if_pos hfraction, gridDen, if_pos hfraction, Nat.mul_one] at hrounds
  rw [readsBack, reread_of_places hfraction hplaces hdigits, Bool.or_eq_true, decide_eq_true_iff]
  right
  simp only [ofRatio, ofUnits, hrounds]

end Double

namespace Literal

open Document

theorem ofDocument?_text (s : String) : ofDocument? (text s).toJson.document = some (text s) := by
  rw [toJson, Json.document, ofDocument?, text?, string?_unitsOf]
  rfl

theorem ofDocument?_number (n : JsonNumber) :
    ofDocument? (.number n) = (n.value?.map JsonNumber.Value.toDouble).map number := by
  have htext : (Document.number n).text? = none := rfl
  rw [ofDocument?, htext, double?, number?]
  rfl

theorem ofDocument?_toJson_number {x : Double} (hfinite : x.isFinite = true) :
    (∃ l, ofDocument? (number x).toJson.document = some l ∧ (number x == l) = true) ↔
      x.readsBack = true := by
  cases x with
  | nan => cases hfinite
  | ranked negative rank bounded =>
    rw [Double.isFinite, decide_eq_true_iff] at hfinite
    rw [Double.readsBack, toJson]
    cases hsafe : (Double.ranked negative rank bounded).safeInteger? with
    | some n =>
      obtain ⟨hsmall, hequal⟩ := Double.safeInteger?_spec hsafe
      rw [Json.document, ofDocument?_number, JsonNumber.toDouble_ofInteger hsmall,
        Option.isSome_some, Bool.true_or]
      exact iff_of_true ⟨_, rfl, hequal⟩ rfl
    | none =>
      have hpos : 0 < rank := by
        rw [Nat.pos_iff_ne_zero]
        rintro rfl
        rw [Double.safeInteger?_zero] at hsafe
        cases hsafe
      have hread : ofDocument? (Double.ranked negative rank bounded).document =
          ((Double.shortest .toEven rank).reread.map fun y => if negative then -y else y).map
            number := by
        rw [← Double.double?_document negative bounded hpos hfinite, Double.document,
          if_neg (ne_of_lt hfinite), ofDocument?_number]
        rfl
      rw [Json.document, hread, Option.isSome_none, Bool.false_or, decide_eq_true_iff]
      cases hreread : (Double.shortest .toEven rank).reread with
      | none => simp
      | some y =>
        rw [Option.map_some, Option.map_some, Option.some_inj,
          ← Double.beq_ranked_iff bounded hpos y]
        constructor
        · rintro ⟨l, hl, hequal⟩
          rw [← Option.some_inj.1 hl] at hequal
          exact hequal
        · intro hequal
          exact ⟨_, rfl, hequal⟩

end Literal

end Fingerprint
