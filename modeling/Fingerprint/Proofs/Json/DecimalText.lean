import Mathlib.Tactic.NormNum
import Mathlib.Tactic.Ring
import Fingerprint.Json.Value
import Fingerprint.Proofs.Double.Rank
import Fingerprint.Proofs.Json.NumberText
/-!
# Texts of decimals

A decimal is written in positional or in scientific notation, as a number of certain parts.  What is
read from either are its digits, scaled by a power of ten.
-/

namespace Fingerprint

/-! ## Digits -/

namespace Decimal

abbrev digitsOf (n : Nat) : List Char := Nat.toDigits 10 n

theorem isDigit_of_mem_digitsOf {n : Nat} : ∀ c ∈ digitsOf n, c.isDigit = true := fun _ hc =>
  Nat.isDigit_of_mem_toDigits (by omega) (by omega) hc

theorem ofDigits_eq (digits : List Char) : ofDigits digits = Nat.ofDigitChars 10 digits 0 := rfl

@[simp] theorem ofDigits_digitsOf (n : Nat) : ofDigits (digitsOf n) = n :=
  Nat.ofDigitChars_ten_toDigits

theorem ofDigits_append (a b : List Char) :
    ofDigits (a ++ b) = 10 ^ b.length * ofDigits a + ofDigits b := by
  rw [ofDigits_eq, Nat.ofDigitChars_append, Nat.ofDigitChars_eq_ofDigitChars_zero]
  rfl

theorem ofDigits_lt {digits : List Char} (h : ∀ c ∈ digits, c.isDigit = true) :
    ofDigits digits < 10 ^ digits.length := by
  induction digits with
  | nil => exact Nat.one_pos
  | cons c rest ih =>
    have hrest := ih fun d hd => h d (List.mem_cons_of_mem _ hd)
    have hc : c.toNat - 48 ≤ 9 := by
      have hdigit := (Char.isDigit_iff_toNat.1 (h c List.mem_cons_self)).2
      have hnine : '9'.toNat = 57 := rfl
      omega
    have hone : ofDigits [c] = c.toNat - 48 := by
      simp [ofDigits]
    have hscaled := Nat.mul_le_mul_left (10 ^ rest.length) hc
    rw [← List.singleton_append, ofDigits_append, hone, List.singleton_append, List.length_cons,
      Nat.pow_succ]
    omega

theorem head?_digitsOf {n : Nat} (hn : 0 < n) : (digitsOf n).head? ≠ some '0' := by
  intro hhead
  obtain ⟨rest, hrest⟩ := List.head?_eq_some_iff.1 hhead
  have hvalue := ofDigits_digitsOf n
  have hlt : ofDigits rest < 10 ^ rest.length := by
    apply ofDigits_lt
    intro c hc
    exact isDigit_of_mem_digitsOf (n := n) c (by rw [hrest]; exact List.mem_cons_of_mem _ hc)
  have hzero : ofDigits ['0'] = 0 := rfl
  rw [hrest, ← List.singleton_append, ofDigits_append, hzero, Nat.mul_zero, Nat.zero_add] at hvalue
  rw [hvalue] at hlt
  by_cases hempty : rest = []
  · rw [hempty] at hvalue
    exact ne_of_gt hn hvalue.symm
  · have hlength : (digitsOf n).length ≤ rest.length :=
      (Nat.length_toDigits_le_iff (by omega) (List.length_pos_iff.2 hempty)).2 hlt
    rw [hrest, List.length_cons] at hlength
    omega

theorem width_pos (n : Nat) : 0 < width n := Nat.length_toDigits_pos

theorem lt_pow_width (n : Nat) : n < 10 ^ width n :=
  (Nat.length_toDigits_le_iff (by omega) (width_pos n)).1 le_rfl

theorem width_le {n k : Nat} (hk : 0 < k) (h : n < 10 ^ k) : width n ≤ k :=
  (Nat.length_toDigits_le_iff (by omega) hk).2 h

/-! ## Written decimals -/

/-- The digits of a decimal, with zeros in front that leave one digit before the places. -/
def padded (d : Decimal) : List Char :=
  List.replicate (d.exponent.natAbs + 1 - width d.coefficient) '0' ++ digitsOf d.coefficient

def positionalParts (negative : Bool) (d : Decimal) : JsonNumber :=
  if 0 ≤ d.exponent then
    ⟨negative, digitsOf d.coefficient ++ List.replicate d.exponent.natAbs '0', ['0'], none, false⟩
  else
    ⟨negative, d.padded.take (d.padded.length - d.exponent.natAbs),
      d.padded.drop (d.padded.length - d.exponent.natAbs), none, false⟩

def scientificParts (negative : Bool) (d : Decimal) : JsonNumber :=
  ⟨negative, (digitsOf d.coefficient).take 1, (digitsOf d.coefficient).drop 1,
    some (decide (d.leadingPower < 0), digitsOf d.leadingPower.natAbs), false⟩

def written (negative : Bool) (d : Decimal) : JsonNumber :=
  if -5 ≤ d.leadingPower ∧ d.leadingPower < 16 then d.positionalParts negative
  else d.scientificParts negative

theorem length_padded (d : Decimal) :
    d.padded.length = max (d.exponent.natAbs + 1) (width d.coefficient) := by
  have hwidth : (digitsOf d.coefficient).length = width d.coefficient := rfl
  rw [padded, List.length_append, List.length_replicate, hwidth]
  omega

theorem isDigit_of_mem_padded {d : Decimal} : ∀ c ∈ d.padded, c.isDigit = true := by
  intro c hc
  rcases List.mem_append.1 hc with hc | hc
  · rw [List.eq_of_mem_replicate hc]
    decide
  · exact isDigit_of_mem_digitsOf c hc

theorem isWritten_positionalParts (negative : Bool) {d : Decimal} (hd : 0 < d.coefficient) :
    (d.positionalParts negative).IsWritten := by
  rw [positionalParts]
  split
  · refine ⟨?_, ?_, ?_, ?_, ?_, rfl⟩
    · intro c hc
      rcases List.mem_append.1 hc with hc | hc
      · exact isDigit_of_mem_digitsOf c hc
      · rw [List.eq_of_mem_replicate hc]
        decide
    · simp
    · intro _
      obtain ⟨c, rest, hdigits⟩ := List.exists_cons_of_ne_nil
        (Nat.toDigits_ne_nil (b := 10) (n := d.coefficient))
      have hhead := head?_digitsOf hd
      rw [digitsOf, hdigits] at hhead ⊢
      exact hhead
    · intro c hc
      rw [List.mem_singleton.1 hc]
      decide
    · rintro _ _ h
      cases h
  · have hlength := d.length_padded
    refine ⟨fun c hc => isDigit_of_mem_padded c (List.mem_of_mem_take hc), ?_, ?_,
      fun c hc => isDigit_of_mem_padded c (List.mem_of_mem_drop hc), ?_, ?_⟩
    · rw [Ne, List.take_eq_nil_iff]
      rintro (hzero | hnil)
      · omega
      · rw [hnil, List.length_nil] at hlength
        omega
    · intro hlong
      -- More than one digit before the places means that no zeros were put in front.
      rw [List.length_take] at hlong
      have hplain : d.padded = digitsOf d.coefficient := by
        rw [padded, show d.exponent.natAbs + 1 - width d.coefficient = 0 by omega,
          List.replicate_zero, List.nil_append]
      rw [List.head?_take, if_neg (by omega), hplain]
      exact head?_digitsOf hd
    · rintro _ _ h
      cases h
    · rw [Option.isNone_none, Bool.and_true, eq_comm, ← Bool.not_eq_true, List.isEmpty_iff,
        List.drop_eq_nil_iff]
      omega

theorem isWritten_scientificParts (negative : Bool) {d : Decimal} (hd : 0 < d.coefficient) :
    (d.scientificParts negative).IsWritten := by
  refine ⟨fun c hc => isDigit_of_mem_digitsOf c (List.mem_of_mem_take hc), ?_, ?_,
    fun c hc => isDigit_of_mem_digitsOf c (List.mem_of_mem_drop hc), ?_, ?_⟩
  · simp [scientificParts]
  · intro _
    rw [scientificParts, List.head?_take, if_neg (by omega)]
    exact head?_digitsOf hd
  · rintro _ _ h
    cases h
    exact ⟨Nat.toDigits_ne_nil, isDigit_of_mem_digitsOf⟩
  · rw [scientificParts, Option.isNone_some, Bool.and_false]

theorem isWritten_written (negative : Bool) {d : Decimal} (hd : 0 < d.coefficient) :
    (d.written negative).IsWritten := by
  rw [written]
  split
  · exact isWritten_positionalParts negative hd
  · exact isWritten_scientificParts negative hd

/-! ## Texts -/

theorem toList_pushn (text : String) (c : Char) (n : Nat) :
    (text.pushn c n).toList = text.toList ++ List.replicate n c := by
  rw [String.pushn_eq_repeat_push]
  induction n with
  | zero => simp [Nat.repeat]
  | succ n ih => rw [Nat.repeat, String.toList_push, ih, List.append_assoc, List.replicate_succ']

theorem toList_positional (negative : Bool) (d : Decimal) :
    (d.positional ++ if d.exponent < 0 then "" else ".0").toList =
      (d.positionalParts negative).magnitudeText := by
  rw [positional, positionalParts, JsonNumber.magnitudeText, String.toList_append]
  split
  · rw [if_neg (by omega), toList_pushn, Nat.toList_repr]
    rfl
  · rw [if_pos (by omega)]
    have hpadded : ("".pushn '0' (d.exponent.natAbs + 1 - (Nat.repr d.coefficient).length) ++
        Nat.repr d.coefficient).toList = d.padded := by
      rw [String.toList_append, toList_pushn, Nat.toList_repr, ← String.length_toList,
        Nat.toList_repr]
      rfl
    have hlength := d.length_padded
    obtain ⟨c, rest, hfraction⟩ := List.exists_cons_of_ne_nil
      (l := d.padded.drop (d.padded.length - d.exponent.natAbs))
      (by rw [Ne, List.drop_eq_nil_iff]; omega)
    simp only [hpadded, String.toList_append, String.toList_ofList]
    rw [hfraction]
    simp [JsonNumber.fractionText, JsonNumber.exponentText]

theorem toList_scientific (negative : Bool) (d : Decimal) :
    d.scientific.toList = (d.scientificParts negative).magnitudeText := by
  have hexponent : ((if d.leadingPower < 0 then "e-" else "e+") ++
      Nat.repr d.leadingPower.natAbs).toList = JsonNumber.exponentText
        (some (decide (d.leadingPower < 0), digitsOf d.leadingPower.natAbs)) := by
    rw [String.toList_append, Nat.toList_repr, JsonNumber.exponentText]
    by_cases hsign : d.leadingPower < 0
    · simp [hsign]
    · simp [hsign]
  rw [scientific, scientificParts, JsonNumber.magnitudeText]
  simp only [Nat.toList_repr]
  rw [String.append_assoc, String.toList_append, hexponent, ← List.append_assoc]
  congr 1
  obtain ⟨first, rest, hdigits⟩ := List.exists_cons_of_ne_nil
    (Nat.toDigits_ne_nil (b := 10) (n := d.coefficient))
  rw [digitsOf, hdigits]
  cases rest with
  | nil => simp [JsonNumber.fractionText]
  | cons second rest => simp [JsonNumber.fractionText]

/-! ## Values -/

/-- What a decimal is read as after it has been written: its digits and a power of ten, multiplied
or divided.  An integer in positional notation has the digit after its point in addition. -/
def reread (d : Decimal) : Option Double :=
  if 0 ≤ d.exponent ∧ d.leadingPower < 16 then
    JsonNumber.scaled? (d.coefficient * 10 ^ d.exponent.natAbs * 10) (-1)
  else JsonNumber.scaled? d.coefficient d.exponent

theorem leading_eq {digits : List Char} :
    ∀ {n : Nat}, 10 ^ digits.length * n + ofDigits digits < twoPow 64 →
      JsonNumber.leading n digits = (10 ^ digits.length * n + ofDigits digits, 0) := by
  induction digits with
  | nil =>
    intro n _
    rw [JsonNumber.leading, List.length_nil, Nat.pow_zero, Nat.one_mul]
    rfl
  | cons c rest ih =>
    intro n hfit
    have hone : ofDigits [c] = c.toNat - '0'.toNat := by simp [ofDigits]
    have hvalue : 10 ^ (c :: rest).length * n + ofDigits (c :: rest) =
        10 ^ rest.length * (10 * n + (c.toNat - '0'.toNat)) + ofDigits rest := by
      rw [← List.singleton_append, ofDigits_append, hone, List.singleton_append, List.length_cons,
        Nat.pow_succ]
      ring
    rw [hvalue] at hfit ⊢
    have hnext : 10 * n + (c.toNat - '0'.toNat) < twoPow 64 := by
      have hone : 1 ≤ 10 ^ rest.length := Nat.one_le_pow _ _ (by omega)
      have hscale := Nat.mul_le_mul_right (10 * n + (c.toNat - '0'.toNat)) hone
      omega
    rw [JsonNumber.leading]
    simp only [hnext, if_true]
    exact ih hfit

/-- Numbers without a surplus of digits are read by one scaling of all their digits. -/
theorem double?_eq (n : JsonNumber) {digits : Nat} {exponent : Int}
    (hdigits : ofDigits (n.whole ++ n.fraction) = digits) (hfit : digits < twoPow 64)
    (hexponent : match n.exponent with
      | none => exponent = -(n.fraction.length : Int)
      | some (negative, asked) => ofDigits asked ≤ JsonNumber.maxExponent ∧
        exponent = -(n.fraction.length : Int) +
          if negative then -(ofDigits asked : Int) else ofDigits asked) :
    n.double? = (JsonNumber.scaled? digits exponent).map fun x => if n.negative then -x else x := by
  subst hdigits
  rw [ofDigits_append] at hfit ⊢
  have hwhole : JsonNumber.leading 0 n.whole = (ofDigits n.whole, 0) := by
    have hle : ofDigits n.whole ≤ 10 ^ n.fraction.length * ofDigits n.whole :=
      Nat.le_mul_of_pos_left _ (Nat.pow_pos (by omega))
    rw [leading_eq, Nat.mul_zero, Nat.zero_add]
    omega
  have hall := leading_eq (n := ofDigits n.whole) hfit
  rw [JsonNumber.double?, hwhole]
  simp only [hall]
  cases hn : n.exponent with
  | none =>
    rw [hn] at hexponent
    simp only at hexponent
    rw [hexponent]
    simp
  | some e =>
    obtain ⟨negative, asked⟩ := e
    rw [hn] at hexponent
    obtain ⟨hasked, hsum⟩ := hexponent
    simp only [if_neg (not_lt.2 hasked)]
    rw [hsum]
    cases negative <;> simp [Int.sub_eq_add_neg]

theorem ofDigits_zeros (n : Nat) : ofDigits (List.replicate n '0') = 0 := by
  rw [ofDigits_eq, Nat.ofDigitChars_replicate_zero, Nat.mul_zero]

theorem ofDigits_padded (d : Decimal) : ofDigits d.padded = d.coefficient := by
  rw [padded, ofDigits_append, ofDigits_zeros, Nat.mul_zero, Nat.zero_add, ofDigits_digitsOf]

theorem ofDigits_whole_lt {d : Decimal} (hexponent : 0 ≤ d.exponent)
    (hpower : d.leadingPower < 16) : d.coefficient * 10 ^ d.exponent.natAbs * 10 < twoPow 64 := by
  have hlength : width d.coefficient + d.exponent.natAbs ≤ 16 := by
    rw [leadingPower] at hpower
    omega
  have hcoefficient := lt_pow_width d.coefficient
  calc d.coefficient * 10 ^ d.exponent.natAbs * 10
      ≤ 10 ^ width d.coefficient * 10 ^ d.exponent.natAbs * 10 :=
        Nat.mul_le_mul_right 10 (Nat.mul_le_mul_right _ hcoefficient.le)
    _ = 10 ^ (width d.coefficient + d.exponent.natAbs) * 10 := by rw [Nat.pow_add]
    _ ≤ 10 ^ 16 * 10 := Nat.mul_le_mul_right 10 (Nat.pow_le_pow_right (by omega) hlength)
    _ < twoPow 64 := by
      rw [twoPow_eq]
      norm_num

theorem double?_integer (negative : Bool) {d : Decimal} (hexponent : 0 ≤ d.exponent)
    (hpower : d.leadingPower < 16) :
    (d.positionalParts negative).double? =
      (JsonNumber.scaled? (d.coefficient * 10 ^ d.exponent.natAbs * 10) (-1)).map
        fun x => if negative then -x else x := by
  rw [positionalParts, if_pos hexponent]
  refine double?_eq _ ?_ (ofDigits_whole_lt hexponent hpower) rfl
  have hzero : ofDigits ['0'] = 0 := rfl
  rw [ofDigits_append, ofDigits_append, ofDigits_zeros, ofDigits_digitsOf, hzero,
    List.length_replicate, List.length_singleton]
  ring

theorem double?_fraction (negative : Bool) {d : Decimal} (hexponent : d.exponent < 0)
    (hfit : d.coefficient < twoPow 64) :
    (d.positionalParts negative).double? =
      (JsonNumber.scaled? d.coefficient d.exponent).map fun x => if negative then -x else x := by
  have hlength := d.length_padded
  rw [positionalParts, if_neg (not_le.2 hexponent)]
  refine double?_eq _ ?_ hfit ?_
  · rw [List.take_append_drop, ofDigits_padded]
  · rw [List.length_drop]
    omega

theorem double?_scientific (negative : Bool) {d : Decimal} (hfit : d.coefficient < twoPow 64)
    (hpower : d.leadingPower.natAbs ≤ JsonNumber.maxExponent) :
    (d.scientificParts negative).double? =
      (JsonNumber.scaled? d.coefficient d.exponent).map fun x => if negative then -x else x := by
  refine double?_eq _ ?_ hfit ⟨?_, ?_⟩
  · rw [scientificParts, List.take_append_drop, ofDigits_digitsOf]
  · rw [ofDigits_digitsOf]
    exact hpower
  · have hwidth := width_pos d.coefficient
    have hlength : (digitsOf d.coefficient).length = width d.coefficient := rfl
    have hleading : d.leadingPower = d.exponent + width d.coefficient - 1 := rfl
    rw [ofDigits_digitsOf, scientificParts, List.length_drop, hlength]
    by_cases hsign : d.leadingPower < 0
    · rw [decide_eq_true hsign, if_pos rfl]
      omega
    · rw [decide_eq_false hsign, if_neg Bool.false_ne_true]
      omega

theorem value?_written (negative : Bool) {d : Decimal} (hfit : d.coefficient < twoPow 64)
    (hpower : d.leadingPower.natAbs ≤ JsonNumber.maxExponent) :
    (d.written negative).value? =
      d.reread.map fun x => .double (if negative then -x else x) := by
  have hwidth := width_pos d.coefficient
  have hleading : d.leadingPower = d.exponent + width d.coefficient - 1 := rfl
  have hread : (d.written negative).double? =
      d.reread.map fun x => if negative then -x else x := by
    rw [written, reread]
    by_cases hpositional : -5 ≤ d.leadingPower ∧ d.leadingPower < 16
    · rw [if_pos hpositional]
      by_cases hexponent : 0 ≤ d.exponent
      · rw [if_pos ⟨hexponent, hpositional.2⟩]
        exact double?_integer negative hexponent hpositional.2
      · rw [if_neg fun h => hexponent h.1]
        exact double?_fraction negative (not_le.1 hexponent) hfit
    · rw [if_neg hpositional, if_neg (by omega)]
      exact double?_scientific negative hfit hpower
  have hinteger : (d.written negative).isInteger = false := by
    rw [written]
    split_ifs
    · rw [positionalParts]
      split_ifs <;> rfl
    · rfl
  rw [JsonNumber.value?, hinteger, hread, Option.map_map]
  rfl

end Decimal

end Fingerprint
