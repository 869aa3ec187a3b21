import Fingerprint.Proofs.Double.Digits
import Fingerprint.Proofs.Literal.Reread
import Fingerprint.Proofs.Matching.Full
import Fingerprint.Proofs.Signature.RoundTrip
/-!
# Confidences that are read back

A confidence is written with its value and its counts.  The counts are read back if they fit 64
bits.  The value is then a fraction, which is always read back as some number, though not always as
itself.
-/

namespace Fingerprint

open Document

/-! ## Fractions -/

namespace Double

def oneRank : Nat := 1023 * twoPow 52

theorem units_oneRank : units oneRank = unitsPerOne := by decide +kernel

theorem oneRank_lt : oneRank < infinityRank := by decide

def IsFraction (x : Double) : Prop :=
  ∃ rank bounded, x = ranked false rank bounded ∧ rank ≤ oneRank

theorem nearestRank_natural_mono {m n : Nat} (h : m ≤ n) :
    nearestRank (m * unitsPerOne) 1 ≤ nearestRank (n * unitsPerOne) 1 := by
  apply nearestRank_mono Nat.one_pos Nat.one_pos
  rw [Nat.mul_one, Nat.mul_one]
  exact Nat.mul_le_mul_right unitsPerOne h

theorem nearestRank_one : nearestRank (1 * unitsPerOne) 1 = oneRank := by
  rw [Nat.one_mul, ← units_oneRank, nearestRank_units oneRank_lt.le]

theorem exists_ofNat_of_lt {n : Nat} (hn : n < twoPow 64) :
    ∃ bounded, ofNat n = ranked false (nearestRank (n * unitsPerOne) 1) bounded ∧
      nearestRank (n * unitsPerOne) 1 < infinityRank := by
  obtain ⟨rank, bounded, hvalue, hfinite, -⟩ :=
    exists_ofNat_mul_eq (m := 1) (by norm_num) (show 64 ≤ 971 by omega)
  rw [Nat.one_mul, ofNat_eq_ranked_iff] at hvalue
  refine ⟨nearestRank_le_infinityRank _ _, rfl, ?_⟩
  calc nearestRank (n * unitsPerOne) 1 ≤ nearestRank (twoPow 64 * unitsPerOne) 1 :=
        nearestRank_natural_mono hn.le
    _ = rank := hvalue
    _ < infinityRank := hfinite

theorem isFraction_div {num den : Nat} (hle : num ≤ den) (hpos : 0 < den)
    (hfit : den < twoPow 64) : (ofNat num / ofNat den).IsFraction := by
  obtain ⟨_, hnum, hnumFinite⟩ := exists_ofNat_of_lt (hle.trans_lt hfit)
  obtain ⟨_, hden, hdenFinite⟩ := exists_ofNat_of_lt hfit
  have hunits := strictMono_units.monotone (nearestRank_natural_mono hle)
  have hself := strictMono_units.monotone (nearestRank_natural_mono (Nat.one_le_of_lt hpos))
  rw [nearestRank_one, units_oneRank] at hself
  have hdenUnits := unitsPerOne_pos.trans_le hself
  rw [hnum, hden, div_ranked hnumFinite hdenFinite hdenUnits]
  refine ⟨_, _, rfl, ?_⟩
  rw [← nearestRank_one]
  apply nearestRank_mono hdenUnits Nat.one_pos
  rw [Nat.mul_one, Nat.one_mul, Nat.mul_comm unitsPerOne]
  exact Nat.mul_le_mul_right unitsPerOne hunits

theorem isSome_scaled?_of_neg (digits : Nat) {exponent : Int} (h : exponent < 0) :
    (JsonNumber.scaled? digits exponent).isSome = true := by
  rw [JsonNumber.scaled?, if_neg (by omega)]
  split_ifs <;> rfl

theorem oneRank_lt_nearestRank {n : Nat} (h : 2 ≤ n) :
    oneRank < nearestRank (n * unitsPerOne) 1 := by
  obtain ⟨two, _, hvalue, -, htwo⟩ := exists_ofNat_eq (n := 2) (by norm_num)
  refine lt_of_lt_of_le ?_ (nearestRank_natural_mono h)
  rw [ofNat_eq_ranked_iff.1 hvalue, ← strictMono_units.lt_iff_lt, htwo, units_oneRank]
  have hpos := unitsPerOne_pos
  omega

theorem isSome_reread_shortest {rank : Nat} (hpos : 0 < rank) (hle : rank ≤ oneRank) :
    (shortest .toEven rank).reread.isSome = true := by
  obtain ⟨hrounds, -, -⟩ := shortest_spec .toEven hpos (hle.trans_lt oneRank_lt)
  have hdigits := coefficient_pos hpos hrounds
  generalize shortest .toEven rank = d at hrounds hdigits ⊢
  rw [Decimal.reread]
  by_cases hsign : d.exponent < 0
  · rw [if_neg (by omega)]
    exact isSome_scaled?_of_neg _ hsign
  · -- no integer but one itself rounds to a positive fraction
    have hone : d.coefficient * tenPow d.exponent.natAbs ≤ 1 := by
      by_contra hlarge
      have hrank := oneRank_lt_nearestRank (not_le.1 hlarge)
      rw [RoundsTo, gridNum, gridDen, if_neg hsign, if_neg hsign] at hrounds
      omega
    have hten := tenPow_pos d.exponent.natAbs
    have hcoefficient : d.coefficient = 1 := by nlinarith
    have hexponent : d.exponent.natAbs = 0 := by
      rw [hcoefficient, Nat.one_mul, tenPow_eq] at hone
      by_contra hne
      exact absurd (Nat.one_lt_pow hne (by norm_num)) (not_lt.2 hone)
    have hleading : d.leadingPower = 0 := by
      rw [Decimal.leadingPower, hcoefficient, Int.natAbs_eq_zero.1 hexponent]
      rfl
    rw [if_pos (by omega)]
    exact isSome_scaled?_of_neg _ (by omega)

theorem reread_one : (shortest .toEven oneRank).reread =
    some (ranked false oneRank oneRank_lt.le) := by decide +kernel

theorem double?_document_zero : zero.document.double? = some zero := by decide +kernel

/-- The only positive fraction that is an integer is one. -/
theorem eq_oneRank_of_isSome {rank : Nat} {bounded : rank ≤ infinityRank} (hpos : 0 < rank)
    (hle : rank ≤ oneRank) (h : (ranked false rank bounded).safeInteger?.isSome = true) :
    rank = oneRank := by
  have hunits := strictMono_units hpos
  rw [units_zero] at hunits
  have hwhole : units rank % units oneRank = 0 := by
    rw [units_oneRank]
    rw [safeInteger?] at h
    split at h
    · exact ‹_ ∧ _ ∧ _›.2.1
    · cases h
  have hback := Nat.le_of_dvd hunits (Nat.dvd_of_mod_eq_zero hwhole)
  exact le_antisymm hle (strictMono_units.le_iff_le.1 hback)

variable {x : Double}

theorem IsFraction.exists_read (h : x.IsFraction) : ∃ y, x.document.double? = some y := by
  obtain ⟨rank, bounded, rfl, hle⟩ := h
  rcases Nat.eq_zero_or_pos rank with rfl | hpos
  · exact ⟨zero, double?_document_zero⟩
  · rw [double?_document false bounded hpos (hle.trans_lt oneRank_lt),
      ← Option.isSome_iff_exists, Option.isSome_map]
    exact isSome_reread_shortest hpos hle

/-- A fraction is read back as itself unless rounding its shortest digits ends elsewhere. -/
theorem IsFraction.read_eq_self_iff (h : x.IsFraction) :
    x.document.double? = some x ↔ x.readsBack = true := by
  obtain ⟨rank, bounded, rfl, hle⟩ := h
  rcases Nat.eq_zero_or_pos rank with rfl | hpos
  · refine iff_of_true double?_document_zero ?_
    rw [readsBack, safeInteger?_zero]
    rfl
  · rw [double?_document false bounded hpos (hle.trans_lt oneRank_lt), readsBack,
      Bool.or_eq_true, decide_eq_true_iff]
    simp only [Bool.false_eq_true, if_false, Option.map_id']
    refine ⟨.inr, ?_⟩
    rintro (hsafe | hread)
    · obtain rfl := eq_oneRank_of_isSome hpos hle hsafe
      exact reread_one
    · exact hread

end Double

/-! ## Confidences -/

namespace Document

theorem isReadable_ofInteger {n : Nat} (hn : n < twoPow 64) (depth : Nat) :
    (Document.number (.ofInteger n)).isReadable depth = true :=
  isReadable_of_number? (d := .number (.ofInteger n)) (JsonNumber.value?_ofInteger_natural hn) depth

theorem list?_map_ite {α β : Type} {read : Document → Option β} {write : α → Document} {f : α → β}
    {p : α → Prop} [DecidablePred p] {items : List α}
    (h : ∀ a ∈ items, read (write a) = if p a then some (f a) else none) :
    list? read (.array (items.map write)) =
      if ∀ a ∈ items, p a then some (items.map f) else none := by
  split
  · rename_i hall
    rw [list?_eq_some_iff, List.forall₂_map_left_iff, List.forall₂_map_right_iff, List.forall₂_same]
    intro a ha
    rw [h a ha, if_pos (hall a ha)]
  · rename_i hsome
    rw [Option.eq_none_iff_forall_ne_some]
    intro others hothers
    rw [list?_eq_some_iff, List.forall₂_map_left_iff] at hothers
    refine hsome fun a ha => ?_
    obtain ⟨b, hb⟩ := exists_forall₂_iff.1 ⟨others, hothers⟩ a ha
    by_contra hnot
    rw [h a ha, if_neg hnot] at hb
    cases hb

end Document

namespace Confidence

def Fits (c : Confidence) : Prop := c.num < twoPow 64 ∧ c.den < twoPow 64

instance (c : Confidence) : Decidable c.Fits := inferInstanceAs (Decidable (_ ∧ _))

def reread (c : Confidence) : Confidence := { c with val := c.val.document.double?.getD c.val }

theorem toJson_document (c : Confidence) :
    c.toJson.document = fieldsOf [("val", c.val.document), ("num", .number (.ofInteger c.num)),
      ("den", .number (.ofInteger c.den))] := rfl

variable {c : Confidence} (hc : c.IsProper)
include hc

theorem IsProper.isFraction (hfits : c.Fits) : c.val.IsFraction := by
  rw [hc.val_eq]
  exact Double.isFraction_div hc.num_le hc.den_pos hfits.2

theorem IsProper.document_val (hfits : c.Fits) : c.val.document.double? = some c.reread.val := by
  obtain ⟨y, hy⟩ := (hc.isFraction hfits).exists_read
  rw [reread, hy, Option.getD_some]

theorem IsProper.reread_eq_self_iff (hfits : c.Fits) : c.reread = c ↔ c.val.readsBack = true := by
  rw [← (hc.isFraction hfits).read_eq_self_iff, hc.document_val hfits, Option.some_inj]
  exact ⟨congrArg val, congrArg fun y => { c with val := y }⟩

theorem IsProper.ofFields?_written :
    ofFields? [some c.val.document, some (.number (.ofInteger c.num)),
        some (.number (.ofInteger c.den))] =
      if c.Fits then some c.reread else none := by
  simp only [ofFields?, required?, Option.bind_some, natural?_ofInteger]
  by_cases hfits : c.Fits
  · rw [if_pos hfits, if_pos hfits.1, if_pos hfits.2, hc.document_val hfits]
    rfl
  · rw [if_neg hfits]
    rcases not_and_or.1 hfits with hlarge | hlarge <;> simp [hlarge]

theorem IsProper.ofDocument?_toJson :
    ofDocument? c.toJson.document = if c.Fits then some c.reread else none := by
  rw [toJson_document, ofDocument?, record?_fieldsOf (by rfl) (by decide)]
  exact hc.ofFields?_written

theorem IsProper.isReadable_fields (hfits : c.Fits) (depth : Nat) :
    c.val.document.isReadable depth = true ∧
      (Document.number (.ofInteger c.num)).isReadable depth = true ∧
      (Document.number (.ofInteger c.den)).isReadable depth = true :=
  ⟨isReadable_of_double? (hc.document_val hfits) depth, isReadable_ofInteger hfits.1 depth,
    isReadable_ofInteger hfits.2 depth⟩

end Confidence

/-! ## Matches -/

namespace FunctionMatch

def Fits (m : FunctionMatch) : Prop :=
  m.unknownIndex < twoPow 64 ∧ m.matchedIndex < twoPow 64 ∧ m.prob.Fits

instance (m : FunctionMatch) : Decidable m.Fits := inferInstanceAs (Decidable (_ ∧ _ ∧ _))

def reread (m : FunctionMatch) : FunctionMatch := { m with prob := m.prob.reread }

theorem toJson_document (m : FunctionMatch) :
    m.toJson.document = fieldsOf [("unknownIndex", .number (.ofInteger m.unknownIndex)),
      ("matchedIndex", .number (.ofInteger m.matchedIndex)), ("prob", m.prob.toJson.document)] :=
  rfl

variable {m : FunctionMatch} (hm : m.prob.IsProper)
include hm

theorem ofDocument?_toJson :
    ofDocument? m.toJson.document = if m.Fits then some m.reread else none := by
  rw [toJson_document, ofDocument?, record?_fieldsOf (by rfl) (by decide)]
  simp only [List.map_cons, List.map_nil, Option.bind_eq_bind, Option.bind_some, required?,
    natural?_ofInteger, hm.ofDocument?_toJson]
  by_cases hfits : m.Fits
  · rw [if_pos hfits, if_pos hfits.1, if_pos hfits.2.1, if_pos hfits.2.2]
    rfl
  · rw [if_neg hfits]
    simp only [Fits, not_and_or] at hfits
    rcases hfits with hlarge | hlarge | hlarge <;> simp [hlarge]

theorem reread_eq_self_iff (hfits : m.Fits) : m.reread = m ↔ m.prob.val.readsBack = true := by
  rw [← hm.reread_eq_self_iff hfits.2.2]
  exact ⟨congrArg prob, congrArg fun c => { m with prob := c }⟩

theorem isReadable_toJson (hfits : m.Fits) (depth : Nat) :
    m.toJson.document.isReadable (depth + 2) = true := by
  obtain ⟨hval, hnum, hden⟩ := hm.isReadable_fields hfits.2.2 depth
  rw [toJson_document, isReadable_fieldsOf, Confidence.toJson_document]
  simp only [List.all_cons, List.all_nil, isReadable_fieldsOf, hval, hnum, hden,
    isReadable_ofInteger hfits.1, isReadable_ofInteger hfits.2.1, Bool.and_self]

end FunctionMatch

end Fingerprint
