import Fingerprint.Literal.Collected
import Fingerprint.Proofs.Literal.Spelling
/-!
# Values of numerals

A decimal is read as the value nearest to it.  So is a number in another radix, unless its first
bits lie in the middle between two values and it is above that: then the value below is taken.
-/

namespace Fingerprint

namespace Double

theorem nearestRank_of_eq_middle {num rank : Nat} (hfinite : rank < infinityRank)
    (hmiddle : 2 * num = middle rank) (heven : rank % 2 = 0) : nearestRank num 1 = rank := by
  apply le_antisymm
  · rw [nearestRank_le_iff Nat.one_pos hfinite, Nat.mul_one]
    exact .inr ⟨hmiddle, heven⟩
  · by_contra hnot
    obtain ⟨below, rfl⟩ : ∃ below, rank = below + 1 := ⟨rank - 1, by omega⟩
    have hle : nearestRank num 1 ≤ below := by omega
    have hmono := strictMono_middle (Nat.lt_add_one below)
    rw [nearestRank_le_iff Nat.one_pos (by omega), Nat.mul_one] at hle
    omega

end Double

namespace Numeral

open Double

/-- Whether the digits that are dropped would have decided a tie: the others lie in the middle above
an even rank, and those are not all zeros. -/
def Form.LosesTie : Form → Prop
  | decimal _ => False
  | places bits digits => ∃ rank < infinityRank, rank % 2 = 0 ∧
      IsLostTie (total bits digits) (leading bits digits) rank

theorem Form.value_nonneg (form : Form) : 0 ≤ form.value := by
  cases form with
  | decimal d =>
    rw [value, Decimal.value_eq]
    exact div_nonneg (Nat.cast_nonneg _) (Nat.cast_nonneg _)
  | places bits digits => exact Nat.cast_nonneg _

structure Form.ReadsRank (form : Form) (rank : Nat) : Prop where
  infinite : rank = infinityRank ↔ IsNearestRank form.value infinityRank
  kept : rank < infinityRank → ¬form.LosesTie → IsNearestRank form.value rank
  lost : rank < infinityRank → form.LosesTie → IsNearestRank form.value (rank + 1)

/-- Numerals of one number have the same rank, unless one of them loses a tie. -/
theorem Form.ReadsRank.eq {form form' : Form} {rank rank' : Nat} (h : form.ReadsRank rank)
    (h' : form'.ReadsRank rank') (hbounded : rank ≤ infinityRank) (hbounded' : rank' ≤ infinityRank)
    (hsame : form'.value = form.value) (hkept : ¬form.LosesTie) (hkept' : ¬form'.LosesTie) :
    rank' = rank := by
  have hinfinite := h'.infinite
  rw [hsame, ← h.infinite] at hinfinite
  rcases hbounded.eq_or_lt with heq | hfinite
  · exact (hinfinite.2 heq).trans heq.symm
  · have hfinite' : rank' < infinityRank :=
      lt_of_le_of_ne hbounded' fun heq => hfinite.ne (hinfinite.1 heq)
    have hnearest := h'.kept hfinite' hkept'
    rw [hsame] at hnearest
    exact hnearest.eq form.value_nonneg (h.kept hfinite hkept)

theorem readsRank_decimal {d : Decimal} {rank : Nat} (h : IsNearestRank d.value rank) :
    (Form.decimal d).ReadsRank rank where
  infinite := by
    constructor
    · rintro rfl
      exact h
    · exact fun hinfinite => h.eq (Form.decimal d).value_nonneg hinfinite
  kept _ _ := h
  lost _ hlost := hlost.elim

theorem readsRank_places {bits : Nat} {digits : List Nat}
    (hdigits : ∀ d ∈ digits, d < twoPow bits) :
    (Form.places bits digits).ReadsRank
      (nearestRank (leading bits digits * unitsPerOne) 1) := by
  have hcut : IsCut (total bits digits) (leading bits digits) :=
    isCut_foldl hdigits (.refl 0)
  refine ⟨?_, fun hfinite hkept => ?_, fun hfinite hlost => ?_⟩
  · rw [Form.value, isNearestRank_natCast_iff, nearestRank_eq_infinityRank_iff_of_isCut hcut]
  · rw [Form.value, isNearestRank_natCast_iff]
    apply nearestRank_of_not_isLostTie hcut rfl hfinite
    exact fun htie => hkept ⟨_, hfinite, (nearestRank_of_isLostTie hcut rfl hfinite htie).1, htie⟩
  · rw [Form.value, isNearestRank_natCast_iff]
    obtain ⟨rank, hrank, heven, htie⟩ := hlost
    have hround : nearestRank (leading bits digits * unitsPerOne) 1 = rank :=
      nearestRank_of_eq_middle hrank (isLostTie_iff.1 htie).2 heven
    rw [hround] at hfinite ⊢
    exact (nearestRank_of_isLostTie hcut hround hfinite htie).2

theorem Spells.exists_read_eq {text : List Char} {form : Form} (h : Spells text form) :
    ∃ rank bounded, form.read = .ranked false rank bounded ∧ form.ReadsRank rank := by
  have hplaces : ∀ {bits : Nat} {text : List Char} {digits : List Nat},
      text.map (digit? (twoPow bits)) = digits.map some →
      ∃ rank bounded, (Form.places bits digits).read = .ranked false rank bounded ∧
        (Form.places bits digits).ReadsRank rank := fun hdigits =>
    ⟨_, nearestRank_le_infinityRank _ _, rfl, readsRank_places (forall_lt_of_digits hdigits)⟩
  cases form with
  | decimal d =>
    obtain ⟨rank, bounded, hread, hnearest⟩ := d.exists_toDouble_eq
    exact ⟨rank, bounded, hread, readsRank_decimal hnearest⟩
  | places bits digits =>
    cases h with
    | marked hmark hne hdigits => exact hplaces hdigits
    | octal hne hdigits => exact @hplaces 3 _ _ hdigits

theorem value?_of_readsRank {text : String} {form : Form} (h : Spells (plain text) form)
    {rank : Nat} {bounded : rank ≤ infinityRank} (hread : form.read = .ranked false rank bounded) :
    value? text = if rank < infinityRank then some (.ranked false rank bounded) else none := by
  rw [value?_eq_of_spells h, hread, Option.filter_some]
  simp only [isFinite, decide_eq_true_eq]

/-- **Numerals are read as the nearest values, but for ties that are lost.**  There is no value just
for the numbers that are rounded to infinity.  Where a tie is lost, the value is the one below the
nearest, and else it is the nearest.  So numerals of one number are read alike, and contribute the
same literal, unless one of them loses a tie. -/
theorem value?_spelled {text : String} {form : Form} (h : Spells (plain text) form) :
    (value? text = none ↔ IsNearestRank form.value infinityRank) ∧
      (∀ x, value? text = some x → ∃ rank bounded, x = .ranked false rank bounded ∧
        rank < infinityRank ∧ (IsNearestRank form.value rank ↔ ¬form.LosesTie) ∧
        (form.LosesTie → IsNearestRank form.value (rank + 1))) ∧
      ∀ text' form', Spells (plain text') form' → form'.value = form.value → ¬form.LosesTie →
        ¬form'.LosesTie → value? text' = value? text ∧
          (value? text ≠ none → ∀ negated,
            Literal.ofNumeral negated text' = Literal.ofNumeral negated text) := by
  obtain ⟨rank, bounded, hread, hreads⟩ := h.exists_read_eq
  have hvalue := value?_of_readsRank h hread
  refine ⟨?_, fun x hx => ?_, fun text' form' h' hsame hkept hkept' => ?_⟩
  · rw [hvalue, ← hreads.infinite]
    rcases bounded.eq_or_lt with hinfinite | hfinite
    · rw [if_neg hinfinite.not_lt]
      exact iff_of_true rfl hinfinite
    · rw [if_pos hfinite]
      exact iff_of_false (fun hnone => nomatch hnone) hfinite.ne
  · rw [hvalue] at hx
    split at hx
    · rename_i hfinite
      refine ⟨rank, bounded, (Option.some_inj.1 hx).symm, hfinite, ⟨fun hnearest hlost => ?_,
        hreads.kept hfinite⟩, hreads.lost hfinite⟩
      have hsucc := hnearest.eq form.value_nonneg (hreads.lost hfinite hlost)
      omega
    · cases hx
  · obtain ⟨rank', bounded', hread', hreads'⟩ := h'.exists_read_eq
    have hrank : rank' = rank := hreads.eq hreads' bounded bounded' hsame hkept hkept'
    have hequal : value? text' = value? text := by
      rw [hvalue, value?_of_readsRank h' hread']
      subst hrank
      rfl
    refine ⟨hequal, fun hsome negated => ?_⟩
    cases hcase : value? text with
    | none => exact absurd hcase hsome
    | some x => rw [Literal.ofNumeral, Literal.ofNumeral, hequal, hcase]

theorem value?_spelled_thirtyOne :
    Spells (plain "0X1_F") (.places 4 [1, 15]) ∧ Spells (plain "31.") (.decimal ⟨31, 0⟩) ∧
      value? "31." = value? "0X1_F" ∧
      Literal.ofNumeral true "31." = Literal.ofNumeral true "0X1_F" := by
  have hmarked : Spells (plain "0X1_F") (.places 4 [1, 15]) :=
    @Spells.marked 'x' 4 ['1', 'f'] [1, 15] (by decide) (by decide) (by decide)
  have hdecimal : Spells (plain "31.") (.decimal ⟨31, 0⟩) :=
    @Spells.point ['3', '1'] [] [] 0 (by decide) (by decide) .none
  have hvalue : (Form.decimal ⟨31, 0⟩).value = (Form.places 4 [1, 15]).value := by
    norm_num [Form.value, Decimal.value, total, twoPow_eq]
  have hkept : ¬(Form.places 4 [1, 15]).LosesTie := by
    rintro ⟨rank, -, -, hlost⟩
    exact hlost.1 (by decide)
  obtain ⟨hequal, hliteral⟩ := (value?_spelled hmarked).2.2 _ _ hdecimal hvalue hkept id
  exact ⟨hmarked, hdecimal, hequal, hliteral (by decide +kernel) true⟩

/-- The digits of `2 ^ 57 + 17` in radix sixteen are read as `2 ^ 57`, although the next value is
nearer and is what the decimal digits are read as. -/
theorem value?_lostTie :
    ∃ form rank bounded, Spells (plain "0x200000000000011") form ∧
      form.value = (2 ^ 57 + 17 : ℕ) ∧
      value? "0x200000000000011" = some (.ranked false rank bounded) ∧
      ¬IsNearestRank form.value rank ∧
      value? "144115188075855889" ≠ value? "0x200000000000011" := by
  have hspelled : Spells (plain "0x200000000000011")
      (.places 4 [2, 0, 0, 0, 0, 0, 0, 0, 0, 0, 0, 0, 0, 1, 1]) :=
    @Spells.marked 'x' 4 "200000000000011".toList _ (by decide) (by decide)
      (by decide)
  refine ⟨_, 1080 * twoPow 52, by decide, hspelled, congrArg Nat.cast (by decide),
    by decide +kernel, ?_, by decide +kernel⟩
  rw [Form.value, isNearestRank_natCast_iff]
  decide +kernel

end Numeral

end Fingerprint
