import Fingerprint.Proofs.Double.Nearest
import Fingerprint.Proofs.Literal.Exposed
/-!
# Discriminative literals

A literal signature is made of numbers that are not among the common ones and of texts that are not
empty, each of them once and in their order.  Numbers are compared as the rationals that they are,
so that neither the spelling of a number nor the sign of a zero counts.
-/

namespace Fingerprint

namespace Double

theorem magnitude_eq_natCast_iff {rank n : Nat} :
    magnitude rank = n ↔ units rank = n * unitsPerOne := by
  rw [magnitude, div_eq_iff unitsPerOne_cast_pos.ne', ← Nat.cast_mul, Nat.cast_inj]

theorem ofInt_eq_of_magnitude {n : Int} {rank : Nat} (bounded : rank ≤ infinityRank)
    (h : magnitude rank = n.natAbs) : ofInt n = ranked (decide (n < 0)) rank bounded := by
  have hround : nearestRank (n.natAbs * unitsPerOne) 1 = rank := by
    rw [← magnitude_eq_natCast_iff.1 h, nearestRank_units bounded]
  simp only [ofInt, ofRatio, ofUnits, hround]

theorem beq_ofInt_of_rational? {x : Double} {n : Int} (h : x.rational? = some (n : ℚ)) :
    (x == ofInt n) = true := by
  cases x with
  | nan => cases h
  | ranked negative rank bounded =>
    rw [rational?] at h
    split at h
    · rw [Option.some_inj] at h
      have hnonneg := magnitude_nonneg rank
      cases negative with
      | false =>
        rw [if_neg Bool.false_ne_true] at h
        have hn : 0 ≤ n := Int.cast_nonneg_iff.1 (h ▸ hnonneg)
        have habs : magnitude rank = n.natAbs := by
          rw [h, Nat.cast_natAbs, abs_of_nonneg hn]
        rw [beq_eq_decide_key, ofInt_eq_of_magnitude bounded habs, decide_eq_false (not_lt.2 hn)]
        exact decide_eq_true rfl
      | true =>
        rw [if_pos rfl] at h
        have hn : n ≤ 0 := Int.cast_nonpos.1 (h ▸ neg_nonpos.2 hnonneg)
        have habs : magnitude rank = n.natAbs := by
          rw [Nat.cast_natAbs, abs_of_nonpos hn, Int.cast_neg, ← h, neg_neg]
        rw [beq_eq_decide_key, ofInt_eq_of_magnitude bounded habs, decide_eq_true_iff, key, key]
        rcases hn.lt_or_eq with hlt | rfl
        · rw [decide_eq_true hlt]
        · have hzero : magnitude rank = magnitude 0 := by simpa using habs
          rw [strictMono_magnitude.injective hzero]
          rfl
    · cases h

end Double

namespace Literal

/-- What can be in a literal signature: finite numbers but those from minus one to five, and texts
that are not empty. -/
def IsDiscriminative : Literal → Prop
  | number x => ∃ q, x.rational? = some q ∧ ∀ n : Int, -1 ≤ n → n ≤ 5 → q ≠ n
  | text s => s ≠ ""

theorem isDiscriminative_number {x : Double} (hkept : (number x).isKept = true) :
    (number x).IsDiscriminative := by
  rw [isKept, Bool.and_eq_true, Bool.not_eq_true'] at hkept
  obtain ⟨hfinite, hrare⟩ := hkept
  cases x with
  | nan => cases hfinite
  | ranked negative rank bounded =>
    rw [Double.isFinite, decide_eq_true_iff] at hfinite
    refine ⟨_, if_pos hfinite, fun n hlow hhigh heq => ?_⟩
    have hequal : (Double.ranked negative rank bounded == Double.ofInt n) = true := by
      apply Double.beq_ofInt_of_rational?
      rw [← heq]
      exact if_pos hfinite
    have hcommon : isCommon (Double.ranked negative rank bounded) = true := by
      rw [isCommon, List.contains_iff_exists_mem_beq]
      refine ⟨Double.ofInt n, List.mem_map_of_mem ?_, hequal⟩
      simp only [List.mem_cons, List.not_mem_nil, or_false]
      omega
    rw [hcommon] at hrare
    cases hrare

theorem isDiscriminative_text_of_ofNumeral {negated : Bool} {text s : String}
    (h : OfNumeral negated text (.text s)) : s ≠ "" := by
  cases h with
  | text hvalue hne =>
    cases negated with
    | false => exact hne
    | true =>
      intro hempty
      have hlist := congrArg String.toList hempty
      simp at hlist

end Literal

theorem Node.Denotes.ne_empty {n : Node} {s : String} (h : n.Denotes (.text s)) : s ≠ "" := by
  cases h with
  | string hkind hcontent hne => exact hne
  | number hkind h => exact Literal.isDiscriminative_text_of_ofNumeral h
  | negated hnumber h => exact Literal.isDiscriminative_text_of_ofNumeral h
  | regex hkind =>
    intro hempty
    have hlist := congrArg String.toList hempty
    simp [Node.regexText] at hlist
  | template hkind hne => exact hne

namespace Site

theorem isDiscriminative_of_mem_literal {s : Site} {signal : Signal Literal}
    (h : s.literal = .ok signal) : ∀ l ∈ signal.data, l.IsDiscriminative := by
  intro l hl
  have hkept := isKept_of_mem_literal h l hl
  rw [literal] at h
  split at h
  · cases h
    cases hl
  · cases l with
    | number x => exact Literal.isDiscriminative_number hkept
    | text s => exact (Node.denotes_of_literal h hl).ne_empty

/-- **A literal signature is discriminative.**  All of its numbers are finite and none is a common
one, none of its texts is empty, nothing is in it twice, and it ascends. -/
theorem literals_discriminative {root : Site} {literals : List Literal}
    (h : root.literals = .ok literals) :
    (∀ l ∈ literals, l.IsDiscriminative) ∧
      literals.Pairwise (fun a b => (a == b) = false) ∧
      literals.Pairwise (fun a b => compare a b = .lt) ∧
      ∀ options signature, Signature.extract options root = .ok signature →
        signature.literals = literals := by
  have hliterals := h
  rw [Site.literals, map_eq_ok] at h
  obtain ⟨found, hfound, rfl⟩ := h
  have hascending := Literal.pairwise_lt_ascending (Entry.toListAll found)
  refine ⟨fun l hl => ?_, hascending.imp fun hlt => ?_, hascending.imp fun hlt => ?_,
    fun options signature hsignature => ?_⟩
  · exact forall_mem_walk (fun _ _ _ hsignal => isDiscriminative_of_mem_literal hsignal) hfound l
      (Literal.mem_of_mem_ascending hl)
  · rw [Literal.lt_eq, decide_eq_true_iff] at hlt
    rw [Literal.beq_eq_decide_sortKey, decide_eq_false_iff_not]
    exact ne_of_lt hlt
  · exact Ordering.isLT_iff_eq_lt.1 hlt
  · rw [Signature.extract] at hsignature
    obtain ⟨forest, -, hrest⟩ := bind_eq_ok.1 hsignature
    obtain ⟨literals', hliterals', hpure⟩ := bind_eq_ok.1 hrest
    cases hpure
    exact (Except.ok.inj (hliterals.symm.trans hliterals')).symm

theorem literals_discriminative_negatedCall :
    ∃ root literals, Node.ofRows? "f(-7, \"a\");" negatedCall = some root ∧
      Site.literals ⟨root, []⟩ = .ok literals ∧ .text "a" ∈ literals ∧
      (∀ l ∈ literals, l.IsDiscriminative) ∧
      literals.Pairwise (fun a b => (a == b) = false) ∧
      literals.Pairwise (fun a b => compare a b = .lt) ∧
      ∀ options signature, Signature.extract options ⟨root, []⟩ = .ok signature →
        signature.literals = literals := by
  have hchecked : (Node.ofRows? "f(-7, \"a\");" negatedCall).map (fun root =>
      (walk (fun _ s => s.literal) ⟨root, []⟩).toOption.any fun found =>
        (Entry.toListAll found).any fun l => decide (l = .text "a")) = some true := by
    decide +kernel
  obtain ⟨root, hroot, hfound⟩ := Option.map_eq_some_iff.1 hchecked
  obtain ⟨literals, hliterals, hmem⟩ := exists_literals_of_found hfound
  exact ⟨root, literals, hroot, hliterals, hmem, literals_discriminative hliterals⟩

/-- Spellings of common numbers contribute nothing. -/
example : ["0x1", "1e0", "00", "0_5", "0.5e1"].all fun text =>
    (Literal.ofNumeral false text).data.isNone := by
  decide +kernel

end Site

end Fingerprint
