import Mathlib.Algebra.Order.Field.Basic
import Mathlib.Data.Rat.Cast.Order
import Mathlib.Tactic.Common
import Fingerprint.Matching.Comparison
/-!
# The best candidate

Among the library functions that an unknown one is compared with, the match is the one that overlaps
most, and of several the first by index.  Which one that is depends on the order of confidences only
through what it says of the candidates.
-/

namespace Fingerprint

namespace Confidence

def ratio (c : Confidence) : ℚ := c.num / c.den

def byRatio (a b : Confidence) : Ordering := compare a.ratio b.ratio

theorem ofCounts_den_pos (num den : Nat) : 0 < (ofCounts num den).den := by
  rw [ofCounts]
  split
  · exact Nat.one_pos
  · exact Nat.pos_of_ne_zero ‹_›

/-- Counts are kept as they are, because nothing is shared where there is nothing. -/
theorem ofCounts_num {num den : Nat} (hle : num ≤ den) : (ofCounts num den).num = num := by
  rw [ofCounts]
  split
  · exact (Nat.le_zero.1 (hle.trans (by omega))).symm
  · rfl

theorem ratio_pos_iff {c : Confidence} (hden : 0 < c.den) : 0 < c.ratio ↔ 0 < c.num := by
  have hden' : (0 : ℚ) < c.den := by exact_mod_cast hden
  rw [ratio, div_pos_iff_of_pos_right hden', Nat.cast_pos]

end Confidence

/-! ## Choice -/

namespace Candidate

/-- Whether a candidate is as good as another: it overlaps more, or as much and is not later. -/
def AtLeast (a b : Candidate) : Prop :=
  b.confidence.ratio < a.confidence.ratio ∨
    b.confidence.ratio = a.confidence.ratio ∧ a.index ≤ b.index

theorem AtLeast.refl (a : Candidate) : a.AtLeast a := .inr ⟨rfl, le_rfl⟩

theorem AtLeast.trans {a b c : Candidate} (hab : a.AtLeast b) (hbc : b.AtLeast c) :
    a.AtLeast c := by
  rcases hab with hab | ⟨hab, hindex⟩
  · rcases hbc with hbc | ⟨hbc, -⟩
    · exact .inl (hbc.trans hab)
    · exact .inl (hbc.trans_lt hab)
  · rcases hbc with hbc | ⟨hbc, hindex'⟩
    · exact .inl (hbc.trans_eq hab)
    · exact .inr ⟨hbc.trans hab, hindex.trans hindex'⟩

def better (order : Confidence → Confidence → Ordering) (best c : Candidate) : Candidate :=
  if beats order c best then c else best

theorem best?_cons (order : Confidence → Confidence → Ordering) (c : Candidate)
    (candidates : List Candidate) :
    best? order (c :: candidates) = some (candidates.foldl (better order) c) := by
  rw [best?, List.foldl_cons]
  induction candidates generalizing c with
  | nil => rfl
  | cons d rest ih =>
    rw [List.foldl_cons, List.foldl_cons, ← ih, better]
    congr 1
    simp only
    split <;> rfl

theorem better_mem (order : Confidence → Confidence → Ordering) (best c : Candidate) :
    better order best c = best ∨ better order best c = c := by
  rw [better]
  split
  · exact .inr rfl
  · exact .inl rfl

theorem better_atLeast (best c : Candidate) :
    (better Confidence.byRatio best c).AtLeast best ∧
      (better Confidence.byRatio best c).AtLeast c := by
  rw [better, beats, Confidence.byRatio]
  rcases lt_trichotomy c.confidence.ratio best.confidence.ratio with hlt | heq | hgt
  · rw [compare_lt_iff_lt.2 hlt]
    exact ⟨.refl best, .inl hlt⟩
  · rw [compare_eq_iff_eq.2 heq]
    by_cases hindex : c.index < best.index
    · simp only [hindex, decide_true, if_true]
      exact ⟨.inr ⟨heq.symm, hindex.le⟩, .refl c⟩
    · simp only [hindex, decide_false, Bool.false_eq_true, if_false]
      exact ⟨.refl best, .inr ⟨heq, not_lt.1 hindex⟩⟩
  · rw [compare_gt_iff_gt.2 hgt]
    exact ⟨.inl hgt, .refl c⟩

theorem foldl_better_mem (order : Confidence → Confidence → Ordering)
    (candidates : List Candidate) (best : Candidate) :
    candidates.foldl (better order) best ∈ best :: candidates := by
  induction candidates generalizing best with
  | nil => exact List.mem_singleton_self best
  | cons c rest ih =>
    rw [List.foldl_cons]
    rcases List.mem_cons.1 (ih (better order best c)) with heq | hmem
    · rw [heq]
      rcases better_mem order best c with h | h <;> rw [h] <;> simp
    · exact List.mem_cons_of_mem _ (List.mem_cons_of_mem _ hmem)

theorem foldl_better_atLeast (candidates : List Candidate) (best : Candidate) :
    ∀ c ∈ best :: candidates, (candidates.foldl (better Confidence.byRatio) best).AtLeast c := by
  induction candidates generalizing best with
  | nil =>
    intro c hc
    rw [List.mem_singleton.1 hc]
    exact .refl best
  | cons d rest ih =>
    intro c hc
    rw [List.foldl_cons]
    have hbetter := ih (better Confidence.byRatio best d) _ List.mem_cons_self
    obtain ⟨hbest, hnext⟩ := better_atLeast best d
    rcases List.mem_cons.1 hc with rfl | hc
    · exact hbetter.trans hbest
    · rcases List.mem_cons.1 hc with rfl | hc
      · exact hbetter.trans hnext
      · exact ih _ c (List.mem_cons_of_mem _ hc)

theorem mem_of_match? {order : Confidence → Confidence → Ordering} {candidates : List Candidate}
    {b : Candidate} (h : match? order candidates = some b) :
    b ∈ candidates ∧ 0 < b.confidence.num := by
  rw [match?, Option.filter_eq_some_iff] at h
  obtain ⟨hbest, hnum⟩ := h
  refine ⟨?_, of_decide_eq_true hnum⟩
  cases candidates with
  | nil => cases hbest
  | cons c rest =>
    rw [best?_cons, Option.some_inj] at hbest
    rw [← hbest]
    exact foldl_better_mem order rest c

theorem match?_atLeast {candidates : List Candidate} {b : Candidate}
    (h : match? Confidence.byRatio candidates = some b) : ∀ c ∈ candidates, b.AtLeast c := by
  rw [match?, Option.filter_eq_some_iff] at h
  cases candidates with
  | nil => cases h.1
  | cons c rest =>
    have hbest := h.1
    rw [best?_cons, Option.some_inj] at hbest
    rw [← hbest]
    exact foldl_better_atLeast rest c

theorem match?_eq_none_iff {candidates : List Candidate}
    (hden : ∀ c ∈ candidates, 0 < c.confidence.den) :
    match? Confidence.byRatio candidates = none ↔ ∀ c ∈ candidates, c.confidence.num = 0 := by
  cases candidates with
  | nil => simp [match?, best?]
  | cons c rest =>
    have hmem := foldl_better_mem Confidence.byRatio rest c
    have hatLeast := foldl_better_atLeast rest c
    rw [match?, best?_cons, Option.filter_some]
    set best := rest.foldl (better Confidence.byRatio) c
    by_cases hbest : 0 < best.confidence.num
    · rw [if_pos (by simpa using hbest)]
      refine iff_of_false (Option.some_ne_none _) fun hall => ?_
      rw [hall best hmem] at hbest
      exact lt_irrefl 0 hbest
    · rw [if_neg (by simpa using hbest)]
      refine iff_of_true rfl fun d hd => ?_
      -- Nothing has a greater ratio than the best, which has none.
      have hzero : best.confidence.ratio ≤ 0 := by
        rwa [← not_lt, Confidence.ratio_pos_iff (hden best hmem)]
      have hle : d.confidence.ratio ≤ 0 := by
        rcases hatLeast d hd with hlt | ⟨heq, -⟩
        · exact hlt.le.trans hzero
        · exact heq.trans_le hzero
      rw [← not_lt, Confidence.ratio_pos_iff (hden d hd)] at hle
      exact Nat.eq_zero_of_not_pos hle

theorem match?_congr {order order' : Confidence → Confidence → Ordering}
    {candidates : List Candidate}
    (hagree : ∀ a ∈ candidates, ∀ b ∈ candidates,
      order a.confidence b.confidence = order' a.confidence b.confidence) :
    match? order candidates = match? order' candidates := by
  have hfold : ∀ (rest : List Candidate) (best : Candidate),
      (∀ c ∈ rest, c ∈ candidates) → best ∈ candidates →
        rest.foldl (better order) best = rest.foldl (better order') best := by
    intro rest
    induction rest with
    | nil => exact fun _ _ _ => rfl
    | cons c rest ih =>
      intro best hrest hbest
      have hc := hrest c List.mem_cons_self
      have hstep : better order best c = better order' best c := by
        rw [better, better, beats, beats, hagree c hc best hbest]
      rw [List.foldl_cons, List.foldl_cons, hstep]
      refine ih _ (fun d hd => hrest d (List.mem_cons_of_mem _ hd)) ?_
      rcases better_mem order' best c with h | h <;> rw [h] <;> assumption
  cases candidates with
  | nil => rfl
  | cons c rest =>
    rw [match?, match?, best?_cons, best?_cons,
      hfold rest c (fun d hd => List.mem_cons_of_mem _ hd) List.mem_cons_self]

end Candidate

end Fingerprint
