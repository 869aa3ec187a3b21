import Fingerprint.Proofs.Corpus.Ranking
import Fingerprint.Proofs.Matching.Full
/-!
# Copies in a corpus

A library that is an exact copy of the unknown signature is never lost: no filter drops it, it is
fully matched, and what stands above it is fully matched as well.  Confidences are read as exact
ratios, which their values stand for as long as the counts have at most 53 bits.
-/

namespace Fingerprint

namespace RankedLibrary

/-- Whether one library ranks before another if confidences are compared by a given order. -/
def ranksBeforeBy (order : Confidence → Confidence → Ordering) (a b : RankedLibrary) : Bool :=
  match order a.comparison.confidence b.comparison.confidence with
  | .gt => true
  | .eq => a.library.le b.library
  | .lt => false

section Sorting

variable {κ : Type} [LinearOrder κ] {order : Confidence → Confidence → Ordering}
variable {key : Confidence → κ}

def rankKeyBy (key : Confidence → κ) (r : RankedLibrary) : κᵒᵈ ×ₗ String ×ₗ String :=
  toLex (OrderDual.toDual (key r.comparison.confidence), toLex (r.library.name, r.library.version))

theorem ranksBeforeBy_eq (horder : ∀ c d, order c d = compare (key c) (key d))
    (a b : RankedLibrary) :
    ranksBeforeBy order a b = decide (rankKeyBy key a ≤ rankKeyBy key b) := by
  rw [ranksBeforeBy, horder, Bool.eq_iff_iff, decide_eq_true_iff, rankKeyBy, rankKeyBy,
    Prod.Lex.toLex_le_toLex, OrderDual.toDual_lt_toDual, OrderDual.toDual_inj]
  rcases lt_trichotomy (key a.comparison.confidence) (key b.comparison.confidence) with
    hlt | heq | hgt
  · rw [compare_lt_iff_lt.2 hlt]
    refine iff_of_false Bool.false_ne_true ?_
    rintro (hgt | ⟨heq, -⟩)
    · exact lt_asymm hlt hgt
    · exact ne_of_lt hlt heq
  · rw [compare_eq_iff_eq.2 heq, heq]
    simp only [lt_irrefl, false_or, true_and, LibraryId.le_eq, decide_eq_true_iff]
  · rw [compare_gt_iff_gt.2 hgt]
    exact iff_of_true rfl (.inl hgt)

theorem pairwise_ranksBeforeBy (horder : ∀ c d, order c d = compare (key c) (key d))
    (ranked : List RankedLibrary) :
    (ranked.mergeSort (ranksBeforeBy order)).Pairwise
      fun a b => ranksBeforeBy order a b = true := by
  apply List.pairwise_mergeSort
  · intro a b c
    rw [ranksBeforeBy_eq horder, ranksBeforeBy_eq horder, ranksBeforeBy_eq horder,
      decide_eq_true_iff, decide_eq_true_iff, decide_eq_true_iff]
    exact le_trans
  · intro a b
    rw [ranksBeforeBy_eq horder, ranksBeforeBy_eq horder, Bool.or_eq_true, decide_eq_true_iff,
      decide_eq_true_iff]
    exact le_total _ _

end Sorting

theorem isFull_of_ranksBeforeBy {order : Confidence → Confidence → Ordering}
    {p : Confidence → Prop} (horder : Confidence.TellsFull order p) {a b : RankedLibrary}
    (ha : p a.comparison.confidence) (hb : p b.comparison.confidence)
    (hfull : b.comparison.confidence.IsFull) (h : ranksBeforeBy order a b = true) :
    a.comparison.confidence.IsFull ∧ a.library.le b.library = true := by
  rw [ranksBeforeBy] at h
  by_cases hfullA : a.comparison.confidence.IsFull
  · rw [horder.alike _ _ ha hb hfullA hfull] at h
    exact ⟨hfullA, h⟩
  · rw [horder.below _ _ ha hb hfullA hfull] at h
    exact absurd h Bool.false_ne_true

/-- A library is listed in a ranking with a full match, and what is listed before it are full
matches with lower ids, or with the same. -/
structure IsOnTop (copy : RankedLibrary) (ranking : List RankedLibrary) : Prop where
  mem : copy ∈ ranking
  full : copy.comparison.confidence.num = copy.comparison.confidence.den
  before : ∀ earlier later, ranking = earlier ++ copy :: later → ∀ r ∈ earlier,
    r.comparison.confidence.num = r.comparison.confidence.den ∧ r.library.le copy.library = true

end RankedLibrary

namespace Literal

theorem share_self {literals : List Literal} (h : literals.isEmpty = false) :
    share literals literals = true := by
  rw [share_iff, Finset.inter_self]
  exact keys_nonempty (List.isEmpty_eq_false_iff.1 h)

end Literal

namespace Corpus

def rankBy (order : Confidence → Confidence → Ordering) (corpus : Corpus) (strategy : Strategy)
    (options : RankOptions) (unknown : Signature) : List RankedLibrary :=
  (((corpus.compared options unknown).map fun e =>
    (⟨e.id, strategy.compareBy order unknown e.signature⟩ : RankedLibrary)).mergeSort
      (RankedLibrary.ranksBeforeBy order)).take options.topN

theorem rank_eq_rankBy (corpus : Corpus) (strategy : Strategy) (options : RankOptions)
    (unknown : Signature) :
    corpus.rank strategy options unknown =
      corpus.rankBy Confidence.byValue strategy options unknown := rfl

theorem mem_compared_copy {added : List (LibraryId × Signature)} {id : LibraryId} {s : Signature}
    (hmem : (id, s) ∈ added) (options : RankOptions) :
    ⟨id, s⟩ ∈ (ofEntries added).compared options s := by
  obtain ⟨hentries, hknows⟩ := knows_ofEntries added
  have hentry : (⟨id, s⟩ : LibraryEntry) ∈ (ofEntries added).entries.toList := by
    rw [hentries]
    exact List.mem_map_of_mem hmem
  rw [compared, filterMap_selected hknows]
  by_cases hall : options.useCandidateFilter = false ∨ s.literals.isEmpty = true
  · rw [if_pos hall]
    exact hentry
  · have hshares : (⟨id, s⟩ : LibraryEntry).shares s = true :=
      Literal.share_self (Bool.eq_false_of_not_eq_true (not_or.1 hall).2)
    rw [if_neg hall, if_pos (List.any_eq_true.2 ⟨_, hentry, hshares⟩)]
    exact List.mem_filter.2 ⟨hentry, hshares⟩

theorem mem_rankBy {order : Confidence → Confidence → Ordering} {corpus : Corpus}
    {strategy : Strategy} {options : RankOptions} {unknown : Signature} {r : RankedLibrary}
    (h : r ∈ corpus.rankBy order strategy options unknown) :
    ∃ e ∈ corpus.compared options unknown,
      (⟨e.id, strategy.compareBy order unknown e.signature⟩ : RankedLibrary) = r :=
  List.mem_map.1 (List.mem_mergeSort.1 (List.mem_of_mem_take h))

section Copy

variable {κ : Type} [LinearOrder κ] {order : Confidence → Confidence → Ordering}
variable {key : Confidence → κ} {p : Confidence → Prop}
variable {added : List (LibraryId × Signature)} {id : LibraryId} {s : Signature}

/-- An order that tells full confidences apart keeps a copy on top. -/
theorem isOnTop_rankBy (horder : ∀ c d, order c d = compare (key c) (key d))
    (hfull : Confidence.TellsFull order p) (hmem : (id, s) ∈ added) (strategy : Strategy)
    (options : RankOptions) (htop : added.length ≤ options.topN)
    (hfunctions : ∀ strictness, ∀ f ∈ s.functions, ∀ g ∈ s.functions, p (f.overlap strictness g))
    (hranked : ∀ r ∈ (ofEntries added).rankBy order strategy options s, p r.comparison.confidence)
    (hnum : 0 < (strategy.compareBy order s s).confidence.num) :
    RankedLibrary.IsOnTop ⟨id, strategy.compareBy order s s⟩
      ((ofEntries added).rankBy order strategy options s) := by
  obtain ⟨hentries, hknows⟩ := knows_ofEntries added
  have hself := Strategy.isFull_compareBy_self hfull strategy hfunctions hnum
  have hlength : ((ofEntries added).compared options s).length ≤ options.topN := by
    have hle := (compared_sublist hknows options s).length_le
    rw [hentries, List.length_map] at hle
    exact hle.trans htop
  have hsorted : ((ofEntries added).rankBy order strategy options s).Pairwise
      fun a b => RankedLibrary.ranksBeforeBy order a b = true :=
    (RankedLibrary.pairwise_ranksBeforeBy horder _).sublist (List.take_sublist _ _)
  have hcopy : (⟨id, strategy.compareBy order s s⟩ : RankedLibrary) ∈
      (ofEntries added).rankBy order strategy options s := by
    rw [rankBy, List.take_of_length_le, List.mem_mergeSort]
    · exact List.mem_map.2 ⟨⟨id, s⟩, mem_compared_copy hmem options, rfl⟩
    · rw [List.length_mergeSort, List.length_map]
      exact hlength
  refine ⟨hcopy, hself, fun earlier later hsplit r hr => ?_⟩
  have hbefore := hsorted
  rw [hsplit, List.pairwise_append] at hbefore
  have hrmem : r ∈ (ofEntries added).rankBy order strategy options s := by
    rw [hsplit]
    exact List.mem_append_left _ hr
  exact RankedLibrary.isFull_of_ranksBeforeBy hfull (hranked r hrmem) (hranked _ hcopy) hself
    (hbefore.2.2 r hr _ List.mem_cons_self)

end Copy

/-- A copy of the unknown signature is on top of every ranking that is not cut off, whatever the
candidate filter does: it is fully matched, and only full matches with lower ids are before it.
The values that a ranking really goes by change nothing of this for counts of at most 53 bits. -/
theorem rank_copy :
    (∀ (strategy : Strategy) (s : Signature),
      0 < (strategy.compareBy Confidence.byRatio s s).confidence.num →
        (strategy.compareBy Confidence.byRatio s s).confidence.num =
          (strategy.compareBy Confidence.byRatio s s).confidence.den) ∧
    ∀ (added : List (LibraryId × Signature)) (id : LibraryId) (s : Signature) (strategy : Strategy)
      (options : RankOptions), (id, s) ∈ added → added.length ≤ options.topN →
        (0 < (strategy.compareBy Confidence.byRatio s s).confidence.num →
          RankedLibrary.IsOnTop ⟨id, strategy.compareBy Confidence.byRatio s s⟩
            ((ofEntries added).rankBy Confidence.byRatio strategy options s)) ∧
        (0 < (strategy.compare s s).confidence.num →
          (∀ f ∈ s.functions, f.statementTokens.length < 2 ^ 52) →
          (∀ r ∈ (ofEntries added).rank strategy options s,
            r.comparison.confidence.den < 2 ^ 53) →
          RankedLibrary.IsOnTop ⟨id, strategy.compare s s⟩
            ((ofEntries added).rank strategy options s)) := by
  refine ⟨fun strategy s hnum => ?_, fun added id s strategy options hmem htop => ⟨?_, ?_⟩⟩
  · exact Strategy.isFull_compareBy_self Confidence.tellsFull_byRatio strategy
      (fun strictness f _ g _ => f.isProper_overlap strictness g) hnum
  · apply isOnTop_rankBy (fun _ _ => rfl) Confidence.tellsFull_byRatio hmem strategy options htop
    · exact fun strictness f _ g _ => f.isProper_overlap strictness g
    · intro r hr
      obtain ⟨e, -, rfl⟩ := mem_rankBy hr
      exact Strategy.isProper_compareBy _ strategy s e.signature
  · intro hnum htokens hcounts
    rw [rank_eq_rankBy] at hcounts ⊢
    refine isOnTop_rankBy Confidence.byValue_eq Confidence.tellsFull_byValue hmem strategy options
      htop ?_ ?_ hnum
    · exact fun strictness f hf g hg =>
        FunctionSignature.isExact_overlap (htokens f hf) (htokens g hg)
    · intro r hr
      obtain ⟨e, -, heq⟩ := mem_rankBy hr
      refine ⟨?_, hcounts r hr⟩
      rw [← heq]
      exact Strategy.isProper_compareBy _ strategy s e.signature

def withEmptyFunction : Signature :=
  ⟨[{ name := "f", index := 0, statementTokens := ["A"] }, { name := "g", index := 1 }],
    [.text "shared"]⟩

/-- The signature, known as it is and under a lower id with another token. -/
def copied : List (LibraryId × Signature) :=
  [(⟨"copy", "1"⟩, withEmptyFunction),
    (⟨"changed", "1"⟩, ⟨[{ name := "f", index := 0, statementTokens := ["B"] }],
      [.text "shared"]⟩)]

theorem den_lt_of_mem_rank_copied : ∀ r ∈ (ofEntries copied).rank (.functionTokens .strict) {}
    withEmptyFunction, r.comparison.confidence.den < 2 ^ 53 := by
  intro r hr
  rw [rank_eq_rankBy] at hr
  obtain ⟨e, he, rfl⟩ := mem_rankBy hr
  obtain ⟨hentries, hknows⟩ := knows_ofEntries copied
  have hmem := (compared_sublist hknows {} withEmptyFunction).subset he
  rw [hentries] at hmem
  obtain ⟨c, hc, rfl⟩ := List.mem_map.1 hmem
  have hall : ∀ c ∈ copied, ((Strategy.functionTokens .strict).compareBy Confidence.byValue
      withEmptyFunction c.2).confidence.den < 2 ^ 53 := by decide +kernel
  exact hall c hc

/-- The copy is listed first, although the other id is lower. -/
theorem rank_copy_emptyFunction :
    (⟨"copy", "1"⟩, withEmptyFunction) ∈ copied ∧
    (∃ copy : RankedLibrary, copy.library = ⟨"copy", "1"⟩ ∧
      copy.IsOnTop ((ofEntries copied).rankBy Confidence.byRatio (.functionTokens .strict) {}
        withEmptyFunction)) ∧
    ∃ copy : RankedLibrary, copy.library = ⟨"copy", "1"⟩ ∧
      copy.IsOnTop ((ofEntries copied).rank (.functionTokens .strict) {} withEmptyFunction) := by
  have hmem : (⟨"copy", "1"⟩, withEmptyFunction) ∈ copied := List.mem_cons_self
  have htop := rank_copy.2 copied _ _ (.functionTokens .strict) {} hmem (by decide)
  exact ⟨hmem, ⟨_, rfl, htop.1 (by decide +kernel)⟩,
    ⟨_, rfl, htop.2 (by decide +kernel) (by decide) den_lt_of_mem_rank_copied⟩⟩

end Corpus

end Fingerprint
