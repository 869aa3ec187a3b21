import Fingerprint.Proofs.Corpus.CandidateFilter
/-!
# Order of a ranking

Libraries with distinct ids are ranked in one strict order, by confidence, then by name and version.
A ranking is the front of the list of all compared libraries in that order, so neither the order
in which the libraries were added nor the cut at the end moves any of them.
-/

namespace Fingerprint

namespace RankedLibrary

/-- Whether a library stands above another: by a greater value, or else by a lower name, or else by
a lower version; texts are compared byte by byte. -/
def Outranks (a b : RankedLibrary) : Prop :=
  compare a.comparison.confidence.val b.comparison.confidence.val = .gt ∨
    compare a.comparison.confidence.val b.comparison.confidence.val = .eq ∧
      (Text.bytes a.library.name < Text.bytes b.library.name ∨
        a.library.name = b.library.name ∧
          Text.bytes a.library.version < Text.bytes b.library.version)

theorem outranks_iff (a b : RankedLibrary) : a.Outranks b ↔ a.rankKey < b.rankKey := by
  have hval : Ord.compare a.comparison.confidence.val b.comparison.confidence.val =
      Ord.compare a.comparison.confidence.val.key b.comparison.confidence.val.key := rfl
  rw [Outranks, hval, compare_gt_iff_gt, compare_eq_iff_eq, Text.bytes_lt_bytes_iff,
    Text.bytes_lt_bytes_iff, rankKey, rankKey, Prod.Lex.toLex_lt_toLex, Prod.Lex.toLex_lt_toLex,
    neg_lt_neg_iff, neg_inj]

theorem Outranks.asymm {a b : RankedLibrary} (h : a.Outranks b) : ¬b.Outranks a := by
  rw [outranks_iff] at h ⊢
  exact lt_asymm h

theorem library_eq_of_rankKey_eq {a b : RankedLibrary} (h : a.rankKey = b.rankKey) :
    a.library = b.library := by
  obtain ⟨-, hid⟩ := Prod.ext_iff.1 (toLex.injective h)
  obtain ⟨hname, hversion⟩ := Prod.ext_iff.1 (toLex.injective hid)
  cases hlibrary : a.library
  cases hlibrary' : b.library
  rw [hlibrary, hlibrary'] at hname hversion
  rw [LibraryId.mk.injEq]
  exact ⟨hname, hversion⟩

theorem pairwise_ranksBefore (ranked : List RankedLibrary) :
    (ranked.mergeSort ranksBefore).Pairwise fun a b => a.ranksBefore b = true :=
  List.pairwise_mergeSort ranksBefore_trans ranksBefore_total ranked

theorem eq_of_ranksBefore {a b : RankedLibrary} (hab : a.ranksBefore b = true)
    (hba : b.ranksBefore a = true) : a.library = b.library := by
  rw [ranksBefore_eq, decide_eq_true_iff] at hab hba
  exact library_eq_of_rankKey_eq (le_antisymm hab hba)

theorem pairwise_outranks {ranked : List RankedLibrary} (h : (ranked.map (·.library)).Nodup) :
    (ranked.mergeSort ranksBefore).Pairwise Outranks := by
  have hdistinct : (ranked.mergeSort ranksBefore).Pairwise fun a b => a.library ≠ b.library := by
    rw [← List.pairwise_map (f := RankedLibrary.library)]
    exact (((List.mergeSort_perm ranked _).map _).nodup_iff).2 h
  refine ((pairwise_ranksBefore ranked).and hdistinct).imp fun {a b} hab => ?_
  obtain ⟨hle, hne⟩ := hab
  rw [ranksBefore_eq, decide_eq_true_iff] at hle
  exact (outranks_iff a b).2 (lt_of_le_of_ne hle fun heq => hne (library_eq_of_rankKey_eq heq))

end RankedLibrary

namespace Corpus

def compared (corpus : Corpus) (options : RankOptions) (unknown : Signature) :
    List LibraryEntry :=
  (corpus.selected options unknown).filterMap (corpus.entries[·]?)

def ranking (corpus : Corpus) (strategy : Strategy) (options : RankOptions)
    (unknown : Signature) : List RankedLibrary :=
  ((corpus.compared options unknown).map (·.ranked strategy unknown)).mergeSort
    RankedLibrary.ranksBefore

theorem rank_eq_take (corpus : Corpus) (strategy : Strategy) (options : RankOptions)
    (unknown : Signature) :
    corpus.rank strategy options unknown =
      (corpus.ranking strategy options unknown).take options.topN := rfl

theorem compared_sublist {corpus : Corpus} (h : corpus.index.Knows corpus.literals)
    (options : RankOptions) (unknown : Signature) :
    (corpus.compared options unknown).Sublist corpus.entries.toList := by
  rw [compared, filterMap_selected h]
  split_ifs
  · exact .refl _
  · exact List.filter_sublist
  · exact .refl _
  · exact List.nil_sublist _

theorem compared_perm {added added' : List (LibraryId × Signature)} (hperm : added.Perm added')
    (options : RankOptions) (unknown : Signature) :
    ((ofEntries added).compared options unknown).Perm
      ((ofEntries added').compared options unknown) := by
  obtain ⟨hentries, hknows⟩ := knows_ofEntries added
  obtain ⟨hentries', hknows'⟩ := knows_ofEntries added'
  have hentriesPerm : (ofEntries added).entries.toList.Perm (ofEntries added').entries.toList := by
    rw [hentries, hentries']
    exact hperm.map _
  rw [compared, compared, filterMap_selected hknows, filterMap_selected hknows',
    hentriesPerm.any_eq]
  split_ifs
  · exact hentriesPerm
  · exact hentriesPerm.filter _
  · exact hentriesPerm
  · exact .refl _

theorem nodup_library_compared {added : List (LibraryId × Signature)}
    (hids : (added.map (·.1)).Nodup) (strategy : Strategy) (options : RankOptions)
    (unknown : Signature) :
    ((((ofEntries added).compared options unknown).map (·.ranked strategy unknown)).map
      (·.library)).Nodup := by
  obtain ⟨hentries, hknows⟩ := knows_ofEntries added
  have hsub := (compared_sublist hknows options unknown).map (·.id)
  rw [hentries, List.map_map] at hsub
  rw [List.map_map]
  exact hids.sublist hsub

theorem ranking_perm (corpus : Corpus) (strategy : Strategy) (options : RankOptions)
    (unknown : Signature) :
    (corpus.ranking strategy options unknown).Perm
      ((corpus.compared options unknown).map (·.ranked strategy unknown)) :=
  List.mergeSort_perm _ _

theorem ranking_eq_of_perm {added added' : List (LibraryId × Signature)}
    (hperm : added.Perm added') (hids : (added.map (·.1)).Nodup) (strategy : Strategy)
    (options : RankOptions) (unknown : Signature) :
    (ofEntries added).ranking strategy options unknown =
      (ofEntries added').ranking strategy options unknown := by
  apply Ascending.mergeSort_eq_of_perm RankedLibrary.ranksBefore_trans
    RankedLibrary.ranksBefore_total ((compared_perm hperm options unknown).map _)
  intro a ha b hb hab hba
  exact List.inj_on_of_nodup_map (nodup_library_compared hids strategy options unknown) ha hb
    (RankedLibrary.eq_of_ranksBefore hab hba)

/-- Corpora of the same libraries with distinct ids rank alike.  A ranking lists the selected
libraries, each once and strictly in order, and is cut off after the first `topN`, so that nothing
left out stands above what is listed. -/
theorem rank_of_perm (added added' : List (LibraryId × Signature)) (hperm : added.Perm added')
    (hids : (added.map (·.1)).Nodup) (strategy : Strategy) (options : RankOptions)
    (unknown : Signature) :
    let corpus := ofEntries added
    let listed (n : Nat) := corpus.rank strategy { options with topN := n } unknown
    let chosen := (corpus.compared options unknown).map (·.ranked strategy unknown)
    (∀ n, (ofEntries added').rank strategy { options with topN := n } unknown = listed n) ∧
    (∀ n, (listed n).Pairwise RankedLibrary.Outranks) ∧
    (chosen.map (·.library)).Nodup ∧
    (∀ n, chosen.length ≤ n → (listed n).Perm chosen) ∧
    (∀ n m, n ≤ m → listed n = (listed m).take n) ∧
    (∀ n, ∀ r ∈ listed n, ∀ omitted ∈ chosen, omitted ∉ listed n →
      r.Outranks omitted ∧ ¬omitted.Outranks r) := by
  intro corpus listed chosen
  have hnodup : (chosen.map (·.library)).Nodup :=
    nodup_library_compared hids strategy options unknown
  have hlisted : ∀ n, listed n = (corpus.ranking strategy options unknown).take n := fun n =>
    corpus.rank_eq_take strategy { options with topN := n } unknown
  have hsorted : (corpus.ranking strategy options unknown).Pairwise RankedLibrary.Outranks :=
    RankedLibrary.pairwise_outranks hnodup
  have hchosen : (corpus.ranking strategy options unknown).Perm chosen :=
    corpus.ranking_perm strategy options unknown
  refine ⟨fun n => ?_, fun n => ?_, hnodup, fun n hn => ?_, fun n m hnm => ?_, ?_⟩
  · rw [hlisted, ranking_eq_of_perm hperm hids]
    rfl
  · rw [hlisted]
    exact hsorted.sublist (List.take_sublist _ _)
  · rw [hlisted, List.take_of_length_le (hchosen.length_eq.trans_le hn)]
    exact hchosen
  · rw [hlisted, hlisted, List.take_take, Nat.min_eq_left hnm]
  · intro n r hr omitted homitted hnot
    rw [hlisted] at hr hnot
    have hdropped : omitted ∈ (corpus.ranking strategy options unknown).drop n := by
      have hmem := hchosen.mem_iff.2 homitted
      rw [← List.take_append_drop n (corpus.ranking strategy options unknown),
        List.mem_append] at hmem
      exact hmem.resolve_left hnot
    rw [← List.take_append_drop n (corpus.ranking strategy options unknown),
      List.pairwise_append] at hsorted
    have habove := hsorted.2.2 r hr omitted hdropped
    exact ⟨habove, habove.asymm⟩

/-- Two releases rank alike in whichever order they were added. -/
theorem rank_of_perm_twoReleases :
    twoReleases.Perm twoReleases.reverse ∧ (twoReleases.map (·.1)).Nodup ∧
      (ofEntries twoReleases.reverse).rank .default { topN := 1 } ⟨[], [.text "shared"]⟩ =
        (ofEntries twoReleases).rank .default { topN := 1 } ⟨[], [.text "shared"]⟩ := by
  have hperm : twoReleases.Perm twoReleases.reverse := (List.reverse_perm _).symm
  have hids : (twoReleases.map (·.1)).Nodup := by decide
  exact ⟨hperm, hids,
    (rank_of_perm twoReleases twoReleases.reverse hperm hids .default {}
      ⟨[], [.text "shared"]⟩).1 1⟩

end Corpus

end Fingerprint
