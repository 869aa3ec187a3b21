import Fingerprint.Corpus.Basic
import Fingerprint.Proofs.Literal.Candidates
import Fingerprint.Proofs.Matching.Overlap
/-!
# Ranking among candidates

Ranking with the candidate filter is ranking without it, restricted to the libraries that share a
literal.  The filter chooses libraries by their numbers in the index, the other way goes over all
entries; both sort what they choose by one order, and sorting is stable.
-/

namespace Fingerprint

namespace LibraryEntry

def shares (unknown : Signature) (e : LibraryEntry) : Bool :=
  Literal.share unknown.literals e.signature.literals

def ranked (strategy : Strategy) (unknown : Signature) (e : LibraryEntry) : RankedLibrary :=
  ⟨e.id, strategy.compare unknown e.signature⟩

end LibraryEntry

namespace LibraryId

theorem le_eq (a b : LibraryId) :
    a.le b = decide (toLex (a.name, a.version) ≤ toLex (b.name, b.version)) := by
  rw [le, Bool.eq_iff_iff, Bool.or_eq_true, Bool.and_eq_true, decide_eq_true_iff,
    decide_eq_true_iff, decide_eq_true_iff, beq_iff_eq, Prod.Lex.toLex_le_toLex]

end LibraryId

namespace RankedLibrary

def rankKey (r : RankedLibrary) : ℤ ×ₗ String ×ₗ String :=
  toLex (-r.comparison.confidence.val.key, toLex (r.library.name, r.library.version))

theorem ranksBefore_eq (a b : RankedLibrary) :
    a.ranksBefore b = decide (a.rankKey ≤ b.rankKey) := by
  have hval : Ord.compare a.comparison.confidence.val b.comparison.confidence.val =
      Ord.compare a.comparison.confidence.val.key b.comparison.confidence.val.key := rfl
  rw [ranksBefore, hval, Bool.eq_iff_iff, decide_eq_true_iff, rankKey, rankKey,
    Prod.Lex.toLex_le_toLex]
  rcases lt_trichotomy a.comparison.confidence.val.key b.comparison.confidence.val.key with
    hlt | heq | hgt
  · rw [compare_lt_iff_lt.2 hlt]
    constructor
    · intro h
      exact absurd h Bool.false_ne_true
    · rintro (h | ⟨h, -⟩) <;> omega
  · rw [compare_eq_iff_eq.2 heq, heq]
    simp only [lt_irrefl, false_or, true_and, LibraryId.le_eq, decide_eq_true_iff]
  · rw [compare_gt_iff_gt.2 hgt]
    exact iff_of_true rfl (.inl (by omega))

theorem ranksBefore_trans (a b c : RankedLibrary) :
    a.ranksBefore b → b.ranksBefore c → a.ranksBefore c := by
  rw [ranksBefore_eq, ranksBefore_eq, ranksBefore_eq, decide_eq_true_iff, decide_eq_true_iff,
    decide_eq_true_iff]
  exact le_trans

theorem ranksBefore_total (a b : RankedLibrary) : a.ranksBefore b || b.ranksBefore a := by
  rw [ranksBefore_eq, ranksBefore_eq, Bool.or_eq_true, decide_eq_true_iff, decide_eq_true_iff]
  exact le_total _ _

end RankedLibrary

namespace Corpus

/-! ## The entries and their numbers -/

def literals (corpus : Corpus) : List (List Literal) :=
  corpus.entries.toList.map (·.signature.literals)

theorem knows_ofEntries (added : List (LibraryId × Signature)) :
    (ofEntries added).entries.toList = added.map (fun (id, signature) => ⟨id, signature⟩) ∧
      (ofEntries added).index.Knows (ofEntries added).literals := by
  have hadd : ∀ (rest : List (LibraryId × Signature)) (corpus : Corpus),
      corpus.index.Knows corpus.literals →
        let result := rest.foldl (fun corpus (id, signature) => corpus.add id signature) corpus
        result.entries.toList =
          corpus.entries.toList ++ rest.map (fun (id, signature) => ⟨id, signature⟩) ∧
        result.index.Knows result.literals := by
    intro rest
    induction rest with
    | nil =>
      intro corpus h
      exact ⟨(List.append_nil _).symm, h⟩
    | cons entry rest ih =>
      intro corpus h
      have hnext :
          (corpus.add entry.1 entry.2).index.Knows (corpus.add entry.1 entry.2).literals := by
        rw [literals, add, Array.toList_push, List.map_append]
        exact h.add entry.2.literals
      obtain ⟨hentries, hknows⟩ := ih (corpus.add entry.1 entry.2) hnext
      refine ⟨?_, hknows⟩
      rw [List.foldl_cons, hentries, add, Array.toList_push, List.append_assoc]
      rfl
  exact hadd added {} LiteralIndex.knows_empty

theorem filterMap_numbers (entries : List LibraryEntry) (p : List Literal → Bool) :
    (LiteralIndex.numbers (entries.map (·.signature.literals)) p).filterMap (entries[·]?) =
      entries.filter fun e => p e.signature.literals := by
  induction entries using List.reverseRecOn with
  | nil => rfl
  | append_singleton entries e ih =>
    rw [List.map_append, List.map_singleton, LiteralIndex.numbers_concat, List.filterMap_append,
      List.filter_append]
    congr 1
    · rw [← ih]
      apply List.filterMap_congr
      intro i hi
      obtain ⟨known, hknown, -⟩ := LiteralIndex.mem_numbers.1 hi
      have hlt := (List.getElem?_eq_some_iff.1 hknown).1
      rw [List.length_map] at hlt
      exact List.getElem?_append_left hlt
    · rw [List.length_map, List.filter_singleton]
      cases p e.signature.literals with
      | true => simp
      | false => rfl

theorem filterMap_range (corpus : Corpus) :
    (List.range corpus.entries.size).filterMap (corpus.entries[·]?) = corpus.entries.toList := by
  have hrange := filterMap_numbers corpus.entries.toList fun _ => true
  rw [LiteralIndex.numbers_true, List.length_map, Array.length_toList, List.filter_true] at hrange
  simpa using hrange

theorem filterMap_candidates {corpus : Corpus} (h : corpus.index.Knows corpus.literals)
    {unknown : Signature} (hunknown : unknown.literals.isEmpty = false) :
    (corpus.index.candidates unknown.literals).filterMap (corpus.entries[·]?) =
      corpus.entries.toList.filter (·.shares unknown) := by
  have hfound := filterMap_numbers corpus.entries.toList
    fun known => Literal.share unknown.literals known
  simp only [Array.getElem?_toList] at hfound
  rw [h.candidates_eq]
  simp only [hunknown, Bool.false_or]
  exact hfound

theorem mem_candidates_iff {corpus : Corpus} (h : corpus.index.Knows corpus.literals)
    {unknown : Signature} (hunknown : unknown.literals.isEmpty = false) {i : Nat} :
    i ∈ corpus.index.candidates unknown.literals ↔
      ∃ e, corpus.entries[i]? = some e ∧ e.shares unknown = true := by
  rw [h.candidates_eq, LiteralIndex.mem_numbers]
  simp only [hunknown, Bool.false_or, literals, List.getElem?_map, Array.getElem?_toList,
    Option.map_eq_some_iff]
  constructor
  · rintro ⟨known, ⟨e, he, rfl⟩, hshare⟩
    exact ⟨e, he, hshare⟩
  · rintro ⟨e, he, hshare⟩
    exact ⟨e.signature.literals, ⟨e, he, rfl⟩, hshare⟩

theorem isEmpty_candidates {corpus : Corpus} (h : corpus.index.Knows corpus.literals)
    {unknown : Signature} (hunknown : unknown.literals.isEmpty = false) :
    (corpus.index.candidates unknown.literals).isEmpty =
      !corpus.entries.toList.any (·.shares unknown) := by
  rw [Bool.eq_iff_iff, List.isEmpty_iff, Bool.not_eq_true', List.any_eq_false,
    List.eq_nil_iff_forall_not_mem]
  simp only [mem_candidates_iff h hunknown, not_exists, not_and]
  constructor
  · intro hnot e he
    obtain ⟨i, hi⟩ := List.getElem?_of_mem he
    rw [Array.getElem?_toList] at hi
    exact hnot i e hi
  · intro hnot i e he
    exact hnot e (Array.mem_toList_iff.2 (Array.mem_of_getElem? he))

theorem filterMap_selected {corpus : Corpus} (h : corpus.index.Knows corpus.literals)
    (options : RankOptions) (unknown : Signature) :
    (corpus.selected options unknown).filterMap (corpus.entries[·]?) =
      if options.useCandidateFilter = false ∨ unknown.literals.isEmpty = true then
        corpus.entries.toList
      else if corpus.entries.toList.any (·.shares unknown) then
        corpus.entries.toList.filter (·.shares unknown)
      else if options.fallbackToFullCorpus then corpus.entries.toList
      else [] := by
  rw [selected]
  cases hfilter : options.useCandidateFilter with
  | false => exact filterMap_range corpus
  | true =>
    simp only [if_true, Bool.true_eq_false, false_or]
    cases hunknown : unknown.literals.isEmpty with
    | true =>
      have hall : corpus.index.candidates unknown.literals = List.range corpus.entries.size := by
        rw [h.candidates_eq]
        simp only [hunknown, Bool.true_or]
        rw [LiteralIndex.numbers_true, literals, List.length_map, Array.length_toList]
      rw [hall, ite_self]
      exact filterMap_range corpus
    | false =>
      rw [isEmpty_candidates h hunknown]
      cases hany : corpus.entries.toList.any (·.shares unknown) with
      | true => exact filterMap_candidates h hunknown
      | false =>
        cases options.fallbackToFullCorpus with
        | true => exact filterMap_range corpus
        | false =>
          have hnone : (corpus.index.candidates unknown.literals).isEmpty = true := by
            rw [isEmpty_candidates h hunknown, hany]
            rfl
          rw [List.isEmpty_iff.1 hnone]
          rfl

/-! ## Rankings -/

def order (corpus : Corpus) (strategy : Strategy) (unknown : Signature) : List LibraryEntry :=
  corpus.entries.toList.mergeSort fun a b =>
    (a.ranked strategy unknown).ranksBefore (b.ranked strategy unknown)

theorem order_perm (corpus : Corpus) (strategy : Strategy) (unknown : Signature) :
    (corpus.order strategy unknown).Perm corpus.entries.toList :=
  List.mergeSort_perm _ _

/-- A ranking that is not cut off lists what is compared in the order of the whole corpus. -/
theorem rank_eq_map (corpus : Corpus) (strategy : Strategy) (options : RankOptions)
    (unknown : Signature) (p : LibraryEntry → Bool)
    (hcompared : (corpus.selected options unknown).filterMap (corpus.entries[·]?) =
      corpus.entries.toList.filter p)
    (htop : corpus.entries.size ≤ options.topN) :
    corpus.rank strategy options unknown =
      ((corpus.order strategy unknown).filter p).map (·.ranked strategy unknown) := by
  have hlength : (corpus.entries.toList.filter p).length ≤ options.topN :=
    le_trans (List.length_filter_le _ _) htop
  have hstable : (corpus.order strategy unknown).filter p =
      (corpus.entries.toList.filter p).mergeSort
        fun a b => (a.ranked strategy unknown).ranksBefore (b.ranked strategy unknown) :=
    Ascending.filter_mergeSort
      (fun a b c => RankedLibrary.ranksBefore_trans (a.ranked strategy unknown)
        (b.ranked strategy unknown) (c.ranked strategy unknown))
      (fun a b => RankedLibrary.ranksBefore_total (a.ranked strategy unknown)
        (b.ranked strategy unknown))
      p corpus.entries.toList
  have hmap : ((corpus.entries.toList.filter p).mergeSort fun a b =>
      (a.ranked strategy unknown).ranksBefore (b.ranked strategy unknown)).map
        (·.ranked strategy unknown) =
      ((corpus.entries.toList.filter p).map (·.ranked strategy unknown)).mergeSort
        RankedLibrary.ranksBefore :=
    List.map_mergeSort fun a _ b _ => rfl
  rw [rank, hcompared, hstable, hmap]
  apply List.take_of_length_le
  rw [List.length_mergeSort, List.length_map]
  exact hlength

theorem rank_eq_map_order (corpus : Corpus) (strategy : Strategy) (options : RankOptions)
    (unknown : Signature)
    (hcompared : (corpus.selected options unknown).filterMap (corpus.entries[·]?) =
      corpus.entries.toList)
    (htop : corpus.entries.size ≤ options.topN) :
    corpus.rank strategy options unknown =
      (corpus.order strategy unknown).map (·.ranked strategy unknown) := by
  have hrank := rank_eq_map corpus strategy options unknown (fun _ => true)
    (hcompared.trans (List.filter_true _).symm) htop
  rwa [List.filter_true] at hrank

/-- Ranking with the candidate filter restricts the full ranking to the libraries that share a
literal, falls back to all of them as the options say, and leaves out nothing that scores by
literals. -/
theorem rank_candidateFilter (added : List (LibraryId × Signature)) (strategy : Strategy)
    (options : RankOptions) (unknown : Signature) (htop : added.length ≤ options.topN) :
    let corpus := ofEntries added
    (∃ order : List LibraryEntry,
      order.Perm (added.map fun (id, signature) => ⟨id, signature⟩) ∧
      corpus.rank strategy { options with useCandidateFilter := false } unknown =
        order.map (·.ranked strategy unknown) ∧
      corpus.rank strategy { options with useCandidateFilter := true } unknown =
        if unknown.literals.isEmpty then order.map (·.ranked strategy unknown)
        else if order.any (·.shares unknown) then
          (order.filter (·.shares unknown)).map (·.ranked strategy unknown)
        else if options.fallbackToFullCorpus then order.map (·.ranked strategy unknown)
        else []) ∧
    (unknown.literals ≠ [] → ∀ i e measure, corpus.entries[i]? = some e →
      (i ∈ corpus.index.candidates unknown.literals ↔
        0 < (Strategy.score (.literals measure) unknown e.signature).num) ∧
      (i ∉ corpus.index.candidates unknown.literals →
        (Strategy.score (.literals measure) unknown e.signature).val = .zero)) := by
  obtain ⟨hentries, hknows⟩ := knows_ofEntries added
  intro corpus
  have hsize : corpus.entries.size = added.length := by
    rw [← Array.length_toList, hentries, List.length_map]
  rw [← hsize] at htop
  refine ⟨⟨corpus.order strategy unknown, ?_, ?_, ?_⟩, ?_⟩
  · rw [← hentries]
    exact corpus.order_perm strategy unknown
  · apply rank_eq_map_order
    · rw [filterMap_selected hknows, if_pos (.inl rfl)]
    · exact htop
  · have hany : (corpus.order strategy unknown).any (·.shares unknown) =
        corpus.entries.toList.any (·.shares unknown) :=
      (corpus.order_perm strategy unknown).any_eq
    have hselected := filterMap_selected hknows { options with useCandidateFilter := true } unknown
    simp only [Bool.true_eq_false, false_or] at hselected
    rw [hany]
    split_ifs with hempty hshares hfallback
    · rw [if_pos hempty] at hselected
      exact rank_eq_map_order _ _ _ _ hselected htop
    · rw [if_neg hempty, if_pos hshares] at hselected
      exact rank_eq_map _ _ _ _ _ hselected htop
    · rw [if_neg hempty, if_neg hshares, if_pos hfallback] at hselected
      exact rank_eq_map_order _ _ _ _ hselected htop
    · rw [if_neg hempty, if_neg hshares, if_neg hfallback] at hselected
      rw [rank, hselected, List.map_nil, List.mergeSort_nil, List.take_nil]
  · intro hunknown i e measure he
    have hempty : unknown.literals.isEmpty = false := by simpa using hunknown
    have hmem : i ∈ corpus.index.candidates unknown.literals ↔ e.shares unknown = true := by
      rw [mem_candidates_iff hknows hempty]
      constructor
      · rintro ⟨e', he', hshares⟩
        rw [he, Option.some_inj] at he'
        rwa [he']
      · exact fun hshares => ⟨e, he, hshares⟩
    rw [hmem, Strategy.score_literals_num_pos measure e.signature hunknown]
    refine ⟨Iff.rfl, fun hnot => ?_⟩
    exact (Strategy.score_literals_eq_zero measure hunknown (Bool.not_eq_true _ ▸ hnot)).2

/-- A library that holds a text, and another release of it that does not. -/
def twoReleases : List (LibraryId × Signature) :=
  [(⟨"lib", "1"⟩, ⟨[], [.text "shared"]⟩), (⟨"lib", "2"⟩, ⟨[], [.text "other"]⟩)]

/-- Of two releases the one that shares the text of the unknown signature is listed. -/
theorem rank_candidateFilter_twoReleases :
    ∃ order : List LibraryEntry,
      order.Perm (twoReleases.map fun (id, signature) => ⟨id, signature⟩) ∧
      (ofEntries twoReleases).rank .default { topN := 2 } ⟨[], [.text "shared"]⟩ =
        (order.filter (·.shares ⟨[], [.text "shared"]⟩)).map
          (·.ranked .default ⟨[], [.text "shared"]⟩) := by
  obtain ⟨⟨order, hperm, -, hrank⟩, -⟩ :=
    rank_candidateFilter twoReleases .default { topN := 2 } ⟨[], [.text "shared"]⟩ (by decide)
  have hany : order.any (·.shares ⟨[], [.text "shared"]⟩) = true := by
    rw [hperm.any_eq]
    decide
  refine ⟨order, hperm, ?_⟩
  rw [if_neg (by decide), if_pos hany] at hrank
  exact hrank

end Corpus

end Fingerprint
