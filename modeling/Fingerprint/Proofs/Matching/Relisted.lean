import Fingerprint.Proofs.Arranged
import Fingerprint.Proofs.Matching.Extremes
/-!
# Signatures that list the same

Comparing two signatures does not depend on the order in which they list functions, tokens, types
and literals: the best candidate is the one of greatest rank, whatever comes first, and all else is
a sum, a set or sorted.  What an unknown function is called and which index it has does not count
for the confidence.
-/

namespace Fingerprint

/-! ## The best candidate in any order -/

namespace Candidate

variable {κ : Type} [LinearOrder κ]

def rank (key : Confidence → κ) (c : Candidate) : κ ×ₗ ℕᵒᵈ :=
  toLex (key c.confidence, OrderDual.toDual c.index)

variable {order : Confidence → Confidence → Ordering} {key : Confidence → κ}
  (horder : ∀ c d, order c d = compare (key c) (key d))
include horder

theorem beats_iff (c best : Candidate) :
    beats order c best = true ↔ rank key best < rank key c := by
  rw [beats, horder, rank, rank, Prod.Lex.toLex_lt_toLex]
  rcases lt_trichotomy (key c.confidence) (key best.confidence) with hlt | heq | hgt
  · rw [compare_lt_iff_lt.2 hlt]
    refine iff_of_false Bool.false_ne_true ?_
    rintro (hgt | ⟨heq, -⟩)
    · exact lt_asymm hlt hgt
    · exact hlt.ne' heq
  · rw [compare_eq_iff_eq.2 heq, heq]
    simp only [lt_irrefl, false_or, true_and, decide_eq_true_iff, OrderDual.toDual_lt_toDual]
  · rw [compare_gt_iff_gt.2 hgt]
    exact iff_of_true rfl (.inl hgt)

theorem rank_le_better (best c : Candidate) :
    rank key best ≤ rank key (better order best c) ∧
      rank key c ≤ rank key (better order best c) := by
  rw [better]
  split
  · rename_i hbeats
    exact ⟨((beats_iff horder c best).1 hbeats).le, le_rfl⟩
  · rename_i hbeaten
    exact ⟨le_rfl, not_lt.1 (mt (beats_iff horder c best).2 hbeaten)⟩

theorem rank_le_foldl_better (candidates : List Candidate) (best : Candidate) :
    ∀ c ∈ best :: candidates, rank key c ≤ rank key (candidates.foldl (better order) best) := by
  induction candidates generalizing best with
  | nil =>
    intro c hc
    rw [List.mem_singleton.1 hc]
    exact le_rfl
  | cons d rest ih =>
    intro c hc
    rw [List.foldl_cons]
    have hbetter := ih (better order best d) _ List.mem_cons_self
    obtain ⟨hbest, hnext⟩ := rank_le_better horder best d
    rcases List.mem_cons.1 hc with rfl | hc
    · exact hbest.trans hbetter
    · rcases List.mem_cons.1 hc with rfl | hc
      · exact hnext.trans hbetter
      · exact ih _ c (List.mem_cons_of_mem _ hc)

theorem exists_best? {candidates : List Candidate} (h : candidates ≠ []) :
    ∃ b ∈ candidates, best? order candidates = some b ∧
      ∀ c ∈ candidates, rank key c ≤ rank key b := by
  obtain ⟨c, rest, rfl⟩ := List.exists_cons_of_ne_nil h
  exact ⟨_, foldl_better_mem order rest c, best?_cons order c rest,
    rank_le_foldl_better horder rest c⟩

/-- Candidates with different indices have one best, in whatever order they come. -/
theorem match?_eq_of_perm {candidates candidates' : List Candidate}
    (hperm : candidates.Perm candidates') (hnodup : (candidates.map (·.index)).Nodup) :
    match? order candidates = match? order candidates' := by
  by_cases hnil : candidates = []
  · subst hnil
    rw [List.nil_perm.1 hperm]
  · have hnil' : candidates' ≠ [] := by
      rintro rfl
      exact hnil (List.perm_nil.1 hperm)
    obtain ⟨b, hb, hbest, hmax⟩ := exists_best? horder hnil
    obtain ⟨b', hb', hbest', hmax'⟩ := exists_best? horder hnil'
    have hrank : rank key b = rank key b' :=
      le_antisymm (hmax' b (hperm.mem_iff.1 hb)) (hmax b' (hperm.mem_iff.2 hb'))
    have hindex : b.index = b'.index :=
      congrArg (fun r : κ ×ₗ ℕᵒᵈ => OrderDual.ofDual (ofLex r).2) hrank
    have hsame : b = b' := List.inj_on_of_nodup_map hnodup hb (hperm.mem_iff.2 hb') hindex
    rw [match?, match?, hbest, hbest', hsame]

end Candidate

/-! ## Functions and signatures that list the same -/

namespace FunctionSignature

structure SameContents (f f' : FunctionSignature) : Prop where
  tokens : f.statementTokens.Perm f'.statementTokens
  types : f.statementTypes.Perm f'.statementTypes

structure SameRecord (f f' : FunctionSignature) : Prop extends SameContents f f' where
  name : f.name = f'.name
  index : f.index = f'.index

theorem tokenBag_eq {f f' : FunctionSignature} (h : f.SameContents f') (strictness : Strictness) :
    strictness.tokenBag f.statementTokens = strictness.tokenBag f'.statementTokens := by
  cases strictness with
  | loose => exact congrArg Finset.val (List.toFinset_eq_of_perm _ _ h.tokens)
  | strict => exact Multiset.coe_eq_coe.2 h.tokens

theorem overlap_eq {f f' g g' : FunctionSignature} (hf : f.SameContents f')
    (hg : g.SameContents g') (strictness : Strictness) :
    f.overlap strictness g = f'.overlap strictness g' := by
  rw [overlap, overlap, tokenBag_eq hf, tokenBag_eq hg]

end FunctionSignature

namespace Signature

/-- Two signatures whose functions correspond in any order and which have the same literals, each in
any place and any number of times. -/
structure Relists (r : FunctionSignature → FunctionSignature → Prop) (s s' : Signature) : Prop where
  functions : Arranged True r s.functions s'.functions
  literals : Within s.literals s'.literals
  literals_right : Within s'.literals s.literals

namespace Relists

variable {r : FunctionSignature → FunctionSignature → Prop} {s s' : Signature}
  (h : s.Relists r s')
include h

theorem imp {q : FunctionSignature → FunctionSignature → Prop} (hrq : ∀ f f', r f f' → q f f') :
    s.Relists q s' :=
  ⟨h.functions.imp hrq, h.literals, h.literals_right⟩

theorem keys_eq : Literal.keys s.literals = Literal.keys s'.literals :=
  Finset.Subset.antisymm ((keys_subset_iff Literal.beq_eq_decide_sortKey).2 h.literals)
    ((keys_subset_iff Literal.beq_eq_decide_sortKey).2 h.literals_right)

theorem map_perm {α : Type} {value value' : FunctionSignature → α}
    (hvalue : ∀ f f', r f f' → value f = value' f') :
    (s.functions.map value).Perm (s'.functions.map value') :=
  (h.functions.map hvalue).rearranged.perm

theorem types_eq (hr : ∀ f f', r f f' → f.SameContents f') : s.types = s'.types := by
  have htypes : (s.functions.flatMap FunctionSignature.statementTypes).Perm
      (s'.functions.flatMap FunctionSignature.statementTypes) :=
    (h.functions.rearranged_flatMap fun f f' hff' => .inr ⟨trivial, (hr f f' hff').types⟩).perm
  rw [types, types, textSet, textSet, sortTexts_eq_of_perm htypes]

theorem names_eq (hr : ∀ f f', r f f' → f.name = f'.name) : s.names = s'.names := by
  rw [names, names, textSet, textSet, sortTexts_eq_of_perm (h.map_perm hr)]

end Relists

end Signature

/-! ## Alignments -/

namespace Alignment

variable {κ : Type} [LinearOrder κ] {order : Confidence → Confidence → Ordering}
  {key : Confidence → κ} (horder : ∀ c d, order c d = compare (key c) (key d))
  (strictness : Strictness) {library library' : Signature}
  (hlibrary : library.Relists FunctionSignature.SameRecord library')
  (hnodup : (library.functions.map (·.index)).Nodup)
include horder hlibrary hnodup

theorem match?_candidates_eq {f f' : FunctionSignature} (h : f.SameContents f') :
    Candidate.match? order (candidates strictness library f) =
      Candidate.match? order (candidates strictness library' f') := by
  have hcandidates : (candidates strictness library f).Perm (candidates strictness library' f') := by
    refine (hlibrary.functions.map fun g g' hgg' => ?_).rearranged.perm
    rw [FunctionSignature.candidate, FunctionSignature.candidate, hgg'.index,
      FunctionSignature.overlap_eq h hgg'.toSameContents]
  refine Candidate.match?_eq_of_perm horder hcandidates ?_
  rwa [candidates, List.map_map]

theorem matchOf?_eq {f f' : FunctionSignature} (h : f.SameRecord f') :
    matchOf? order strictness library f = matchOf? order strictness library' f' := by
  rw [matchOf?, matchOf?, match?_candidates_eq horder strictness hlibrary hnodup h.toSameContents,
    h.index]

theorem counts_eq {f f' : FunctionSignature} (h : f.SameContents f') :
    counts order strictness library f = counts order strictness library' f' := by
  rw [counts, counts, matchOf?, matchOf?, match?_candidates_eq horder strictness hlibrary hnodup h,
    size, size, FunctionSignature.tokenBag_eq h]
  cases Candidate.match? order (candidates strictness library' f') <;> rfl

theorem ofSignatures_counts_eq {r : FunctionSignature → FunctionSignature → Prop}
    {unknown unknown' : Signature} (hunknown : unknown.Relists r unknown')
    (hr : ∀ f f', r f f' → f.SameContents f') :
    (ofSignatures order strictness unknown library).num =
        (ofSignatures order strictness unknown' library').num ∧
      (ofSignatures order strictness unknown library).den =
        (ofSignatures order strictness unknown' library').den := by
  have hcounts : ∀ f f', r f f' →
      counts order strictness library f = counts order strictness library' f' :=
    fun f f' hff' => counts_eq horder strictness hlibrary hnodup (hr f f' hff')
  obtain ⟨hnum, hden⟩ := ofSignatures_counts order strictness unknown library
  obtain ⟨hnum', hden'⟩ := ofSignatures_counts order strictness unknown' library'
  rw [hnum, hden, hnum', hden']
  constructor
  · exact (hunknown.map_perm fun f f' hff' => congrArg Prod.fst (hcounts f f' hff')).sum_eq
  · exact (hunknown.map_perm fun f f' hff' => congrArg Prod.snd (hcounts f f' hff')).sum_eq

end Alignment

namespace MatchMap

variable {κ : Type} [LinearOrder κ] {order : Confidence → Confidence → Ordering}
  {key : Confidence → κ} (horder : ∀ c d, order c d = compare (key c) (key d))
include horder

theorem listedBefore_iff (a b : FunctionMatch) :
    listedBefore order a b = true ↔
      toLex (OrderDual.toDual (key a.prob), a.unknownIndex) ≤
        toLex (OrderDual.toDual (key b.prob), b.unknownIndex) := by
  rw [listedBefore, horder, Prod.Lex.toLex_le_toLex, OrderDual.toDual_lt_toDual,
    OrderDual.toDual_inj]
  rcases lt_trichotomy (key a.prob) (key b.prob) with hlt | heq | hgt
  · rw [compare_lt_iff_lt.2 hlt]
    refine iff_of_false Bool.false_ne_true ?_
    rintro (hgt | ⟨heq, -⟩)
    · exact lt_asymm hlt hgt
    · exact hlt.ne heq
  · rw [compare_eq_iff_eq.2 heq, heq]
    simp only [lt_irrefl, false_or, true_and, decide_eq_true_iff]
  · rw [compare_gt_iff_gt.2 hgt]
    exact iff_of_true rfl (.inl hgt)

theorem sorted_eq_of_perm {map map' : MatchMap} (hperm : map.entries.Perm map'.entries)
    (hnodup : (map.entries.map (·.unknownIndex)).Nodup) : map.sorted order = map'.sorted order := by
  refine Ascending.mergeSort_eq_of_perm (fun a b c => ?_) (fun a b => ?_) hperm
    fun a ha b hb hab hba => ?_
  · rw [listedBefore_iff horder, listedBefore_iff horder, listedBefore_iff horder]
    exact le_trans
  · rw [Bool.or_eq_true, listedBefore_iff horder, listedBefore_iff horder]
    exact le_total _ _
  · rw [listedBefore_iff horder] at hab hba
    have hindex : a.unknownIndex = b.unknownIndex :=
      congrArg (fun k : κᵒᵈ ×ₗ Nat => (ofLex k).2) (le_antisymm hab hba)
    exact List.inj_on_of_nodup_map hnodup ha hb hindex

end MatchMap

/-! ## Comparisons -/

namespace Strategy

def readsNames : Strategy → Bool
  | functionNames _ => true
  | _ => false

/-- The confidence does not depend on how unknown functions are listed, nor on their indices, nor on
their names unless these are compared. -/
theorem confidence_relabelled (strategy : Strategy) {unknown unknown' library library' : Signature}
    (hunknown : unknown.Relists
      (fun f f' => f.SameContents f' ∧ (strategy.readsNames = true → f.name = f'.name)) unknown')
    (hlibrary : library.Relists FunctionSignature.SameRecord library')
    (hnodup : (library.functions.map (·.index)).Nodup) :
    (compare strategy unknown library).confidence =
      (compare strategy unknown' library').confidence := by
  cases strategy with
  | literals measure =>
    change score (.literals measure) unknown library = score (.literals measure) unknown' library'
    have htotal : measure.total unknown.literals library.literals =
        measure.total unknown'.literals library'.literals := by
      cases measure <;> simp only [Overlap.total, hunknown.keys_eq, hlibrary.keys_eq]
    rw [score_literals, score_literals, hunknown.keys_eq, hlibrary.keys_eq, htotal]
  | functionNames measure =>
    change measure.confidence textLt unknown.names library.names =
      measure.confidence textLt unknown'.names library'.names
    rw [hunknown.names_eq fun _ _ h => h.2 rfl, hlibrary.names_eq fun _ _ h => h.name]
  | statementTypes measure =>
    change measure.confidence textLt unknown.types library.types =
      measure.confidence textLt unknown'.types library'.types
    rw [hunknown.types_eq fun _ _ => And.left, hlibrary.types_eq fun _ _ h => h.toSameContents]
  | functionTokens strictness =>
    obtain ⟨hnum, hden⟩ := Alignment.ofSignatures_counts_eq Confidence.byValue_eq strictness
      hlibrary hnodup hunknown fun _ _ => And.left
    change Confidence.ofCounts _ _ = Confidence.ofCounts _ _
    rw [hnum, hden]

theorem matched_relisted (strategy : Strategy) {unknown unknown' library library' : Signature}
    (hunknown : unknown.Relists FunctionSignature.SameRecord unknown')
    (hlibrary : library.Relists FunctionSignature.SameRecord library')
    (hnodup : (unknown.functions.map (·.index)).Nodup)
    (hnodup' : (library.functions.map (·.index)).Nodup) :
    (compare strategy unknown library).matched = (compare strategy unknown' library').matched := by
  cases strategy with
  | functionTokens strictness =>
    have hindices : (unknown'.functions.map (·.index)).Nodup :=
      (hunknown.map_perm fun _ _ h => h.index).nodup_iff.1 hnodup
    obtain ⟨-, -, hentries⟩ :=
      Alignment.ofSignatures_spec Confidence.byValue strictness library unknown hnodup
    obtain ⟨-, -, hentries'⟩ :=
      Alignment.ofSignatures_spec Confidence.byValue strictness library' unknown' hindices
    have hfound : (unknown.functions.filterMap
        (Alignment.matchOf? Confidence.byValue strictness library)).Perm
          (unknown'.functions.filterMap
            (Alignment.matchOf? Confidence.byValue strictness library')) := by
      have hmatches := (hunknown.functions.map fun f f' hff' =>
        Alignment.matchOf?_eq Confidence.byValue_eq strictness hlibrary hnodup'
          hff').rearranged.perm
      simpa only [List.filterMap_map, Function.id_comp] using hmatches.filterMap id
    refine MatchMap.sorted_eq_of_perm Confidence.byValue_eq
      (hentries.trans (hfound.trans hentries'.symm)) ?_
    have hlisted := nodup_unknownIndex Confidence.byValue strictness library hnodup
    exact (((List.mergeSort_perm _ _).map _).nodup_iff).1 hlisted
  | _ => rfl

/-- A comparison is the same for signatures that list the same: functions, tokens, types and
literals in any order, and literals any number of times.  Its confidence is the same even if unknown
functions get other indices, or other names where names are not compared. -/
theorem compare_relisted (strategy : Strategy) {unknown unknown' library library' : Signature}
    (hunknown : unknown.Relists FunctionSignature.SameRecord unknown')
    (hlibrary : library.Relists FunctionSignature.SameRecord library')
    (hnodup : (unknown.functions.map (·.index)).Nodup)
    (hnodup' : (library.functions.map (·.index)).Nodup) :
    compare strategy unknown library = compare strategy unknown' library' ∧
      ∀ relabelled : Signature,
        unknown.Relists (fun f f' =>
          f.SameContents f' ∧ (strategy.readsNames = true → f.name = f'.name)) relabelled →
        (compare strategy relabelled library').confidence =
          (compare strategy unknown library).confidence := by
  have hrecord : unknown.Relists (fun f f' =>
      f.SameContents f' ∧ (strategy.readsNames = true → f.name = f'.name)) unknown' :=
    hunknown.imp fun _ _ h => ⟨h.toSameContents, fun _ => h.name⟩
  have hconfidence := confidence_relabelled strategy hrecord hlibrary hnodup'
  have hmatched := matched_relisted strategy hunknown hlibrary hnodup hnodup'
  refine ⟨?_, fun relabelled hrelabelled =>
    (confidence_relabelled strategy hrelabelled hlibrary hnodup').symm⟩
  revert hconfidence hmatched
  generalize compare strategy unknown library = c, compare strategy unknown' library' = c'
  cases c
  cases c'
  rintro rfl rfl
  rfl

def listed : Signature :=
  ⟨[{ name := "a", index := 7, statementTokens := ["A", "B", "A"] },
    { name := "b", index := 3, statementTokens := ["B"] }], [.text "x"]⟩

def relisted : Signature :=
  ⟨[{ name := "b", index := 3, statementTokens := ["B"] },
    { name := "a", index := 7, statementTokens := ["A", "A", "B"] }], [.text "x", .text "x"]⟩

def relabelled : Signature :=
  ⟨[{ name := "p", index := 0, statementTokens := ["A", "B", "A"] },
    { name := "q", index := 0, statementTokens := ["B"] }], [.text "x"]⟩

theorem compare_relisted_listed :
    (listed.functions.map (·.index)).Nodup ∧
      compare (functionTokens .strict) listed listed =
        compare (functionTokens .strict) relisted relisted ∧
      (compare (functionTokens .strict) relabelled relisted).confidence =
        (compare (functionTokens .strict) listed listed).confidence := by
  have hnodup : (listed.functions.map (·.index)).Nodup := by decide
  have hrelisted : listed.Relists FunctionSignature.SameRecord relisted :=
    { functions := ⟨relisted.functions.reverse, .cons ⟨⟨by decide, .refl _⟩, rfl, rfl⟩
        (.cons ⟨⟨.refl _, .refl _⟩, rfl, rfl⟩ .nil), .inr ⟨trivial, List.reverse_perm _⟩⟩
      literals := by unfold Within; decide
      literals_right := by unfold Within; decide }
  have hrelabelled : listed.Relists (fun f f' => f.SameContents f' ∧
      ((functionTokens .strict).readsNames = true → f.name = f'.name)) relabelled :=
    { functions := .of_forall₂ (.cons ⟨⟨.refl _, .refl _⟩, nofun⟩
        (.cons ⟨⟨.refl _, .refl _⟩, nofun⟩ .nil))
      literals := by unfold Within; decide
      literals_right := by unfold Within; decide }
  obtain ⟨hsame, hconfidence⟩ :=
    compare_relisted (functionTokens .strict) hrelisted hrelisted hnodup hnodup
  exact ⟨hnodup, hsame, hconfidence relabelled hrelabelled⟩

end Strategy

end Fingerprint
