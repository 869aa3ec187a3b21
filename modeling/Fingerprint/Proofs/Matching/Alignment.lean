import Mathlib.Algebra.BigOperators.Group.List.Basic
import Mathlib.Tactic.FieldSimp
import Fingerprint.Proofs.Matching.Candidate
import Fingerprint.Proofs.Matching.Overlap
/-!
# Alignment of functions

With confidences ordered by their exact ratios, every unknown function is matched with the best
function of the whole library, and the counts of the comparison are the sums over all unknown
functions.  Ordering by rounded values gives the same as long as functions are not too large.
-/

namespace Fingerprint

/-! ## Two functions -/

namespace FunctionSignature

def sharesToken (f g : FunctionSignature) : Bool :=
  f.statementTokens.any (g.statementTokens.contains ·)

theorem sharesToken_iff {f g : FunctionSignature} :
    f.sharesToken g = true ↔ ∃ t ∈ f.statementTokens, t ∈ g.statementTokens := by
  simp only [sharesToken, List.any_eq_true, List.contains_iff_mem]

def overlap (strictness : Strictness) (f g : FunctionSignature) : Confidence :=
  .ofCounts (strictness.tokenBag f.statementTokens ∩ strictness.tokenBag g.statementTokens).card
    (strictness.tokenBag f.statementTokens ∪ strictness.tokenBag g.statementTokens).card

theorem overlap_num_pos_iff (strictness : Strictness) {f g : FunctionSignature} :
    0 < (f.overlap strictness g).num ↔ f.sharesToken g = true := by
  rw [overlap, Confidence.ofCounts_num (Strictness.card_inter_le_card_union _ _),
    Strictness.card_inter_pos_iff, sharesToken_iff]

def candidate (strictness : Strictness) (f g : FunctionSignature) : Candidate :=
  ⟨g.index, f.overlap strictness g⟩

end FunctionSignature

/-! ## Entries under a new index -/

namespace MatchMap

variable {map : MatchMap} {index : Nat}

theorem filter_toList_of_not_mem (hnew : index ∉ map) :
    map.toList.filter (fun entry => ¬index == entry.1) = map.toList := by
  rw [List.filter_eq_self]
  rintro ⟨other, m⟩ hentry
  rw [Std.TreeMap.mem_toList_iff_getElem?_eq_some] at hentry
  have hne : index ≠ other := by
    rintro rfl
    rw [Std.TreeMap.mem_iff_isSome_getElem?, hentry] at hnew
    exact hnew rfl
  simpa using hne

theorem entries_insert (hnew : index ∉ map) (m : FunctionMatch) :
    (entries (map.insert index m)).Perm (m :: map.entries) := by
  have hperm := Std.TreeMap.toList_insert_perm (t := map) (k := index) (v := m)
  rw [filter_toList_of_not_mem hnew] at hperm
  exact hperm.map _

theorem not_mem_insert {other : Nat} (hnew : other ∉ map) (hne : other ≠ index)
    (m : FunctionMatch) : other ∉ map.insert index m := by
  rw [Std.TreeMap.mem_insert, compare_eq_iff_eq]
  exact not_or_intro hne.symm hnew

end MatchMap

/-! ## One unknown function -/

namespace Alignment

variable (order : Confidence → Confidence → Ordering) (strictness : Strictness)
variable (library : Signature)

/-- The library functions that an unknown function is compared with. -/
def candidates (f : FunctionSignature) : List Candidate :=
  library.functions.map (f.candidate strictness)

def matchOf? (f : FunctionSignature) : Option FunctionMatch :=
  (Candidate.match? order (candidates strictness library f)).map fun c =>
    ⟨f.index, c.index, c.confidence⟩

def size (f : FunctionSignature) : Nat := (strictness.tokenBag f.statementTokens).card

theorem map_ofBags (f : FunctionSignature) :
    ((library.functions.map fun g => (g.index, strictness.bag g.statementTokens)).map
        fun (index, tokens) => Candidate.ofBags (strictness.bag f.statementTokens) index tokens) =
      candidates strictness library f := by
  rw [List.map_map]
  apply List.map_congr_left
  intro g _
  simp only [Function.comp_apply, Candidate.ofBags, Strictness.overlapCounts_bag]
  rfl

theorem add_eq (total : Alignment) (f : FunctionSignature) :
    add order strictness
        (library.functions.map fun g => (g.index, strictness.bag g.statementTokens)) total f =
      match matchOf? order strictness library f with
      | some m => ⟨total.num + m.prob.num, total.den + m.prob.den, total.map.insert f.index m⟩
      | none => ⟨total.num, total.den + size strictness f, total.map⟩ := by
  rw [add]
  simp only [map_ofBags, matchOf?, Strictness.length_bag]
  cases Candidate.match? order (candidates strictness library f) <;> rfl

theorem unknownIndex_of_matchOf? {f : FunctionSignature} {m : FunctionMatch}
    (h : matchOf? order strictness library f = some m) : m.unknownIndex = f.index := by
  rw [matchOf?, Option.map_eq_some_iff] at h
  obtain ⟨c, -, rfl⟩ := h
  rfl

theorem exists_of_matchOf? {f : FunctionSignature} {m : FunctionMatch}
    (h : matchOf? order strictness library f = some m) :
    ∃ g ∈ library.functions, m = ⟨f.index, g.index, f.overlap strictness g⟩ ∧
      f.sharesToken g = true := by
  rw [matchOf?, Option.map_eq_some_iff] at h
  obtain ⟨c, hc, rfl⟩ := h
  obtain ⟨hmem, hnum⟩ := Candidate.mem_of_match? hc
  obtain ⟨g, hg, rfl⟩ := List.mem_map.1 hmem
  exact ⟨g, hg, rfl, (FunctionSignature.overlap_num_pos_iff strictness).1 hnum⟩

theorem best_of_matchOf? {strictness : Strictness} {library : Signature} {f : FunctionSignature}
    {m : FunctionMatch} (h : matchOf? Confidence.byRatio strictness library f = some m) :
    ∃ g ∈ library.functions, m = ⟨f.index, g.index, f.overlap strictness g⟩ ∧
      ∀ g' ∈ library.functions, (f.candidate strictness g).AtLeast (f.candidate strictness g') := by
  rw [matchOf?, Option.map_eq_some_iff] at h
  obtain ⟨c, hc, rfl⟩ := h
  obtain ⟨g, hg, rfl⟩ := List.mem_map.1 (Candidate.mem_of_match? hc).1
  refine ⟨g, hg, rfl, fun g' hg' => ?_⟩
  exact Candidate.match?_atLeast hc _ (List.mem_map_of_mem hg')

theorem matchOf?_eq_none_iff {f : FunctionSignature} :
    matchOf? Confidence.byRatio strictness library f = none ↔
      library.functions.any f.sharesToken = false := by
  have hden : ∀ c ∈ candidates strictness library f, 0 < c.confidence.den := by
    intro c hc
    obtain ⟨g, -, rfl⟩ := List.mem_map.1 hc
    exact Confidence.ofCounts_den_pos _ _
  rw [matchOf?, Option.map_eq_none_iff, Candidate.match?_eq_none_iff hden, List.any_eq_false]
  rw [candidates, List.forall_mem_map]
  refine forall₂_congr fun g _ => ?_
  rw [← FunctionSignature.overlap_num_pos_iff strictness, Nat.not_lt, Nat.le_zero]
  rfl

/-! ## All unknown functions -/

/-- What has been added up: the counts and the entries of the matches, and the sizes of the
functions without one. -/
theorem foldl_add (functions : List FunctionSignature) (total : Alignment)
    (hnodup : (functions.map (·.index)).Nodup) (hnew : ∀ f ∈ functions, f.index ∉ total.map) :
    let found := functions.filterMap (matchOf? order strictness library)
    let missed := functions.filter fun f => (matchOf? order strictness library f).isNone
    let result := functions.foldl (add order strictness
      (library.functions.map fun g => (g.index, strictness.bag g.statementTokens))) total
    result.num = total.num + (found.map (·.prob.num)).sum ∧
      result.den = total.den + (found.map (·.prob.den)).sum + (missed.map (size strictness)).sum ∧
      result.map.entries.Perm (total.map.entries ++ found) := by
  induction functions generalizing total with
  | nil =>
    refine ⟨rfl, rfl, ?_⟩
    rw [List.filterMap_nil, List.append_nil]
    exact .refl _
  | cons f rest ih =>
    rw [List.map_cons, List.nodup_cons] at hnodup
    obtain ⟨hf, hrest⟩ := hnodup
    have hnewf := hnew f List.mem_cons_self
    have hnewRest : ∀ g ∈ rest, g.index ∉ total.map :=
      fun g hg => hnew g (List.mem_cons_of_mem _ hg)
    rw [List.foldl_cons, add_eq]
    cases hmatch : matchOf? order strictness library f with
    | none =>
      obtain ⟨hnum, hden, hentries⟩ :=
        ih ⟨total.num, total.den + size strictness f, total.map⟩ hrest hnewRest
      dsimp only at hnum hden hentries ⊢
      refine ⟨?_, ?_, ?_⟩
      · rw [hnum, List.filterMap_cons_none hmatch]
      · rw [hden, List.filterMap_cons_none hmatch, List.filter_cons_of_pos (by rw [hmatch]; rfl),
          List.map_cons, List.sum_cons]
        omega
      · rw [List.filterMap_cons_none hmatch]
        exact hentries
    | some m =>
      have hfresh : ∀ g ∈ rest, g.index ∉ total.map.insert f.index m := fun g hg =>
        MatchMap.not_mem_insert (hnewRest g hg)
          (fun heq => hf (List.mem_map.2 ⟨g, hg, heq⟩)) m
      obtain ⟨hnum, hden, hentries⟩ := ih ⟨total.num + m.prob.num, total.den + m.prob.den,
        total.map.insert f.index m⟩ hrest hfresh
      dsimp only at hnum hden hentries ⊢
      refine ⟨?_, ?_, ?_⟩
      · rw [hnum, List.filterMap_cons_some hmatch, List.map_cons, List.sum_cons]
        omega
      · rw [hden, List.filterMap_cons_some hmatch,
          List.filter_cons_of_neg (by rw [hmatch]; exact Bool.false_ne_true), List.map_cons,
          List.sum_cons]
        omega
      · rw [List.filterMap_cons_some hmatch]
        refine hentries.trans (((MatchMap.entries_insert hnewf m).append_right _).trans ?_)
        exact List.perm_middle.symm

theorem ofSignatures_spec (unknown : Signature)
    (hnodup : (unknown.functions.map (·.index)).Nodup) :
    let found := unknown.functions.filterMap (matchOf? order strictness library)
    let missed := unknown.functions.filter fun f => (matchOf? order strictness library f).isNone
    let total := ofSignatures order strictness unknown library
    total.num = (found.map (·.prob.num)).sum ∧
      total.den = (found.map (·.prob.den)).sum + (missed.map (size strictness)).sum ∧
      total.map.entries.Perm found := by
  obtain ⟨hnum, hden, hentries⟩ := foldl_add order strictness library unknown.functions {} hnodup
    fun f _ => Std.TreeMap.not_mem_emptyc
  rw [Nat.zero_add] at hnum hden
  exact ⟨hnum, hden, hentries⟩

end Alignment

/-! ## The list of matches -/

namespace MatchMap

def listKey (m : FunctionMatch) : ℚ ×ₗ ℕ := toLex (-m.prob.ratio, m.unknownIndex)

theorem listedBefore_byRatio (a b : FunctionMatch) :
    listedBefore Confidence.byRatio a b = decide (listKey a ≤ listKey b) := by
  rw [listedBefore, Confidence.byRatio, Bool.eq_iff_iff, decide_eq_true_iff, listKey, listKey,
    Prod.Lex.toLex_le_toLex, neg_lt_neg_iff, neg_inj]
  rcases lt_trichotomy a.prob.ratio b.prob.ratio with hlt | heq | hgt
  · rw [compare_lt_iff_lt.2 hlt]
    refine iff_of_false Bool.false_ne_true ?_
    rintro (hgt | ⟨heq, -⟩)
    · exact lt_asymm hlt hgt
    · exact ne_of_lt hlt heq
  · rw [compare_eq_iff_eq.2 heq, heq]
    simp only [lt_irrefl, false_or, true_and, decide_eq_true_iff]
  · rw [compare_gt_iff_gt.2 hgt]
    exact iff_of_true rfl (.inl hgt)

theorem pairwise_sorted (map : MatchMap)
    (hnodup : (map.entries.map (·.unknownIndex)).Nodup) :
    (map.sorted Confidence.byRatio).Pairwise fun a b =>
      b.prob.ratio < a.prob.ratio ∨
        b.prob.ratio = a.prob.ratio ∧ a.unknownIndex < b.unknownIndex := by
  have hpair : (map.sorted Confidence.byRatio).Pairwise fun a b =>
      listedBefore Confidence.byRatio a b = true := by
    apply List.pairwise_mergeSort
    · intro a b c
      rw [listedBefore_byRatio, listedBefore_byRatio, listedBefore_byRatio, decide_eq_true_iff,
        decide_eq_true_iff, decide_eq_true_iff]
      exact le_trans
    · intro a b
      rw [listedBefore_byRatio, listedBefore_byRatio, Bool.or_eq_true, decide_eq_true_iff,
        decide_eq_true_iff]
      exact le_total _ _
  have hdistinct : (map.sorted Confidence.byRatio).Pairwise fun a b =>
      a.unknownIndex ≠ b.unknownIndex := by
    rw [← List.pairwise_map (f := FunctionMatch.unknownIndex)]
    exact (((List.mergeSort_perm map.entries _).map _).nodup_iff).2 hnodup
  refine (hpair.and hdistinct).imp fun {a b} h => ?_
  obtain ⟨hle, hne⟩ := h
  rw [listedBefore_byRatio, decide_eq_true_iff, listKey, listKey, Prod.Lex.toLex_le_toLex,
    neg_lt_neg_iff, neg_inj] at hle
  rcases hle with hlt | ⟨heq, hindex⟩
  · exact .inl hlt
  · exact .inr ⟨heq.symm, lt_of_le_of_ne hindex hne⟩

theorem sorted_congr {order order' : Confidence → Confidence → Ordering} {map : MatchMap}
    (hagree : ∀ a ∈ map.entries, ∀ b ∈ map.entries, order a.prob b.prob = order' a.prob b.prob) :
    map.sorted order = map.sorted order' := by
  have hsort := List.map_mergeSort (f := id) (l := map.entries) (r := listedBefore order)
    (s := listedBefore order') fun a ha b hb => by
      rw [listedBefore, listedBefore, hagree a ha b hb]
      rfl
  rwa [List.map_id, List.map_id] at hsort

end MatchMap

/-! ## Values and ratios -/

namespace Confidence

def IsSmall (c : Confidence) : Prop := ∃ num den, num ≤ den ∧ den < 2 ^ 26 ∧ c = ofCounts num den

theorem IsSmall.eq {c : Confidence} (h : c.IsSmall) :
    0 < c.den ∧ c.num ≤ c.den ∧ c.den < 2 ^ 26 ∧ c.val = Double.ofRatio false c.num c.den := by
  obtain ⟨num, den, hle, hlt, rfl⟩ := h
  rw [ofCounts]
  split
  · exact ⟨Nat.one_pos, Nat.zero_le 1, by norm_num [zero], (Double.ofRatio_zero Nat.one_pos).symm⟩
  · have hden : 0 < den := Nat.pos_of_ne_zero ‹_›
    exact ⟨hden, hle, hlt, Double.ofNat_div_ofNat (by omega) (by omega) hden⟩

/-- Small confidences compare by their values as by their ratios. -/
theorem byValue_eq_byRatio {a b : Confidence} (ha : a.IsSmall) (hb : b.IsSmall) :
    byValue a b = byRatio a b := by
  obtain ⟨haden, hale, halt, haval⟩ := ha.eq
  obtain ⟨hbden, hble, hblt, hbval⟩ := hb.eq
  have haden' : (0 : ℚ) < a.den := by exact_mod_cast haden
  have hbden' : (0 : ℚ) < b.den := by exact_mod_cast hbden
  rw [byValue, haval, hbval, Double.compare_ofRatio haden hbden halt hblt hale hble, byRatio, ratio,
    ratio]
  rcases lt_trichotomy (a.num * b.den) (b.num * a.den) with hlt | heq | hgt
  · rw [compare_lt_iff_lt.2 hlt, eq_comm, compare_lt_iff_lt, div_lt_div_iff₀ haden' hbden']
    exact_mod_cast hlt
  · rw [compare_eq_iff_eq.2 heq, eq_comm, compare_eq_iff_eq, div_eq_div_iff haden'.ne' hbden'.ne']
    exact_mod_cast heq
  · rw [compare_gt_iff_gt.2 hgt, eq_comm, compare_gt_iff_gt, div_lt_div_iff₀ hbden' haden']
    exact_mod_cast hgt

end Confidence

theorem FunctionSignature.isSmall_overlap {strictness : Strictness} {f g : FunctionSignature}
    (hf : f.statementTokens.length < 2 ^ 25) (hg : g.statementTokens.length < 2 ^ 25) :
    (f.overlap strictness g).IsSmall := by
  refine ⟨_, _, Strictness.card_inter_le_card_union _ _, ?_, rfl⟩
  have hunion := strictness.card_union_le f.statementTokens g.statementTokens
  omega

/-- Among functions that are not too large, rounding never changes what is matched. -/
theorem Alignment.matchOf?_byValue {strictness : Strictness} {library : Signature}
    {f : FunctionSignature} (hf : f.statementTokens.length < 2 ^ 25)
    (hlibrary : ∀ g ∈ library.functions, g.statementTokens.length < 2 ^ 25) :
    matchOf? Confidence.byValue strictness library f =
      matchOf? Confidence.byRatio strictness library f := by
  rw [matchOf?, matchOf?, Candidate.match?_congr]
  intro a ha b hb
  obtain ⟨g, hg, rfl⟩ := List.mem_map.1 ha
  obtain ⟨g', hg', rfl⟩ := List.mem_map.1 hb
  exact Confidence.byValue_eq_byRatio (FunctionSignature.isSmall_overlap hf (hlibrary g hg))
    (FunctionSignature.isSmall_overlap hf (hlibrary g' hg'))

theorem Alignment.ofSignatures_byValue (strictness : Strictness) {unknown library : Signature}
    (hunknown : ∀ f ∈ unknown.functions, f.statementTokens.length < 2 ^ 25)
    (hlibrary : ∀ g ∈ library.functions, g.statementTokens.length < 2 ^ 25) :
    ofSignatures Confidence.byValue strictness unknown library =
      ofSignatures Confidence.byRatio strictness unknown library := by
  apply List.foldl_ext
  intro total f hf
  rw [add_eq, add_eq, matchOf?_byValue (hunknown f hf) hlibrary]

/-! ## The comparison -/

namespace Strategy

variable (order : Confidence → Confidence → Ordering) (strictness : Strictness)
variable {unknown : Signature} (library : Signature)

/-- The matches are those of the unknown functions, in another order, and the counts are sums. -/
theorem compareBy_functionTokens (hnodup : (unknown.functions.map (·.index)).Nodup) :
    let found := unknown.functions.filterMap (Alignment.matchOf? order strictness library)
    let missed := unknown.functions.filter fun f =>
      (Alignment.matchOf? order strictness library f).isNone
    let result := compareBy order (.functionTokens strictness) unknown library
    result.matched.Perm found ∧
      result.confidence = .ofCounts (found.map (·.prob.num)).sum
        ((found.map (·.prob.den)).sum + (missed.map (Alignment.size strictness)).sum) := by
  obtain ⟨hnum, hden, hentries⟩ :=
    Alignment.ofSignatures_spec order strictness library unknown hnodup
  refine ⟨(List.mergeSort_perm _ _).trans hentries, ?_⟩
  rw [← hnum, ← hden]
  rfl

theorem mem_matched_iff (hnodup : (unknown.functions.map (·.index)).Nodup) {m : FunctionMatch} :
    m ∈ (compareBy order (.functionTokens strictness) unknown library).matched ↔
      ∃ f ∈ unknown.functions, Alignment.matchOf? order strictness library f = some m := by
  rw [(compareBy_functionTokens order strictness library hnodup).1.mem_iff, List.mem_filterMap]

theorem nodup_unknownIndex (hnodup : (unknown.functions.map (·.index)).Nodup) :
    ((compareBy order (.functionTokens strictness) unknown library).matched.map
      (·.unknownIndex)).Nodup := by
  rw [((compareBy_functionTokens order strictness library hnodup).1.map _).nodup_iff]
  refine hnodup.sublist ?_
  induction unknown.functions with
  | nil => exact .slnil
  | cons f rest ih =>
    rw [List.map_cons]
    cases hmatch : Alignment.matchOf? order strictness library f with
    | none =>
      rw [List.filterMap_cons_none hmatch]
      exact ih.cons f.index
    | some m =>
      rw [List.filterMap_cons_some hmatch, List.map_cons,
        Alignment.unknownIndex_of_matchOf? order strictness library hmatch]
      exact ih.cons_cons f.index

variable {strictness library}

theorem exists_matched_iff (hnodup : (unknown.functions.map (·.index)).Nodup)
    {f : FunctionSignature} (hf : f ∈ unknown.functions) :
    (∃ m ∈ (compareBy Confidence.byRatio (.functionTokens strictness) unknown library).matched,
        m.unknownIndex = f.index) ↔
      ∃ g ∈ library.functions, f.sharesToken g = true := by
  constructor
  · rintro ⟨m, hm, hindex⟩
    obtain ⟨f', hf', hmatch⟩ := (mem_matched_iff Confidence.byRatio strictness library hnodup).1 hm
    have hsame : f' = f := List.inj_on_of_nodup_map hnodup hf' hf
      ((Alignment.unknownIndex_of_matchOf? _ _ _ hmatch).symm.trans hindex)
    obtain ⟨g, hg, -, hshares⟩ := Alignment.exists_of_matchOf? _ _ _ hmatch
    exact ⟨g, hg, hsame ▸ hshares⟩
  · rintro ⟨g, hg, hshares⟩
    have hsome : Alignment.matchOf? Confidence.byRatio strictness library f ≠ none := by
      rw [Ne, Alignment.matchOf?_eq_none_iff, Bool.not_eq_false, List.any_eq_true]
      exact ⟨g, hg, hshares⟩
    obtain ⟨m, hmatch⟩ := Option.ne_none_iff_exists'.1 hsome
    exact ⟨m, (mem_matched_iff Confidence.byRatio strictness library hnodup).2 ⟨f, hf, hmatch⟩,
      Alignment.unknownIndex_of_matchOf? _ _ _ hmatch⟩

theorem confidence_byRatio (hnodup : (unknown.functions.map (·.index)).Nodup) :
    let result := compareBy Confidence.byRatio (.functionTokens strictness) unknown library
    result.confidence = .ofCounts (result.matched.map (·.prob.num)).sum
      ((result.matched.map (·.prob.den)).sum +
        ((unknown.functions.filter fun f => !library.functions.any f.sharesToken).map
          (Alignment.size strictness)).sum) := by
  intro result
  obtain ⟨hmatched, hconfidence⟩ :=
    compareBy_functionTokens Confidence.byRatio strictness library hnodup
  have hmissed : (unknown.functions.filter fun f =>
      (Alignment.matchOf? Confidence.byRatio strictness library f).isNone) =
        unknown.functions.filter fun f => !library.functions.any f.sharesToken := by
    apply List.filter_congr
    intro f _
    rw [Bool.eq_iff_iff, Option.isNone_iff_eq_none, Alignment.matchOf?_eq_none_iff,
      Bool.not_eq_true']
  rw [(hmatched.map _).sum_eq, (hmatched.map _).sum_eq, ← hmissed]
  exact hconfidence

theorem compare_functionTokens (hnodup : (unknown.functions.map (·.index)).Nodup)
    (hsmall : ∀ f ∈ unknown.functions ++ library.functions, f.statementTokens.length < 2 ^ 25) :
    compare (.functionTokens strictness) unknown library =
      compareBy Confidence.byRatio (.functionTokens strictness) unknown library := by
  have hunknown : ∀ f ∈ unknown.functions, f.statementTokens.length < 2 ^ 25 :=
    fun f hf => hsmall f (List.mem_append_left _ hf)
  have hlibrary : ∀ g ∈ library.functions, g.statementTokens.length < 2 ^ 25 :=
    fun g hg => hsmall g (List.mem_append_right _ hg)
  have htotal := Alignment.ofSignatures_byValue strictness hunknown hlibrary
  obtain ⟨-, -, hentries⟩ :=
    Alignment.ofSignatures_spec Confidence.byRatio strictness library unknown hnodup
  have hprob : ∀ m ∈ (Alignment.ofSignatures Confidence.byRatio strictness unknown
      library).map.entries, m.prob.IsSmall := by
    intro m hm
    obtain ⟨f, hf, hmatch⟩ := List.mem_filterMap.1 (hentries.mem_iff.1 hm)
    obtain ⟨g, hg, rfl, -⟩ := Alignment.exists_of_matchOf? _ _ _ hmatch
    exact FunctionSignature.isSmall_overlap (hunknown f hf) (hlibrary g hg)
  rw [compare, compareBy, compareBy, htotal, MatchMap.sorted_congr]
  exact fun a ha b hb => Confidence.byValue_eq_byRatio (hprob a ha) (hprob b hb)

/-- By exact ratios, comparing by function tokens matches just the unknown functions that share a
token, each once and with the best library function, adds up the counts of the matches and the
sizes of the others, and lists the best match first.  The values that comparing really goes by
change nothing of this for functions of fewer than `2 ^ 25` tokens. -/
theorem functionTokens_byRatio (strictness : Strictness) (unknown library : Signature)
    (hnodup : (unknown.functions.map (·.index)).Nodup) :
    let result := compareBy Confidence.byRatio (.functionTokens strictness) unknown library
    (∀ f ∈ unknown.functions,
      (∃ m ∈ result.matched, m.unknownIndex = f.index) ↔
        ∃ g ∈ library.functions, f.sharesToken g = true) ∧
    (result.matched.map (·.unknownIndex)).Nodup ∧
    (∀ m ∈ result.matched, ∃ f ∈ unknown.functions, ∃ g ∈ library.functions,
      m = ⟨f.index, g.index, f.overlap strictness g⟩ ∧
      ∀ g' ∈ library.functions,
        (f.overlap strictness g').ratio < (f.overlap strictness g).ratio ∨
          (f.overlap strictness g').ratio = (f.overlap strictness g).ratio ∧
            g.index ≤ g'.index) ∧
    (let num := (result.matched.map (·.prob.num)).sum
      let den := (result.matched.map (·.prob.den)).sum +
        ((unknown.functions.filter fun f => !library.functions.any f.sharesToken).map fun f =>
          (strictness.tokenBag f.statementTokens).card).sum
      (result.confidence.num, result.confidence.den) = if den = 0 then (0, 1) else (num, den)) ∧
    (result.matched.Pairwise fun a b =>
      b.prob.ratio < a.prob.ratio ∨
        b.prob.ratio = a.prob.ratio ∧ a.unknownIndex < b.unknownIndex) ∧
    ((∀ f ∈ unknown.functions ++ library.functions, f.statementTokens.length < 2 ^ 25) →
      compare (.functionTokens strictness) unknown library = result) := by
  intro result
  refine ⟨fun f hf => exists_matched_iff hnodup hf,
    nodup_unknownIndex Confidence.byRatio strictness library hnodup, ?_, ?_, ?_,
    compare_functionTokens hnodup⟩
  · intro m hm
    obtain ⟨f, hf, hmatch⟩ := (mem_matched_iff Confidence.byRatio strictness library hnodup).1 hm
    obtain ⟨g, hg, hbest⟩ := Alignment.best_of_matchOf? hmatch
    exact ⟨f, hf, g, hg, hbest⟩
  · intro num den
    have hconfidence : result.confidence = .ofCounts num den := confidence_byRatio hnodup
    rw [hconfidence, Confidence.ofCounts]
    split <;> rfl
  · apply MatchMap.pairwise_sorted
    have hdistinct := nodup_unknownIndex Confidence.byRatio strictness library hnodup
    exact (((List.mergeSort_perm _ _).map _).nodup_iff).1 hdistinct

/-- Two functions whose indices descend; the second has no tokens. -/
def descending : Signature :=
  ⟨[{ name := "a", index := 7, statementTokens := ["A", "B", "A"] },
    { name := "b", index := 3 }], []⟩

/-- Compared with itself, the function with tokens is matched. -/
theorem functionTokens_byRatio_descending :
    (descending.functions.map (·.index)).Nodup ∧
      ∃ m ∈ (compare (.functionTokens .strict) descending descending).matched,
        m.unknownIndex = 7 := by
  have hnodup : (descending.functions.map (·.index)).Nodup := by decide
  obtain ⟨hmatched, -, -, -, -, hvalues⟩ :=
    functionTokens_byRatio .strict descending descending hnodup
  rw [hvalues (by decide)]
  exact ⟨hnodup, (hmatched _ List.mem_cons_self).2 ⟨_, List.mem_cons_self, by decide⟩⟩

end Strategy

end Fingerprint
