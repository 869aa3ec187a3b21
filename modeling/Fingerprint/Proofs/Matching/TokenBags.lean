import Mathlib.Algebra.BigOperators.Group.Finset.Basic
import Fingerprint.Matching.TokenBag
import Fingerprint.Proofs.Matching.Alignment
/-!
# Hashed token bags

A hash set and a hash map of counts hold a bag of tokens each, a loose and a strict one, and overlap
as these bags do, whatever the hash and whatever order it brings the tokens into.  So signatures are
aligned by their hashed bags as they are by ascending lists, and where no function lists a token
twice, both kinds of bags hold the same.
-/

namespace Fingerprint

/-! ## Overlaps as sums -/

namespace TokenBag

theorem foldl_add_pair {α : Type} (f g : α → Nat) (items : List α) (start : Nat × Nat) :
    items.foldl (fun (common, union) a => (common + f a, union + g a)) start =
      (start.1 + (items.map f).sum, start.2 + (items.map g).sum) := by
  induction items generalizing start with
  | nil => rfl
  | cons a rest ih =>
    rw [List.foldl_cons, ih, List.map_cons, List.map_cons, List.sum_cons, List.sum_cons,
      Nat.add_assoc, Nat.add_assoc]

theorem sum_min_count (a b : List String) :
    ∑ t ∈ a.toFinset, min ((a : Multiset String).count t) ((b : Multiset String).count t) =
      ((a : Multiset String) ∩ b).card := by
  simp only [← Multiset.count_inter]
  refine Multiset.sum_count_eq_card fun t ht => ?_
  exact List.mem_toFinset.2 (Multiset.mem_coe.1 (Multiset.mem_inter.1 ht).1)

/-- The tokens of the first bag and those that only the second one holds are all tokens. -/
theorem sum_max_count (a b : List String) :
    (∑ t ∈ a.toFinset, max ((a : Multiset String).count t) ((b : Multiset String).count t)) +
        ∑ t ∈ b.toFinset \ a.toFinset, (b : Multiset String).count t =
      ((a : Multiset String) ∪ b).card := by
  have hsecond : ∑ t ∈ b.toFinset \ a.toFinset, (b : Multiset String).count t =
      ∑ t ∈ b.toFinset \ a.toFinset, ((a : Multiset String) ∪ b).count t := by
    refine Finset.sum_congr rfl fun t ht => ?_
    have hnot : t ∉ (a : Multiset String) := fun hmem =>
      (Finset.mem_sdiff.1 ht).2 (List.mem_toFinset.2 (Multiset.mem_coe.1 hmem))
    rw [Multiset.count_union, Multiset.count_eq_zero_of_notMem hnot, Nat.zero_max]
  simp only [← Multiset.count_union]
  rw [hsecond, ← Finset.sum_union Finset.disjoint_sdiff, Finset.union_sdiff_self_eq_union]
  refine Multiset.sum_count_eq_card fun t ht => ?_
  rw [Finset.mem_union, List.mem_toFinset, List.mem_toFinset]
  exact Multiset.mem_union.1 ht

end TokenBag

section Hashed

variable [Hashable String]

namespace TokenBag

/-! ## Hash maps of counts -/

theorem getD_foldl_count (tokens : List String) (counts : Std.HashMap String Nat) (t : String) :
    (tokens.foldl count counts).getD t 0 = counts.getD t 0 + tokens.count t := by
  induction tokens generalizing counts with
  | nil => rfl
  | cons x rest ih =>
    rw [List.foldl_cons, ih, count, Std.HashMap.getD_insert, List.count_cons]
    by_cases h : (x == t) = true
    · rw [if_pos h, if_pos h, eq_of_beq h]
      omega
    · rw [if_neg h, if_neg h, Nat.add_zero]

theorem contains_foldl_count (tokens : List String) (counts : Std.HashMap String Nat)
    (t : String) :
    (tokens.foldl count counts).contains t = (counts.contains t || tokens.contains t) := by
  induction tokens generalizing counts with
  | nil => exact (Bool.or_false _).symm
  | cons x rest ih =>
    rw [List.foldl_cons, ih, count, Std.HashMap.contains_insert, List.contains_cons,
      BEq.comm (a := x), Bool.or_comm (t == x), Bool.or_assoc]

def counts (tokens : List String) : Std.HashMap String Nat := tokens.foldl count ∅

theorem ofTokens_strict (tokens : List String) :
    ofTokens .strict tokens = counted (counts tokens) := rfl

theorem getD_counts (tokens : List String) (t : String) :
    (counts tokens).getD t 0 = (tokens : Multiset String).count t := by
  rw [counts, getD_foldl_count, Std.HashMap.getD_empty, Nat.zero_add, Multiset.coe_count]

theorem contains_counts (tokens : List String) (t : String) :
    (counts tokens).contains t = decide (t ∈ tokens) := by
  rw [counts, contains_foldl_count, Std.HashMap.contains_empty, Bool.false_or,
    List.contains_eq_mem]

theorem getElem?_counts (tokens : List String) (t : String) :
    (counts tokens)[t]? =
      if t ∈ tokens then some ((tokens : Multiset String).count t) else none := by
  have hcontains := contains_counts tokens t
  have hcount := getD_counts tokens t
  rw [Std.HashMap.contains_eq_isSome_getElem?] at hcontains
  rw [Std.HashMap.getD_eq_getD_getElem?] at hcount
  cases hget : (counts tokens)[t]? with
  | none =>
    rw [hget] at hcontains
    rw [if_neg (of_decide_eq_false hcontains.symm)]
  | some n =>
    rw [hget] at hcontains hcount
    rw [if_pos (of_decide_eq_true hcontains.symm), ← hcount, Option.getD_some]

theorem toList_counts_perm (tokens : List String) :
    (counts tokens).toList.Perm
      (tokens.toFinset.toList.map fun t => (t, (tokens : Multiset String).count t)) := by
  have hkeys : ((counts tokens).toList.map Prod.fst).Nodup := by
    rw [Std.HashMap.map_fst_toList_eq_keys]
    exact Std.HashMap.nodup_keys
  have hnodup : (tokens.toFinset.toList.map fun t =>
      (t, (tokens : Multiset String).count t)).Nodup :=
    (Finset.nodup_toList _).map fun a b h => congrArg Prod.fst h
  rw [List.perm_ext_iff_of_nodup hkeys.of_map hnodup]
  rintro ⟨t, n⟩
  rw [Std.HashMap.mem_toList_iff_getElem?_eq_some, getElem?_counts, List.mem_map]
  simp only [Finset.mem_toList, List.mem_toFinset, Prod.mk.injEq, Option.ite_none_right_eq_some,
    Option.some_inj]
  constructor
  · rintro ⟨ht, hn⟩
    exact ⟨t, ht, rfl, hn⟩
  · rintro ⟨_, ht, rfl, hn⟩
    exact ⟨ht, hn⟩

theorem sum_map_toList_counts (f : String → Nat → Nat) (tokens : List String) :
    ((counts tokens).toList.map fun (t, n) => f t n).sum =
      ∑ t ∈ tokens.toFinset, f t ((tokens : Multiset String).count t) := by
  rw [((toList_counts_perm tokens).map _).sum_eq, List.map_map]
  exact Finset.sum_map_toList tokens.toFinset fun t => f t ((tokens : Multiset String).count t)

theorem overlapFirst_counts (a b : List String) :
    overlapFirst (counts a) (counts b) =
      (∑ t ∈ a.toFinset, min ((a : Multiset String).count t) ((b : Multiset String).count t),
        ∑ t ∈ a.toFinset, max ((a : Multiset String).count t) ((b : Multiset String).count t)) := by
  have hmin := sum_map_toList_counts (fun t n => min n ((b : Multiset String).count t)) a
  have hmax := sum_map_toList_counts (fun t n => max n ((b : Multiset String).count t)) a
  have hfold := foldl_add_pair (fun p : String × Nat => min p.2 ((b : Multiset String).count p.1))
    (fun p => max p.2 ((b : Multiset String).count p.1)) (counts a).toList (0, 0)
  simp only [overlapFirst, getD_counts]
  refine hfold.trans ?_
  rw [Nat.zero_add, Nat.zero_add]
  exact Prod.ext hmin hmax

theorem overlapSecond_counts (a b : List String) (union : Nat) :
    overlapSecond (counts a) (counts b) union =
      union + ∑ t ∈ b.toFinset \ a.toFinset, (b : Multiset String).count t := by
  have hfold : ∀ (items : List (String × Nat)) (start : Nat),
      items.foldl (fun union (t, n) => if (counts a).contains t then union else union + n) start =
        start + (items.map fun (t, n) => if t ∈ a.toFinset then 0 else n).sum := by
    intro items
    induction items with
    | nil => exact fun _ => rfl
    | cons p rest ih =>
      intro start
      rw [List.foldl_cons, ih, List.map_cons, List.sum_cons]
      simp only [contains_counts, decide_eq_true_iff, List.mem_toFinset]
      split <;> omega
  rw [overlapSecond, hfold, sum_map_toList_counts fun t n => if t ∈ a.toFinset then 0 else n,
    Finset.sdiff_eq_filter, Finset.sum_filter]
  simp only [ite_not]

/-! ## Hash sets -/

theorem nodup_toList (tokens : Std.HashSet String) : tokens.toList.Nodup :=
  Std.HashSet.distinct_toList.imp ne_of_beq_false

theorem toFinset_toList_ofList (tokens : List String) :
    (Std.HashSet.ofList tokens).toList.toFinset = tokens.toFinset := by
  ext t
  rw [List.mem_toFinset, List.mem_toFinset, Std.HashSet.mem_toList, Std.HashSet.mem_ofList,
    List.contains_iff_mem]

theorem size_ofList (tokens : List String) :
    (Std.HashSet.ofList tokens).size = tokens.toFinset.card := by
  rw [← Std.HashSet.length_toList, ← List.toFinset_card_of_nodup (nodup_toList _),
    toFinset_toList_ofList]

theorem overlap_set (a b : List String) :
    (set (.ofList a)).overlap (set (.ofList b)) =
      ((a.toFinset ∩ b.toFinset).card, (a.toFinset ∪ b.toFinset).card) := by
  have hcommon : ((Std.HashSet.ofList a).toList.filter (Std.HashSet.ofList b).contains).length =
      (a.toFinset ∩ b.toFinset).card := by
    rw [← List.toFinset_card_of_nodup ((nodup_toList _).filter _), List.toFinset_filter,
      toFinset_toList_ofList]
    simp only [Std.HashSet.contains_ofList, List.contains_iff_mem, ← List.mem_toFinset (l := b),
      Finset.filter_mem_eq_inter]
  have hcard := Finset.card_union_add_card_inter a.toFinset b.toFinset
  simp only [overlap, hcommon, size_ofList, Prod.mk.injEq, true_and]
  omega

/-! ## Both kinds of bags -/

theorem overlap_ofTokens (strictness : Strictness) (a b : List String) :
    (ofTokens strictness a).overlap (ofTokens strictness b) =
      ((strictness.tokenBag a ∩ strictness.tokenBag b).card,
        (strictness.tokenBag a ∪ strictness.tokenBag b).card) := by
  cases strictness with
  | loose =>
    refine (overlap_set a b).trans ?_
    rw [Strictness.tokenBag, Strictness.tokenBag, ← Finset.inter_val, ← Finset.union_val]
    rfl
  | strict =>
    simp only [ofTokens_strict, overlap, overlapFirst_counts, overlapSecond_counts, sum_min_count,
      sum_max_count]
    rfl

theorem size_ofTokens (strictness : Strictness) (tokens : List String) :
    (ofTokens strictness tokens).size = (strictness.tokenBag tokens).card := by
  cases strictness with
  | loose => exact size_ofList tokens
  | strict =>
    have hsum := sum_map_toList_counts (fun _ n => n) tokens
    rw [List.sum_eq_foldr, List.foldr_map] at hsum
    exact hsum.trans (Multiset.sum_count_eq_card fun t ht => List.mem_toFinset.2 ht)

end TokenBag

/-! ## Alignment by hashed bags -/

namespace Alignment

variable (order : Confidence → Confidence → Ordering) (strictness : Strictness)

theorem map_ofTokenBags (library : Signature) (f : FunctionSignature) :
    ((library.functions.map fun g =>
      (g.index, TokenBag.ofTokens strictness g.statementTokens)).map fun entry =>
        Candidate.ofTokenBags (TokenBag.ofTokens strictness f.statementTokens) entry.1 entry.2) =
      candidates strictness library f := by
  rw [List.map_map]
  refine List.map_congr_left fun g _ => ?_
  simp only [Function.comp_apply, Candidate.ofTokenBags, TokenBag.overlap_ofTokens]
  rfl

theorem addBag_eq (library : Signature) (total : Alignment) (f : FunctionSignature) :
    addBag order strictness
        (library.functions.map fun g =>
          (g.index, TokenBag.ofTokens strictness g.statementTokens)) total f =
      add order strictness
        (library.functions.map fun g => (g.index, strictness.bag g.statementTokens)) total f := by
  rw [addBag, add]
  cases hmatch : Candidate.match? order (candidates strictness library f) <;>
    simp only [map_ofTokenBags, map_ofBags, TokenBag.size_ofTokens, Strictness.length_bag, hmatch]

/-- By hashed bags signatures are aligned as by ascending lists. -/
theorem ofTokenBags_eq (unknown library : Signature) :
    ofTokenBags order strictness unknown library =
      ofSignatures order strictness unknown library := by
  rw [ofTokenBags, ofSignatures]
  congr 1
  funext total f
  exact addBag_eq order strictness library total f

end Alignment

theorem Strictness.compareBags_eq (strictness : Strictness) (unknown library : Signature) :
    strictness.compareBags unknown library =
      Strategy.compare (.functionTokens strictness) unknown library := by
  rw [compareBags, Alignment.ofTokenBags_eq]
  rfl

end Hashed

/-! ## Functions without repeated tokens -/

def Signature.ListsOnce (s : Signature) : Prop := ∀ f ∈ s.functions, f.statementTokens.Nodup

theorem Strictness.bag_loose_of_nodup {tokens : List String} (h : tokens.Nodup) :
    loose.bag tokens = strict.bag tokens := by
  have hbag : loose.tokenBag tokens = strict.tokenBag tokens :=
    congrArg Multiset.ofList h.dedup
  have hperm : (loose.bag tokens).Perm (strict.bag tokens) := by
    rw [← Multiset.coe_eq_coe, coe_bag, coe_bag, hbag]
  exact hperm.eq_of_pairwise (fun _ _ _ _ => le_antisymm) (loose.pairwise_bag tokens)
    (strict.pairwise_bag tokens)

theorem Alignment.ofSignatures_loose_of_listsOnce (order : Confidence → Confidence → Ordering)
    {unknown library : Signature} (hunknown : unknown.ListsOnce) (hlibrary : library.ListsOnce) :
    ofSignatures order .loose unknown library = ofSignatures order .strict unknown library := by
  have hbags : (library.functions.map fun f => (f.index, Strictness.loose.bag f.statementTokens)) =
      library.functions.map fun f => (f.index, Strictness.strict.bag f.statementTokens) :=
    List.map_congr_left fun f hf => by rw [Strictness.bag_loose_of_nodup (hlibrary f hf)]
  rw [ofSignatures, ofSignatures, hbags]
  refine List.foldl_ext _ _ _ fun total f hf => ?_
  rw [add, add, Strictness.bag_loose_of_nodup (hunknown f hf)]

namespace Strategy

/-- Where no function lists a token twice, it makes no difference whether repeated tokens count: a
loose and a strict comparison are the same, by ascending lists and by hashed bags. -/
theorem compare_loose_of_listsOnce [Hashable String] {unknown library : Signature}
    (hunknown : unknown.ListsOnce) (hlibrary : library.ListsOnce) :
    compare (.functionTokens .loose) unknown library =
        compare (.functionTokens .strict) unknown library ∧
      Strictness.loose.compareBags unknown library =
        Strictness.strict.compareBags unknown library := by
  have hsame : compare (.functionTokens .loose) unknown library =
      compare (.functionTokens .strict) unknown library := by
    rw [compare, compare, compareBy, compareBy,
      Alignment.ofSignatures_loose_of_listsOnce Confidence.byValue hunknown hlibrary]
  refine ⟨hsame, ?_⟩
  rw [Strictness.compareBags_eq, Strictness.compareBags_eq, hsame]

def listedOnce : Signature :=
  ⟨[{ name := "a", index := 0, statementTokens := ["B", "A"] },
    { name := "b", index := 1, statementTokens := ["C"] }], []⟩

def listedOnceKnown : Signature :=
  ⟨[{ name := "a", index := 4, statementTokens := ["A", "D", "B"] }], []⟩

theorem compare_loose_of_listsOnce_sharedTokens :
    (∃ f ∈ listedOnce.functions, ∃ g ∈ listedOnceKnown.functions, f.sharesToken g = true) ∧
      compare (.functionTokens .loose) listedOnce listedOnceKnown =
        compare (.functionTokens .strict) listedOnce listedOnceKnown ∧
      Strictness.loose.compareBags listedOnce listedOnceKnown =
        Strictness.strict.compareBags listedOnce listedOnceKnown := by
  have hunknown : listedOnce.ListsOnce := by unfold Signature.ListsOnce; decide
  have hlibrary : listedOnceKnown.ListsOnce := by unfold Signature.ListsOnce; decide
  exact ⟨by decide, compare_loose_of_listsOnce hunknown hlibrary⟩

end Strategy

end Fingerprint
