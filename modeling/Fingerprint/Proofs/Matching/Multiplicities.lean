import Mathlib.Algebra.BigOperators.Group.Finset.Basic
import Fingerprint.Proofs.Matching.TokenBags
/-!
# Overlaps by multiplicities

What two bags of tokens have in common is the sum of the lesser multiplicities, and what they have
together that of the greater ones; the bounds of confidences rest on this.  The loops over hash sets
and hash maps come out the same in whatever order the entries are met.
-/

namespace Fingerprint

/-! ## Multiplicities -/

namespace Strictness

/-- How often a bag of tokens has a token; a loose one has it once at most. -/
def multiplicity (strictness : Strictness) (tokens : List String) (t : String) : Nat :=
  match strictness with
  | loose => min 1 (tokens.count t)
  | strict => tokens.count t

theorem count_tokenBag (strictness : Strictness) (tokens : List String) (t : String) :
    (strictness.tokenBag tokens).count t = strictness.multiplicity tokens t := by
  cases strictness with
  | loose =>
    rw [tokenBag, List.toFinset_val, Multiset.coe_count, List.count_dedup, multiplicity]
    split
    · rename_i ht
      exact (min_eq_left (List.count_pos_iff.2 ht)).symm
    · rename_i ht
      rw [List.count_eq_zero.2 ht]
      rfl
  | strict => exact Multiset.coe_count t tokens

theorem tokenBag_eq_iff {strictness : Strictness} {a b : List String} :
    strictness.tokenBag a = strictness.tokenBag b ↔
      ∀ t, strictness.multiplicity a t = strictness.multiplicity b t := by
  simp only [Multiset.ext, count_tokenBag]

theorem card_inter_eq_sum (strictness : Strictness) {a b : List String} {tokens : Finset String}
    (h : ∀ t ∈ a ++ b, t ∈ tokens) :
    (strictness.tokenBag a ∩ strictness.tokenBag b).card =
      ∑ t ∈ tokens, min (strictness.multiplicity a t) (strictness.multiplicity b t) := by
  simp only [← count_tokenBag, ← Multiset.count_inter]
  refine (Multiset.sum_count_eq_card fun t ht => ?_).symm
  exact h t (List.mem_append_left b (mem_tokenBag.1 (Multiset.mem_inter.1 ht).1))

theorem card_union_eq_sum (strictness : Strictness) {a b : List String} {tokens : Finset String}
    (h : ∀ t ∈ a ++ b, t ∈ tokens) :
    (strictness.tokenBag a ∪ strictness.tokenBag b).card =
      ∑ t ∈ tokens, max (strictness.multiplicity a t) (strictness.multiplicity b t) := by
  simp only [← count_tokenBag, ← Multiset.count_union]
  refine (Multiset.sum_count_eq_card fun t ht => ?_).symm
  exact h t (List.mem_append.2 ((Multiset.mem_union.1 ht).imp mem_tokenBag.1 mem_tokenBag.1))

end Strictness

namespace TokenBag

variable [Hashable String]

/-! ## Orders of entries -/

theorem length_filter_contains_comm (a b : Std.HashSet String) :
    (a.toList.filter b.contains).length = (b.toList.filter a.contains).length := by
  refine List.Perm.length_eq ?_
  rw [List.perm_ext_iff_of_nodup ((nodup_toList a).filter _) ((nodup_toList b).filter _)]
  intro t
  rw [List.mem_filter, List.mem_filter, Std.HashSet.mem_toList, Std.HashSet.mem_toList,
    Std.HashSet.contains_iff_mem, Std.HashSet.contains_iff_mem, and_comm]

/-- Sets share what is met of the one and held by the other, whichever is gone over. -/
theorem countP_entries {a : Std.HashSet String} {order : List (String × Nat)}
    (h : order.Perm (set a).entries) (b : Std.HashSet String) :
    (order.countP fun entry => b.contains entry.1) = (a.toList.filter b.contains).length := by
  rw [h.countP_eq, entries, List.countP_map, List.countP_eq_length_filter]
  rfl

theorem sizeAlong_eq (bag : TokenBag) {order : List (String × Nat)} (h : order.Perm bag.entries) :
    bag.sizeAlong order = bag.size := by
  cases bag with
  | set tokens => rfl
  | counted counts =>
    refine h.foldr_eq' (fun entry _ entry' _ total => ?_) 0
    exact Nat.add_left_comm ..

/-- The first loop over two maps, with the entries of the first one met in any order. -/
theorem foldl_first_eq {a : Std.HashMap String Nat} {order : List (String × Nat)}
    (h : order.Perm a.toList) (b : Std.HashMap String Nat) :
    order.foldl
        (fun (common, union) (token, n) =>
          (common + min n (b.getD token 0), union + max n (b.getD token 0)))
        (0, 0) =
      overlapFirst a b := by
  refine h.foldl_eq' (fun entry _ entry' _ counts => ?_) (0, 0)
  exact Prod.ext (Nat.add_right_comm ..) (Nat.add_right_comm ..)

/-- The second loop over two maps, with the entries of the second one met in any order. -/
theorem foldl_second_eq {b : Std.HashMap String Nat} {order : List (String × Nat)}
    (h : order.Perm b.toList) (a : Std.HashMap String Nat) (union : Nat) :
    order.foldl (fun union (token, n) => if a.contains token then union else union + n) union =
      overlapSecond a b union := by
  refine h.foldl_eq' (fun entry _ entry' _ union => ?_) union
  dsimp only
  split <;> split <;> omega

/-- In whatever orders the entries of two bags are met, the overlap is the same, and no difference
is below zero. -/
theorem overlapAlong?_eq (x y : TokenBag) {first second : List (String × Nat)}
    (hfirst : first.Perm x.entries) (hsecond : second.Perm y.entries) :
    overlapAlong? first second x y = some (x.overlap y) := by
  have hsizes : x.sizeAlong first + y.sizeAlong second = x.size + y.size := by
    rw [sizeAlong_eq x hfirst, sizeAlong_eq y hsecond]
  cases x with
  | set a =>
    cases y with
    | set b =>
      have hcommon : (if a.size ≤ b.size then first.countP fun entry => b.contains entry.1
          else second.countP fun entry => a.contains entry.1) =
          (a.toList.filter b.contains).length := by
        rw [countP_entries hfirst, countP_entries hsecond, length_filter_contains_comm b a, ite_self]
      have hle : (a.toList.filter b.contains).length ≤ a.size + b.size := by
        have hlength := List.length_filter_le b.contains a.toList
        rw [Std.HashSet.length_toList] at hlength
        omega
      rw [overlapAlong?, hcommon]
      exact if_pos hle
    | counted b => exact congrArg (fun total => some (0, total)) hsizes
  | counted a =>
    cases y with
    | set b => exact congrArg (fun total => some (0, total)) hsizes
    | counted b =>
      rw [overlapAlong?, foldl_first_eq hfirst, overlap]
      exact congrArg (fun union => some (_, union)) (foldl_second_eq hsecond a _)

/-! ## Overlaps -/

/-- **Overlaps are sums of multiplicities.**  Two bags of tokens have in common the sum of the lesser
multiplicities of all tokens, and have together the sum of the greater ones.  So an overlap is
symmetric, its two counts add up to both sizes, it lies within them, and its counts are equal just
for equal bags.  It comes out whatever order the entries are met in, with no difference below
zero. -/
theorem overlap_multiplicities (strictness : Strictness) (a b : List String) :
    let x := ofTokens strictness a
    let y := ofTokens strictness b
    let common := (x.overlap y).1
    let union := (x.overlap y).2
    (∀ tokens : Finset String, (∀ t ∈ a ++ b, t ∈ tokens) →
        common = ∑ t ∈ tokens, min (strictness.multiplicity a t) (strictness.multiplicity b t) ∧
        union = ∑ t ∈ tokens, max (strictness.multiplicity a t) (strictness.multiplicity b t)) ∧
      y.overlap x = x.overlap y ∧
      common + union = x.size + y.size ∧
      common ≤ min x.size y.size ∧
      max x.size y.size ≤ union ∧
      (common = union ↔ ∀ t, strictness.multiplicity a t = strictness.multiplicity b t) ∧
      ∀ first second, first.Perm x.entries → second.Perm y.entries →
        x.sizeAlong first = x.size ∧ y.sizeAlong second = y.size ∧
          overlapAlong? first second x y = some (x.overlap y) := by
  intro x y common union
  have hcommon : common = (strictness.tokenBag a ∩ strictness.tokenBag b).card :=
    congrArg Prod.fst (overlap_ofTokens strictness a b)
  have hunion : union = (strictness.tokenBag a ∪ strictness.tokenBag b).card :=
    congrArg Prod.snd (overlap_ofTokens strictness a b)
  have hx : x.size = (strictness.tokenBag a).card := size_ofTokens strictness a
  have hy : y.size = (strictness.tokenBag b).card := size_ofTokens strictness b
  refine ⟨fun tokens htokens => ?_, ?_, ?_, ?_, ?_, ?_, fun first second hfirst hsecond => ?_⟩
  · rw [hcommon, hunion]
    exact ⟨strictness.card_inter_eq_sum htokens, strictness.card_union_eq_sum htokens⟩
  · rw [overlap_ofTokens, overlap_ofTokens, Multiset.inter_comm, Multiset.union_comm]
  · rw [hcommon, hunion, hx, hy, ← Multiset.card_add, ← Multiset.card_add, Multiset.add_comm,
      Multiset.union_add_inter]
  · rw [hcommon, hx, hy, le_min_iff]
    exact ⟨Multiset.card_le_card Multiset.inter_le_left,
      Multiset.card_le_card Multiset.inter_le_right⟩
  · rw [hunion, hx, hy, max_le_iff]
    exact ⟨Multiset.card_le_card Multiset.le_union_left,
      Multiset.card_le_card Multiset.le_union_right⟩
  · rw [hcommon, hunion, Strictness.card_inter_eq_card_union_iff, Strictness.tokenBag_eq_iff]
  · exact ⟨sizeAlong_eq x hfirst, sizeAlong_eq y hsecond, overlapAlong?_eq x y hfirst hsecond⟩

/-- Of three tokens and four ones two are shared, whichever way the maps are gone over. -/
theorem overlap_multiplicities_repeated :
    let x := ofTokens .strict ["A", "B", "B"]
    let y := ofTokens .strict ["B", "C", "B", "B"]
    x.overlap y = (2, 5) ∧
      overlapAlong? x.entries.reverse y.entries.reverse x y = some (2, 5) := by
  intro x y
  obtain ⟨hsums, -, -, -, -, -, horders⟩ :=
    overlap_multiplicities .strict ["A", "B", "B"] ["B", "C", "B", "B"]
  obtain ⟨hcommon, hunion⟩ := hsums {"A", "B", "C"} (by decide)
  have hoverlap : x.overlap y = (2, 5) :=
    Prod.ext (hcommon.trans (by decide)) (hunion.trans (by decide))
  obtain ⟨-, -, halong⟩ := horders x.entries.reverse y.entries.reverse (List.reverse_perm x.entries)
    (List.reverse_perm y.entries)
  exact ⟨hoverlap, halong.trans (congrArg some hoverlap)⟩

end TokenBag

end Fingerprint
