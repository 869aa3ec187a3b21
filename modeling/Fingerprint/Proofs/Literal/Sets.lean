import Fingerprint.Literal.Hash
import Fingerprint.Proofs.Matching.Overlap
/-!
# Order, equality and hash of literals

The three ways to tell literals apart agree, so that a list of literals stands for the same set
whether it is sorted, hashed or indexed.  Of a hashing nothing is asked but that it takes the two
zeros for one number.
-/

namespace Fingerprint

namespace Literal

/-- Whether one list keeps the distinct values of another, each of them once. -/
structure Keeps (kept literals : List Literal) : Prop where
  distinct : kept.Pairwise fun a b => (a == b) = false
  contains : ∀ l, kept.contains l = literals.contains l

theorem contains_eq_decide_mem_keys (literals : List Literal) (l : Literal) :
    literals.contains l = decide (l.sortKey ∈ keys literals) := by
  rw [Bool.eq_iff_iff, List.contains_iff_exists_mem_beq, decide_eq_true_iff, keys,
    List.mem_toFinset, List.mem_map]
  simp only [beq_eq_decide_sortKey, decide_eq_true_iff]
  exact exists_congr fun k => and_congr_right fun _ => eq_comm

theorem keys_subset_of_contains {a b : List Literal} (h : ∀ l, a.contains l = b.contains l) :
    keys a ⊆ keys b := by
  intro k hk
  obtain ⟨l, -, rfl⟩ := List.mem_map.1 (List.mem_toFinset.1 hk)
  have hl := h l
  rw [contains_eq_decide_mem_keys, contains_eq_decide_mem_keys, decide_eq_decide] at hl
  exact hl.1 hk

theorem keeps_iff {kept literals : List Literal} :
    Keeps kept literals ↔ (kept.map sortKey).Nodup ∧ keys kept = keys literals := by
  have hdistinct : (kept.Pairwise fun a b => (a == b) = false) ↔ (kept.map sortKey).Nodup := by
    rw [List.Nodup, List.pairwise_map]
    simp only [beq_eq_decide_sortKey, decide_eq_false_iff_not, ne_eq]
  constructor
  · intro h
    exact ⟨hdistinct.1 h.distinct, (keys_subset_of_contains h.contains).antisymm
      (keys_subset_of_contains fun l => (h.contains l).symm)⟩
  · rintro ⟨hnodup, hkeys⟩
    refine ⟨hdistinct.2 hnodup, fun l => ?_⟩
    rw [contains_eq_decide_mem_keys, contains_eq_decide_mem_keys, hkeys]

theorem Keeps.length_eq {kept literals : List Literal} (h : Keeps kept literals) :
    kept.length = (keys literals).card := by
  obtain ⟨hnodup, hkeys⟩ := keeps_iff.1 h
  rw [← hkeys, keys, List.toFinset_card_of_nodup hnodup, List.length_map]

theorem keeps_ascending (literals : List Literal) : Keeps (ascending literals) literals := by
  obtain ⟨hlt, hkeys⟩ := pairwise_map_sortKey_ascending literals
  have hnodup : ((ascending literals).map sortKey).Nodup := hlt.imp fun hab => ne_of_lt hab
  refine keeps_iff.2 ⟨hnodup, Finset.val_injective ?_⟩
  rw [← hkeys]
  exact Multiset.dedup_eq_self.2 (Multiset.coe_nodup.2 hnodup)

end Literal

/-! ## Hashing -/

namespace Hashing

variable {hashing : Hashing} (hzeros : hashing.word (-Double.zero) = hashing.word Double.zero)

include hzeros

/-- A hashing that takes the two zeros for one number feeds a hasher the same for equal literals. -/
theorem inputs_eq_of_beq {a b : Literal} (h : (a == b) = true) :
    hashing.inputs a = hashing.inputs b := by
  cases a with
  | number x =>
    cases b with
    | number y =>
      have hkey : x.key = y.key := of_decide_eq_true h
      have hzero : ∀ negative bounded,
          hashing.word (.ranked negative 0 bounded) = hashing.word Double.zero := by
        intro negative bounded
        cases negative with
        | false => rfl
        | true => exact hzeros
      rcases Double.eq_or_zeros_of_key_eq hkey with
        rfl | ⟨negative, negative', bounded, bounded', rfl, rfl⟩
      · rfl
      · rw [inputs, inputs, hzero, hzero]
    | text t => exact absurd h Bool.false_ne_true
  | text s =>
    cases b with
    | number y => exact absurd h Bool.false_ne_true
    | text t =>
      have hst : s = t := eq_of_beq (α := String) h
      rw [hst]

theorem hash_eq_of_beq {a b : Literal} (h : (a == b) = true) : hashing.hash a = hashing.hash b :=
  congrArg hashing.digest (inputs_eq_of_beq hzeros h)

theorem lawfulHashable : @LawfulHashable Literal _ hashing.hashable :=
  @LawfulHashable.mk Literal _ hashing.hashable fun _ _ h => hash_eq_of_beq hzeros h

theorem contains_set (literals : List Literal) (l : Literal) :
    (hashing.set literals).contains l = literals.contains l := by
  have := lawfulHashable hzeros
  exact Std.HashSet.contains_ofList

theorem keeps_set (literals : List Literal) :
    Literal.Keeps (hashing.set literals).toList literals where
  distinct := by
    have := lawfulHashable hzeros
    exact Std.HashSet.distinct_toList
  contains := by
    have := lawfulHashable hzeros
    intro l
    rw [Std.HashSet.contains_toList, contains_set hzeros]

theorem size_set (literals : List Literal) :
    (hashing.set literals).size = (Literal.keys literals).card := by
  have := lawfulHashable hzeros
  rw [← Std.HashSet.length_toList, (keeps_set hzeros literals).length_eq]

/-- Hash sets overlap as ascending lists do. -/
theorem overlap_eq (a b : List Literal) :
    hashing.overlap a b =
      overlapCounts Literal.lt (Literal.ascending a) (Literal.ascending b) := by
  obtain ⟨hnodup, hkeys⟩ := Literal.keeps_iff.1 (keeps_set hzeros a)
  have hcommon : ((hashing.set a).toList.filter (hashing.set b).contains).length =
      (Literal.keys a ∩ Literal.keys b).card := by
    have hfilter : ((hashing.set a).toList.filter (hashing.set b).contains).map Literal.sortKey =
        ((hashing.set a).toList.map Literal.sortKey).filter
          fun k => decide (k ∈ Literal.keys b) := by
      rw [List.filter_map]
      congr 1
      apply List.filter_congr
      intro l _
      rw [contains_set hzeros, Literal.contains_eq_decide_mem_keys]
      rfl
    rw [← List.length_map Literal.sortKey, hfilter,
      ← List.toFinset_card_of_nodup (hnodup.filter _), List.toFinset_filter, ← hkeys]
    congr 1
    ext k
    simp [Literal.keys]
  have hcard := Finset.card_union_add_card_inter (Literal.keys a) (Literal.keys b)
  rw [overlap, Literal.overlapCounts_ascending]
  simp only [hcommon, size_set hzeros, Prod.mk.injEq, true_and]
  omega

end Hashing

/-! ## Indexing -/

namespace LiteralIndex

theorem contains_foldl_insert (value : Std.TreeMap Literal (List Nat) → Literal → List Nat)
    (literals : List Literal) :
    ∀ (holders : Std.TreeMap Literal (List Nat)) (l : Literal),
      (literals.foldl (fun holders l => holders.insert l (value holders l)) holders).contains l =
        (holders.contains l || literals.contains l) := by
  induction literals with
  | nil => exact fun holders l => (Bool.or_false _).symm
  | cons x rest ih =>
    intro holders l
    have hx : (compare x l == .eq) = (l == x) := by
      rw [Bool.eq_iff_iff, beq_iff_eq, Std.OrientedCmp.eq_comm,
        Std.LawfulBEqOrd.compare_eq_iff_beq]
    rw [List.foldl_cons, ih, Std.TreeMap.contains_insert, List.contains_cons, hx,
      Bool.or_comm (l == x), Bool.or_assoc]

theorem contains_ofLibraries (libraries : List (List Literal)) (l : Literal) :
    (ofLibraries libraries).holders.contains l = libraries.flatten.contains l := by
  have hadd : ∀ (rest : List (List Literal)) (index : LiteralIndex),
      (rest.foldl add index).holders.contains l =
        (index.holders.contains l || rest.flatten.contains l) := by
    intro rest
    induction rest with
    | nil => exact fun index => (Bool.or_false _).symm
    | cons literals rest ih =>
      intro index
      rw [List.foldl_cons, ih, add, contains_foldl_insert, List.flatten_cons, List.contains_append,
        Bool.or_assoc]
  rw [ofLibraries, hadd]
  exact Bool.false_or _

theorem keeps_keys (libraries : List (List Literal)) :
    Literal.Keeps (ofLibraries libraries).holders.keys libraries.flatten where
  distinct := Std.TreeMap.distinct_keys.imp fun hne =>
    Std.LawfulBEqOrd.not_compare_eq_iff_beq_eq_false.1 hne
  contains := fun l => by rw [Std.TreeMap.contains_keys, contains_ofLibraries]

end LiteralIndex

namespace Hashing

section Lawful

variable {hashing : Hashing} (hzeros : hashing.word (-Double.zero) = hashing.word Double.zero)

include hzeros

/-- A hash map and a search tree that hold the same under every literal still do after a library
is posted to both. -/
theorem getElem?_post (number : Nat) (literals : List Literal) :
    ∀ (hashed : hashing.Map (List Nat)) (holders : Std.TreeMap Literal (List Nat)),
      (∀ l : Literal, hashed[l]? = holders[l]?) →
      ∀ l : Literal, (hashing.post hashed (literals, number))[l]? =
        (literals.foldl (fun holders l =>
          holders.insert l (LiteralIndex.post number (holders.getD l []))) holders)[l]? := by
  have := lawfulHashable hzeros
  induction literals with
  | nil => exact fun hashed holders h => h
  | cons x rest ih =>
    intro hashed holders h
    refine ih _ _ fun l => ?_
    rw [Std.HashMap.getElem?_insert, Std.TreeMap.getElem?_insert, h l,
      Std.HashMap.getD_eq_getD_getElem?, Std.TreeMap.getD_eq_getD_getElem?, h x]
    simp only [← Std.LawfulBEqOrd.compare_eq_iff_beq]

theorem getElem?_holders (libraries : List (List Literal)) (l : Literal) :
    (hashing.holders libraries)[l]? = (LiteralIndex.ofLibraries libraries).holders[l]? := by
  have := lawfulHashable hzeros
  have hadd : ∀ (rest : List (List Literal)) (index : LiteralIndex)
      (hashed : hashing.Map (List Nat)), (∀ l : Literal, hashed[l]? = index.holders[l]?) →
      ∀ l : Literal, ((rest.zipIdx index.libraryCount).foldl hashing.post hashed)[l]? =
        (rest.foldl LiteralIndex.add index).holders[l]? := by
    intro rest
    induction rest with
    | nil => exact fun index hashed h => h
    | cons literals rest ih =>
      intro index hashed h
      exact ih (index.add literals) _ (getElem?_post hzeros _ literals hashed index.holders h)
  exact hadd libraries {} _ (fun l => by simp) l

theorem keeps_holders (libraries : List (List Literal)) :
    Literal.Keeps (hashing.holders libraries).keys libraries.flatten where
  distinct := by
    have := lawfulHashable hzeros
    exact Std.HashMap.distinct_keys
  contains := by
    have := lawfulHashable hzeros
    intro l
    rw [Std.HashMap.contains_keys, Std.HashMap.contains_eq_isSome_getElem?,
      getElem?_holders hzeros, ← Std.TreeMap.contains_eq_isSome_getElem?,
      LiteralIndex.contains_ofLibraries]

/-! ## Agreement -/

/-- The order of literals is total, its ties are the equal literals, and equal literals are written
and hashed alike.  So a list of literals has the same distinct values as an ascending list, as a
hash set, in the index and in a hash map that is filled as the index is, and two lists overlap
alike as ascending lists and as hash sets. -/
theorem distinct_values_agree :
    (∀ a : Literal, compare a a = .eq) ∧
    (∀ a b : Literal, compare b a = (compare a b).swap) ∧
    (∀ a b c : Literal, (compare a b).isLE = true → (compare b c).isLE = true →
      (compare a c).isLE = true) ∧
    (∀ a b : Literal, compare a b = .eq ↔ (a == b) = true) ∧
    (∀ a b : Literal, (a == b) = true →
      a.display = b.display ∧ hashing.inputs a = hashing.inputs b ∧
        hashing.hash a = hashing.hash b) ∧
    (∀ literals : List Literal,
      Literal.Keeps (Literal.ascending literals) literals ∧
      Literal.Keeps (hashing.set literals).toList literals ∧
      Literal.Keeps (LiteralIndex.ofLibraries [literals]).holders.keys literals ∧
      Literal.Keeps (hashing.holders [literals]).keys literals) ∧
    (∀ literals : List Literal,
      (hashing.set literals).size = (Literal.ascending literals).length ∧
        (LiteralIndex.ofLibraries [literals]).literalCount =
          (Literal.ascending literals).length) ∧
    (∀ (libraries : List (List Literal)) (l : Literal),
      (hashing.holders libraries)[l]? = (LiteralIndex.ofLibraries libraries).holders[l]?) ∧
    ∀ a b : List Literal, hashing.overlap a b =
      overlapCounts Literal.lt (Literal.ascending a) (Literal.ascending b) := by
  have hsingle : ∀ literals : List Literal, [literals].flatten = literals :=
    fun literals => List.flatten_singleton
  refine ⟨fun a => Std.ReflCmp.compare_self, fun a b => Std.OrientedCmp.eq_swap,
    fun a b c => Std.TransCmp.isLE_trans, fun a b => Std.LawfulBEqOrd.compare_eq_iff_beq,
    fun a b h => ⟨?display, inputs_eq_of_beq hzeros h, hash_eq_of_beq hzeros h⟩,
    fun literals => ⟨Literal.keeps_ascending literals, keeps_set hzeros literals, ?index, ?map⟩,
    fun literals => ⟨?size, ?count⟩, getElem?_holders hzeros, overlap_eq hzeros⟩
  case display =>
    rw [Literal.beq_eq_decide_sortKey, decide_eq_true_iff] at h
    have hdisplay : ∀ l : Literal, l.display = (ofLex l.sortKey).1 := fun l => by cases l <;> rfl
    rw [hdisplay, hdisplay, h]
  case index =>
    have hkept := LiteralIndex.keeps_keys [literals]
    rwa [hsingle] at hkept
  case map =>
    have hkept := keeps_holders hzeros [literals]
    rwa [hsingle] at hkept
  case size => rw [size_set hzeros, Literal.length_ascending]
  case count =>
    have hkept := LiteralIndex.keeps_keys [literals]
    rw [LiteralIndex.literalCount, ← Std.TreeMap.length_keys, hkept.length_eq, hsingle,
      Literal.length_ascending]

end Lawful

/-- The word that packs a number as decoded: all of it but the leading bit of its significand, its
exponent cut to eleven bits, and a bit that is set for what is not negative.  A zero loses its sign
before that. -/
def packed : Double → UInt64
  | .nan => 0x7ff8000000000000
  | .ranked negative rank _ =>
    let fraction := (if rank < twoPow 52 then 2 * rank else rank) % twoPow 52
    let exponent := (rank / twoPow 52 + 2048 - 1075) % 2048
    .ofNat (fraction + exponent * twoPow 52 +
      if negative && rank != 0 then 0 else twoPow 63)

def packing : Hashing where
  word := packed
  digest fed := fed.foldl (fun hash input =>
    31 * hash + match input with
      | .variant number => .ofNat number
      | .word bits => bits
      | .text value => .ofNat value.length) 7

theorem distinct_values_zeros_and_texts :
    packing.word (-Double.zero) = packing.word Double.zero ∧
      (packing.set [.number .zero, .text "0", .number (-.zero), .number .nan, .text "NaN",
        .number .nan]).size = 4 := by
  have hzeros : packing.word (-Double.zero) = packing.word Double.zero := by decide +kernel
  have hsize := ((distinct_values_agree hzeros).2.2.2.2.2.2.1
    [.number .zero, .text "0", .number (-.zero), .number .nan, .text "NaN", .number .nan]).1
  refine ⟨hzeros, hsize.trans ?_⟩
  rw [Literal.length_ascending]
  decide +kernel

end Hashing

end Fingerprint
