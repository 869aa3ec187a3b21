import Mathlib.Algebra.Order.BigOperators.Group.List
import Fingerprint.Proofs.Matching.Full
/-!
# The ends of the scale

A score lies between zero and one.  It is zero just when the signatures have nothing in common of
what they are compared by, and one just when the unknown signature has something that counts and
the library has all of it, and for a ratio to the union nothing else.
-/

namespace Fingerprint

namespace Confidence

/-- A confidence from zero to one, with what it means to be at either end. -/
structure Gauges (c : Confidence) (apart full : Prop) : Prop where
  den_pos : 0 < c.den
  num_le : c.num ≤ c.den
  num_eq_zero_iff : c.num = 0 ↔ apart
  num_eq_den_iff : c.num = c.den ↔ full

theorem gauges_ofCounts {num den : Nat} (hle : num ≤ den) {apart full : Prop}
    (hapart : num = 0 ↔ apart) (hfull : num = den ∧ 0 < den ↔ full) :
    (ofCounts num den).Gauges apart full := by
  have hproper := isProper_ofCounts hle
  refine ⟨hproper.den_pos, hproper.num_le, ?_, ?_⟩
  · rwa [ofCounts_num hle]
  · rw [← hfull, ofCounts]
    split
    · exact iff_of_false Nat.zero_ne_one (by omega)
    · exact (and_iff_left (Nat.pos_of_ne_zero ‹_›)).symm

/-! ## Overlapping at all -/

theorem favours_of_key {κ : Type} [LinearOrder κ] {order : Confidence → Confidence → Ordering}
    {key : Confidence → κ} {p q : Confidence → Prop}
    (horder : ∀ c d, order c d = compare (key c) (key d))
    (hkey : ∀ c d, p c → p d → ¬q c → q d → key c < key d) : Favours order p q where
  above c d hc hd hqc hqd := by
    rw [horder, compare_gt_iff_gt]
    exact hkey d c hd hc hqd hqc
  below c d hc hd hqc hqd := by
    rw [horder, compare_lt_iff_lt]
    exact hkey c d hc hd hqc hqd

def Overlaps (c : Confidence) : Prop := 0 < c.num

theorem favours_byRatio : Favours byRatio IsProper Overlaps := by
  apply favours_of_key fun _ _ => rfl
  intro c d hc hd hnot hoverlaps
  have hzero : c.ratio ≤ 0 := by rwa [← not_lt, ratio_pos_iff hc.den_pos]
  exact hzero.trans_lt ((ratio_pos_iff hd.den_pos).2 hoverlaps)

theorem favours_byValue : Favours byValue IsExact Overlaps := by
  apply favours_of_key byValue_eq
  intro c d hc hd hnot hoverlaps
  rw [hc.val_eq_ofRatio, Nat.eq_zero_of_not_pos hnot, Double.ofRatio_zero hc.1.den_pos,
    hd.val_eq_ofRatio]
  exact Double.key_ofRatio_pos hoverlaps hd.1.den_pos hd.2

end Confidence

/-! ## Sets of values -/

section Sets

variable {α : Type} [BEq α]

def Apart (a b : List α) : Prop := ∀ x ∈ a, ∀ y ∈ b, (x == y) = false

def Within (a b : List α) : Prop := ∀ x ∈ a, ∃ y ∈ b, (x == y) = true

/-- What the values of two lists have to do for all of them to overlap. -/
def Overlap.Full (measure : Overlap) (unknown library : List α) : Prop :=
  match measure with
  | jaccard => unknown ≠ [] ∧ Within unknown library ∧ Within library unknown
  | coverage => unknown ≠ [] ∧ Within unknown library

variable {κ : Type} [DecidableEq κ] {key : α → κ} {a b : List α}

theorem disjoint_keys_iff (hkey : ∀ x y, (x == y) = decide (key x = key y)) :
    Disjoint (a.map key).toFinset (b.map key).toFinset ↔ Apart a b := by
  rw [Finset.disjoint_left]
  simp only [List.mem_toFinset, List.mem_map, not_exists, not_and, Apart, hkey,
    decide_eq_false_iff_not]
  constructor
  · intro h x hx y hy heq
    exact h ⟨x, hx, rfl⟩ y hy heq.symm
  · rintro h _ ⟨x, hx, rfl⟩ y hy heq
    exact h x hx y hy heq.symm

theorem keys_subset_iff (hkey : ∀ x y, (x == y) = decide (key x = key y)) :
    (a.map key).toFinset ⊆ (b.map key).toFinset ↔ Within a b := by
  simp only [Finset.subset_iff, List.mem_toFinset, List.mem_map, Within, hkey, decide_eq_true_iff]
  constructor
  · intro h x hx
    obtain ⟨y, hy, heq⟩ := h ⟨x, hx, rfl⟩
    exact ⟨y, hy, heq.symm⟩
  · rintro h _ ⟨x, hx, rfl⟩
    obtain ⟨y, hy, heq⟩ := h x hx
    exact ⟨y, hy, heq.symm⟩

omit [BEq α] in
theorem keys_nonempty_iff (key : α → κ) : (a.map key).toFinset.Nonempty ↔ a ≠ [] := by
  rw [List.toFinset_nonempty_iff, Ne, List.map_eq_nil_iff]

theorem Overlap.gauges (measure : Overlap) (hkey : ∀ x y, (x == y) = decide (key x = key y))
    {lt : α → α → Bool} {unknown library : List α}
    (hcounts : overlapCounts lt unknown library =
      (((a.map key).toFinset ∩ (b.map key).toFinset).card,
        ((a.map key).toFinset ∪ (b.map key).toFinset).card))
    (hlength : unknown.length = (a.map key).toFinset.card) :
    (measure.confidence lt unknown library).Gauges (Apart a b) (measure.Full a b) := by
  rw [confidence, hcounts, hlength]
  set A := (a.map key).toFinset with hA
  set B := (b.map key).toFinset with hB
  have hapart : (A ∩ B).card = 0 ↔ Apart a b := by
    rw [Finset.card_eq_zero, ← Finset.disjoint_iff_inter_eq_empty, hA, hB, disjoint_keys_iff hkey]
  cases measure with
  | jaccard =>
    have hle : A ∩ B ⊆ A ∪ B := Finset.inter_subset_left.trans Finset.subset_union_left
    refine Confidence.gauges_ofCounts (Finset.card_le_card hle) hapart ?_
    have heq : (A ∩ B).card = (A ∪ B).card ↔ A = B := by
      constructor
      · intro h
        exact inf_eq_sup.1 (Finset.eq_of_subset_of_card_le hle h.ge)
      · intro h
        rw [h, Finset.inter_self, Finset.union_self]
    rw [heq, Full, ← keys_subset_iff hkey, ← keys_subset_iff hkey, ← keys_nonempty_iff key,
      ← hA, ← hB, ← Finset.Subset.antisymm_iff, and_comm]
    refine and_congr_left fun h => ?_
    rw [h, Finset.union_self, Finset.card_pos]
  | coverage =>
    refine Confidence.gauges_ofCounts (Finset.card_le_card Finset.inter_subset_left) hapart ?_
    have heq : (A ∩ B).card = A.card ↔ A ⊆ B := by
      rw [← Finset.inter_eq_left]
      exact ⟨fun h => Finset.eq_of_subset_of_card_le Finset.inter_subset_left h.ge,
        congrArg Finset.card⟩
    rw [heq, Full, ← keys_subset_iff hkey, ← keys_nonempty_iff key, ← hA, ← hB,
      Finset.card_pos, and_comm]

end Sets

theorem Overlap.gauges_textSet (measure : Overlap) (a b : List String) :
    (measure.confidence textLt (textSet a) (textSet b)).Gauges (Apart a b) (measure.Full a b) := by
  have hcounts := Strictness.loose.overlapCounts_bag a b
  have hlength := Strictness.loose.length_bag a
  rw [Strictness.tokenBag, Strictness.tokenBag, ← Finset.inter_val, ← Finset.union_val] at hcounts
  have hid : ∀ x y : String, (x == y) = decide (id x = id y) := fun _ _ => rfl
  apply measure.gauges hid
  · rw [List.map_id, List.map_id]
    exact hcounts
  · rw [List.map_id]
    exact hlength

theorem Overlap.gauges_literals (measure : Overlap) (a b : List Literal) :
    (measure.confidence Literal.lt (Literal.ascending a) (Literal.ascending b)).Gauges
      (Apart a b) (measure.Full a b) :=
  measure.gauges Literal.beq_eq_decide_sortKey (Literal.overlapCounts_ascending a b)
    (Literal.length_ascending a)

/-! ## Functions -/

/-- The parts of a sum are the whole just when each part is. -/
theorem sum_map_eq_sum_map_iff {α : Type} {part whole : α → Nat} {l : List α}
    (hle : ∀ x ∈ l, part x ≤ whole x) :
    (l.map part).sum = (l.map whole).sum ↔ ∀ x ∈ l, part x = whole x := by
  constructor
  · intro heq x hx
    by_contra hne
    exact (List.sum_lt_sum part whole hle ⟨x, hx, lt_of_le_of_ne (hle x hx) hne⟩).ne heq
  · exact fun h => congrArg List.sum (List.map_congr_left h)

theorem Strictness.card_tokenBag_eq_zero_iff {strictness : Strictness} {tokens : List String} :
    (strictness.tokenBag tokens).card = 0 ↔ tokens = [] := by
  rw [Multiset.card_eq_zero, Multiset.eq_zero_iff_forall_notMem, List.eq_nil_iff_forall_not_mem]
  simp only [mem_tokenBag]

theorem FunctionSignature.isFull_overlap_iff {strictness : Strictness} {f g : FunctionSignature} :
    (f.overlap strictness g).IsFull ↔ f.statementTokens ≠ [] ∧
      strictness.tokenBag f.statementTokens = strictness.tokenBag g.statementTokens := by
  constructor
  · intro hfull
    have hnum := (f.isProper_overlap strictness g).num_pos hfull
    obtain ⟨t, ht, -⟩ := sharesToken_iff.1 ((overlap_num_pos_iff strictness).1 hnum)
    refine ⟨List.ne_nil_of_mem ht, ?_⟩
    have hcard := (Confidence.gauges_ofCounts (Strictness.card_inter_le_card_union
      (strictness.tokenBag f.statementTokens) (strictness.tokenBag g.statementTokens)) Iff.rfl
      Iff.rfl).num_eq_den_iff.1 hfull
    exact Strictness.card_inter_eq_card_union_iff.1 hcard.1
  · rintro ⟨hne, heq⟩
    have hself : (f.overlap strictness f).IsFull :=
      isFull_overlap_self (Nat.pos_of_ne_zero (mt Strictness.card_tokenBag_eq_zero_iff.1 hne))
    rw [overlap, heq] at hself
    rwa [overlap, heq]

namespace Alignment

variable {order : Confidence → Confidence → Ordering} {p : Confidence → Prop}
variable {strictness : Strictness} {library : Signature} {f : FunctionSignature}

theorem matchOf?_eq_none_iff_of_favours (horder : Confidence.Favours order p Confidence.Overlaps)
    (hp : ∀ g ∈ library.functions, p (f.overlap strictness g)) :
    matchOf? order strictness library f = none ↔
      ∀ g ∈ library.functions, f.sharesToken g = false := by
  constructor
  · intro hnone g hg
    by_contra hshares
    rw [Bool.not_eq_false] at hshares
    have hoverlaps := (FunctionSignature.overlap_num_pos_iff strictness).2 hshares
    have hmatch : ∃ b, Candidate.match? order (candidates strictness library f) = some b ∧
        b.confidence.Overlaps :=
      Candidate.match?_favoured horder (List.forall_mem_map.2 hp) (fun _ _ h => h)
        ⟨_, List.mem_map_of_mem hg, hoverlaps⟩
    obtain ⟨b, hb, -⟩ := hmatch
    rw [matchOf?, Option.map_eq_none_iff] at hnone
    exact Option.some_ne_none b (hb.symm.trans hnone)
  · intro hnot
    refine Option.eq_none_iff_forall_ne_some.2 fun m hm => ?_
    obtain ⟨g, hg, -, hshares⟩ := exists_of_matchOf? order strictness library hm
    rw [hnot g hg] at hshares
    exact Bool.false_ne_true hshares

def counts (order : Confidence → Confidence → Ordering) (strictness : Strictness)
    (library : Signature) (f : FunctionSignature) : Nat × Nat :=
  match matchOf? order strictness library f with
  | some m => (m.prob.num, m.prob.den)
  | none => (0, size strictness f)

theorem ofSignatures_counts (order : Confidence → Confidence → Ordering) (strictness : Strictness)
    (unknown library : Signature) :
    (ofSignatures order strictness unknown library).num =
        (unknown.functions.map fun f => (counts order strictness library f).1).sum ∧
      (ofSignatures order strictness unknown library).den =
        (unknown.functions.map fun f => (counts order strictness library f).2).sum := by
  have hfold : ∀ (functions : List FunctionSignature) (total : Alignment),
      let result := functions.foldl (add order strictness
        (library.functions.map fun g => (g.index, strictness.bag g.statementTokens))) total
      result.num = total.num + (functions.map fun f => (counts order strictness library f).1).sum ∧
        result.den =
          total.den + (functions.map fun f => (counts order strictness library f).2).sum := by
    intro functions
    induction functions with
    | nil => exact fun _ => ⟨rfl, rfl⟩
    | cons f rest ih =>
      intro total
      rw [List.foldl_cons, List.map_cons, List.map_cons, List.sum_cons, List.sum_cons,
        ← Nat.add_assoc, ← Nat.add_assoc, add_eq, counts]
      cases matchOf? order strictness library f <;> exact ih _
  obtain ⟨hnum, hden⟩ := hfold unknown.functions {}
  rw [Nat.zero_add] at hnum hden
  exact ⟨hnum, hden⟩

theorem counts_le (order : Confidence → Confidence → Ordering) (strictness : Strictness)
    (library : Signature) (f : FunctionSignature) :
    (counts order strictness library f).1 ≤ (counts order strictness library f).2 := by
  rw [counts]
  cases hm : matchOf? order strictness library f with
  | none => exact Nat.zero_le _
  | some m =>
    obtain ⟨g, -, rfl, -⟩ := exists_of_matchOf? order strictness library hm
    exact (f.isProper_overlap strictness g).num_le

theorem counts_fst_eq_zero_iff (horder : Confidence.Favours order p Confidence.Overlaps)
    (hp : ∀ g ∈ library.functions, p (f.overlap strictness g)) :
    (counts order strictness library f).1 = 0 ↔
      ∀ g ∈ library.functions, f.sharesToken g = false := by
  rw [← matchOf?_eq_none_iff_of_favours horder hp, counts]
  cases hm : matchOf? order strictness library f with
  | none => exact iff_of_true rfl rfl
  | some m =>
    obtain ⟨g, -, rfl, hshares⟩ := exists_of_matchOf? order strictness library hm
    have hnum := (FunctionSignature.overlap_num_pos_iff strictness).2 hshares
    exact iff_of_false hnum.ne' (Option.some_ne_none _)

theorem counts_snd_eq_zero_iff (order : Confidence → Confidence → Ordering)
    (strictness : Strictness) (library : Signature) (f : FunctionSignature) :
    (counts order strictness library f).2 = 0 ↔ f.statementTokens = [] := by
  rw [counts]
  cases hm : matchOf? order strictness library f with
  | none => exact Strictness.card_tokenBag_eq_zero_iff
  | some m =>
    obtain ⟨g, -, rfl, hshares⟩ := exists_of_matchOf? order strictness library hm
    obtain ⟨t, ht, -⟩ := FunctionSignature.sharesToken_iff.1 hshares
    exact iff_of_false (f.isProper_overlap strictness g).den_pos.ne' (List.ne_nil_of_mem ht)

/-- A function misses nothing if it has no tokens or the library has a function with the same. -/
theorem counts_fst_eq_snd_iff (horder : Confidence.Favours order p Confidence.IsFull)
    (hp : ∀ g ∈ library.functions, p (f.overlap strictness g)) :
    (counts order strictness library f).1 = (counts order strictness library f).2 ↔
      (f.statementTokens ≠ [] → ∃ g ∈ library.functions,
        strictness.tokenBag f.statementTokens = strictness.tokenBag g.statementTokens) := by
  constructor
  · intro heq hne
    rw [counts] at heq
    cases hm : matchOf? order strictness library f with
    | none =>
      rw [hm] at heq
      exact absurd (Strictness.card_tokenBag_eq_zero_iff.1 heq.symm) hne
    | some m =>
      rw [hm] at heq
      obtain ⟨g, hg, rfl, -⟩ := exists_of_matchOf? order strictness library hm
      exact ⟨g, hg, (FunctionSignature.isFull_overlap_iff.1 heq).2⟩
  · intro hsame
    by_cases hne : f.statementTokens = []
    · have hden := (counts_snd_eq_zero_iff order strictness library f).2 hne
      have hle := counts_le order strictness library f
      omega
    · obtain ⟨g, hg, heq⟩ := hsame hne
      obtain ⟨m, hm, hfull⟩ := exists_matchOf?_isFull horder hp hg
        (FunctionSignature.isFull_overlap_iff.2 ⟨hne, heq⟩)
      rw [counts, hm]
      exact hfull

end Alignment

section Total

variable (strictness : Strictness) (unknown library : Signature)

def FunctionsApart : Prop :=
  ∀ f ∈ unknown.functions, ∀ g ∈ library.functions, f.sharesToken g = false

/-- Some unknown function has tokens, and for each that has the library has one with the same. -/
def FunctionsFull : Prop :=
  (∃ f ∈ unknown.functions, f.statementTokens ≠ []) ∧
    ∀ f ∈ unknown.functions, f.statementTokens ≠ [] → ∃ g ∈ library.functions,
      strictness.tokenBag f.statementTokens = strictness.tokenBag g.statementTokens

variable {strictness unknown library} {order : Confidence → Confidence → Ordering}
variable {p : Confidence → Prop}

/-- Added up, too, the counts tell whether nothing is shared and whether nothing is missed. -/
theorem Alignment.gauges (hfull : Confidence.Favours order p Confidence.IsFull)
    (hoverlaps : Confidence.Favours order p Confidence.Overlaps)
    (hp : ∀ f ∈ unknown.functions, ∀ g ∈ library.functions, p (f.overlap strictness g)) :
    let total := ofSignatures order strictness unknown library
    (Confidence.ofCounts total.num total.den).Gauges (FunctionsApart unknown library)
      (FunctionsFull strictness unknown library) := by
  intro total
  have hle := ofSignatures_num_le order strictness unknown library
  obtain ⟨hnum, hden⟩ := ofSignatures_counts order strictness unknown library
  apply Confidence.gauges_ofCounts hle
  · rw [hnum, List.sum_eq_zero_iff, List.forall_mem_map, FunctionsApart]
    exact forall₂_congr fun f hf => counts_fst_eq_zero_iff hoverlaps (hp f hf)
  · have htokens : 0 < total.den ↔ ∃ f ∈ unknown.functions, f.statementTokens ≠ [] := by
      rw [hden, Nat.pos_iff_ne_zero, Ne, List.sum_eq_zero_iff, List.forall_mem_map]
      simp only [counts_snd_eq_zero_iff, not_forall, exists_prop]
    have hparts : total.num = total.den ↔ ∀ f ∈ unknown.functions, f.statementTokens ≠ [] →
        ∃ g ∈ library.functions,
          strictness.tokenBag f.statementTokens = strictness.tokenBag g.statementTokens := by
      rw [hnum, hden, sum_map_eq_sum_map_iff fun f _ => counts_le order strictness library f]
      exact forall₂_congr fun f hf => counts_fst_eq_snd_iff hfull (hp f hf)
    rw [htokens, hparts, FunctionsFull, and_comm]

end Total

/-! ## Signatures -/

namespace Strategy

/-- Two signatures have nothing in common of what a strategy compares. -/
def Apart (strategy : Strategy) (unknown library : Signature) : Prop :=
  match strategy with
  | literals _ => Fingerprint.Apart unknown.literals library.literals
  | functionNames _ =>
    Fingerprint.Apart (unknown.functions.map (·.name)) (library.functions.map (·.name))
  | statementTypes _ =>
    Fingerprint.Apart (unknown.functions.flatMap (·.statementTypes))
      (library.functions.flatMap (·.statementTypes))
  | functionTokens _ => FunctionsApart unknown library

/-- The unknown signature has something that a strategy compares, and the library has it all. -/
def Full (strategy : Strategy) (unknown library : Signature) : Prop :=
  match strategy with
  | literals measure => measure.Full unknown.literals library.literals
  | functionNames measure =>
    measure.Full (unknown.functions.map (·.name)) (library.functions.map (·.name))
  | statementTypes measure =>
    measure.Full (unknown.functions.flatMap (·.statementTypes))
      (library.functions.flatMap (·.statementTypes))
  | functionTokens strictness => FunctionsFull strictness unknown library

theorem gauges_compareBy {order : Confidence → Confidence → Ordering} {p : Confidence → Prop}
    (hfull : Confidence.Favours order p Confidence.IsFull)
    (hoverlaps : Confidence.Favours order p Confidence.Overlaps) (strategy : Strategy)
    {unknown library : Signature}
    (hp : ∀ strictness, strategy = functionTokens strictness →
      ∀ f ∈ unknown.functions, ∀ g ∈ library.functions, p (f.overlap strictness g)) :
    (strategy.compareBy order unknown library).confidence.Gauges
      (strategy.Apart unknown library) (strategy.Full unknown library) := by
  cases strategy with
  | literals measure => exact measure.gauges_literals _ _
  | functionNames measure => exact measure.gauges_textSet _ _
  | statementTypes measure => exact measure.gauges_textSet _ _
  | functionTokens strictness => exact Alignment.gauges hfull hoverlaps (hp strictness rfl)

theorem confidence_compare (strategy : Strategy) (unknown library : Signature) :
    (strategy.compare unknown library).confidence = strategy.score unknown library := by
  cases strategy <;> rfl

/-- With confidences read as ratios, every score lies between zero and one, is zero just when the
signatures have nothing in common, and one just when nothing of the unknown one is missed.  The
values that functions are really aligned by change nothing of this for functions of fewer than
`2 ^ 52` tokens, and a score out of more still lies between zero and one. -/
theorem score_gauges (strategy : Strategy) (unknown library : Signature) :
    (strategy.compareBy Confidence.byRatio unknown library).confidence.Gauges
      (strategy.Apart unknown library) (strategy.Full unknown library) ∧
    (0 < (strategy.score unknown library).den ∧
      (strategy.score unknown library).num ≤ (strategy.score unknown library).den) ∧
    ((∀ strictness, strategy = functionTokens strictness →
        ∀ f ∈ unknown.functions ++ library.functions, f.statementTokens.length < 2 ^ 52) →
      (strategy.score unknown library).Gauges
        (strategy.Apart unknown library) (strategy.Full unknown library)) := by
  have hproper := strategy.isProper_compareBy Confidence.byValue unknown library
  have hscore := strategy.confidence_compare unknown library
  rw [compare] at hscore
  rw [← hscore]
  refine ⟨?_, ⟨hproper.den_pos, hproper.num_le⟩, fun htokens => ?_⟩
  · exact gauges_compareBy Confidence.tellsFull_byRatio.favours Confidence.favours_byRatio strategy
      fun strictness _ f _ g _ => f.isProper_overlap strictness g
  · apply gauges_compareBy Confidence.tellsFull_byValue.favours Confidence.favours_byValue
    intro strictness hstrategy f hf g hg
    exact FunctionSignature.isExact_overlap
      (htokens strictness hstrategy f (List.mem_append_left _ hf))
      (htokens strictness hstrategy g (List.mem_append_right _ hg))

def turned : Signature := ⟨[{ name := "c", index := 0, statementTokens := ["A", "A", "B"] }], []⟩

/-- The function without tokens does not count, and the other one is known. -/
theorem score_gauges_turned :
    (∀ f ∈ descending.functions ++ turned.functions, f.statementTokens.length < 2 ^ 52) ∧
      (score (functionTokens .strict) descending turned).num =
        (score (functionTokens .strict) descending turned).den := by
  have htokens : ∀ f ∈ descending.functions ++ turned.functions,
      f.statementTokens.length < 2 ^ 52 := by decide
  have hfull : FunctionsFull .strict descending turned := by
    unfold FunctionsFull
    decide
  have hgauges := (score_gauges (functionTokens .strict) descending turned).2.2 fun _ _ => htokens
  exact ⟨htokens, hgauges.num_eq_den_iff.2 hfull⟩

end Strategy

end Fingerprint
