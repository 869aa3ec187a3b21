import Fingerprint.Proofs.Matching.Alignment
/-!
# Full overlaps

A confidence is full if its two counts are the same.  Compared with itself, a signature gets a full
confidence unless there is nothing to compare: among the candidates of a function with tokens there
is the function itself, and an order that puts full confidences above all others finds a full one.
-/

namespace Fingerprint

namespace Confidence

structure IsProper (c : Confidence) : Prop where
  num_le : c.num ≤ c.den
  den_pos : 0 < c.den
  val_eq : c.val = .ofNat c.num / .ofNat c.den

theorem isProper_ofCounts {num den : Nat} (hle : num ≤ den) : (ofCounts num den).IsProper := by
  rw [ofCounts]
  split
  · exact ⟨Nat.zero_le 1, Nat.one_pos, (Double.ofNat_zero_div Nat.one_pos).symm⟩
  · exact ⟨hle, Nat.pos_of_ne_zero ‹_›, rfl⟩

def IsFull (c : Confidence) : Prop := c.num = c.den

theorem IsProper.num_pos {c : Confidence} (hc : c.IsProper) (hfull : c.IsFull) : 0 < c.num :=
  hc.den_pos.trans_eq hfull.symm

theorem isFull_ofCounts {n : Nat} (h : 0 < (ofCounts n n).num) : (ofCounts n n).IsFull := by
  rw [ofCounts] at h ⊢
  split at h
  · exact absurd h (Nat.lt_irrefl 0)
  · rename_i hn
    rw [if_neg hn]
    rfl

/-- Among the confidences with a property an order puts those with another one above the rest. -/
structure Favours (order : Confidence → Confidence → Ordering) (p q : Confidence → Prop) :
    Prop where
  above : ∀ c d, p c → p d → q c → ¬q d → order c d = .gt
  below : ∀ c d, p c → p d → ¬q c → q d → order c d = .lt

/-- Among the confidences with a property an order puts the full ones on top, all at one place. -/
structure TellsFull (order : Confidence → Confidence → Ordering) (p : Confidence → Prop) :
    Prop where
  above : ∀ c d, p c → p d → c.IsFull → ¬d.IsFull → order c d = .gt
  below : ∀ c d, p c → p d → ¬c.IsFull → d.IsFull → order c d = .lt
  alike : ∀ c d, p c → p d → c.IsFull → d.IsFull → order c d = .eq

theorem TellsFull.favours {order : Confidence → Confidence → Ordering} {p : Confidence → Prop}
    (h : TellsFull order p) : Favours order p IsFull := ⟨h.above, h.below⟩

theorem ratio_eq_one {c : Confidence} (hc : c.IsProper) (hfull : c.IsFull) : c.ratio = 1 := by
  have hden : (c.den : ℚ) ≠ 0 := by exact_mod_cast hc.den_pos.ne'
  rw [ratio, hfull, div_self hden]

theorem ratio_lt_one {c : Confidence} (hc : c.IsProper) (hfull : ¬c.IsFull) : c.ratio < 1 := by
  have hden : (0 : ℚ) < c.den := by exact_mod_cast hc.den_pos
  rw [ratio, div_lt_one hden]
  exact_mod_cast lt_of_le_of_ne hc.num_le hfull

theorem tellsFull_byRatio : TellsFull byRatio IsProper where
  above c d hc hd hfull hnot := by
    rw [byRatio, compare_gt_iff_gt, ratio_eq_one hc hfull]
    exact ratio_lt_one hd hnot
  below c d hc hd hnot hfull := by
    rw [byRatio, compare_lt_iff_lt, ratio_eq_one hd hfull]
    exact ratio_lt_one hc hnot
  alike c d hc hd hfull hfull' := by
    rw [byRatio, compare_eq_iff_eq, ratio_eq_one hc hfull, ratio_eq_one hd hfull']

/-- Confidences whose counts are values without rounding. -/
def IsExact (c : Confidence) : Prop := c.IsProper ∧ c.den < 2 ^ 53

theorem IsExact.val_eq_ofRatio {c : Confidence} (hc : c.IsExact) :
    c.val = .ofRatio false c.num c.den := by
  obtain ⟨hproper, hden⟩ := hc
  rw [hproper.val_eq]
  exact Double.ofNat_div_ofNat (hproper.num_le.trans_lt hden) hden hproper.den_pos

theorem IsExact.val_eq_one {c : Confidence} (hc : c.IsExact) (hfull : c.IsFull) :
    c.val = .ofRatio false 1 1 := by
  rw [hc.val_eq_ofRatio, hfull]
  exact Double.ofRatio_congr false hc.1.den_pos Nat.one_pos (by omega)

theorem IsExact.key_lt_one {c : Confidence} (hc : c.IsExact) (hfull : ¬c.IsFull) :
    c.val.key < (Double.ofRatio false 1 1).key := by
  rw [hc.val_eq_ofRatio]
  exact Double.key_ofRatio_lt_one (lt_of_le_of_ne hc.1.num_le hfull) hc.2

theorem byValue_eq (a b : Confidence) : byValue a b = Ord.compare a.val.key b.val.key := rfl

theorem tellsFull_byValue : TellsFull byValue IsExact where
  above c d hc hd hfull hnot := by
    rw [byValue_eq, hc.val_eq_one hfull, compare_gt_iff_gt]
    exact hd.key_lt_one hnot
  below c d hc hd hnot hfull := by
    rw [byValue_eq, hd.val_eq_one hfull, compare_lt_iff_lt]
    exact hc.key_lt_one hnot
  alike c d hc hd hfull hfull' := by
    rw [byValue_eq, hc.val_eq_one hfull, hd.val_eq_one hfull', compare_eq_iff_eq]

end Confidence

/-! ## The best candidate -/

namespace Candidate

variable {order : Confidence → Confidence → Ordering} {p q : Confidence → Prop}

theorem better_favoured (horder : Confidence.Favours order p q) {best c : Candidate}
    (hbest : p best.confidence) (hc : p c.confidence)
    (hq : q best.confidence ∨ q c.confidence) : q (better order best c).confidence := by
  by_cases hqC : q c.confidence
  · by_cases hqBest : q best.confidence
    · rcases better_mem order best c with h | h <;> rw [h] <;> assumption
    · rw [better, beats, horder.above _ _ hc hbest hqC hqBest]
      exact hqC
  · have hqBest := hq.resolve_right hqC
    rw [better, beats, horder.below _ _ hc hbest hqC hqBest]
    exact hqBest

theorem foldl_better_favoured (horder : Confidence.Favours order p q)
    (candidates : List Candidate) (best : Candidate)
    (hp : ∀ c ∈ best :: candidates, p c.confidence)
    (hq : ∃ c ∈ best :: candidates, q c.confidence) :
    q (candidates.foldl (better order) best).confidence := by
  induction candidates generalizing best with
  | nil =>
    obtain ⟨c, hc, hq⟩ := hq
    rwa [← List.mem_singleton.1 hc]
  | cons d rest ih =>
    have hbest := hp best List.mem_cons_self
    have hd := hp d (List.mem_cons_of_mem _ List.mem_cons_self)
    have hrest : ∀ c ∈ rest, p c.confidence :=
      fun c hc => hp c (List.mem_cons_of_mem _ (List.mem_cons_of_mem _ hc))
    rw [List.foldl_cons]
    apply ih
    · refine List.forall_mem_cons.2 ⟨?_, hrest⟩
      rcases better_mem order best d with h | h <;> rw [h] <;> assumption
    · obtain ⟨c, hc, hq⟩ := hq
      rcases List.mem_cons.1 hc with rfl | hc
      · exact ⟨_, List.mem_cons_self, better_favoured horder hbest hd (.inl hq)⟩
      · rcases List.mem_cons.1 hc with rfl | hc
        · exact ⟨_, List.mem_cons_self, better_favoured horder hbest hd (.inr hq)⟩
        · exact ⟨c, List.mem_cons_of_mem _ hc, hq⟩

theorem match?_favoured (horder : Confidence.Favours order p q) {candidates : List Candidate}
    (hp : ∀ c ∈ candidates, p c.confidence)
    (hnum : ∀ c ∈ candidates, q c.confidence → 0 < c.confidence.num)
    (hq : ∃ c ∈ candidates, q c.confidence) :
    ∃ b, match? order candidates = some b ∧ q b.confidence := by
  cases candidates with
  | nil =>
    obtain ⟨c, hc, -⟩ := hq
    cases hc
  | cons c rest =>
    have hbest := foldl_better_favoured horder rest c hp hq
    have hpos := hnum _ (foldl_better_mem order rest c) hbest
    rw [match?, best?_cons, Option.filter_some, if_pos (decide_eq_true hpos)]
    exact ⟨_, rfl, hbest⟩

end Candidate

/-! ## A signature aligned with itself -/

namespace FunctionSignature

theorem isProper_overlap (strictness : Strictness) (f g : FunctionSignature) :
    (f.overlap strictness g).IsProper :=
  Confidence.isProper_ofCounts (Strictness.card_inter_le_card_union _ _)

theorem isExact_overlap {strictness : Strictness} {f g : FunctionSignature}
    (hf : f.statementTokens.length < 2 ^ 52) (hg : g.statementTokens.length < 2 ^ 52) :
    (f.overlap strictness g).IsExact := by
  refine ⟨f.isProper_overlap strictness g, ?_⟩
  have hunion := strictness.card_union_le f.statementTokens g.statementTokens
  rw [overlap, Confidence.ofCounts]
  split
  · exact Nat.one_lt_two_pow (by omega)
  · change (_ ∪ _ : Multiset String).card < _
    omega

theorem isFull_overlap_self {strictness : Strictness} {f : FunctionSignature}
    (h : 0 < Alignment.size strictness f) : (f.overlap strictness f).IsFull := by
  rw [overlap, ← Multiset.inf_eq_inter, ← Multiset.sup_eq_union, inf_idem, sup_idem]
  apply Confidence.isFull_ofCounts
  rwa [Confidence.ofCounts_num le_rfl]

end FunctionSignature

namespace Alignment

variable {order : Confidence → Confidence → Ordering} {p : Confidence → Prop}
variable {strictness : Strictness} {s : Signature}

theorem exists_matchOf?_isFull (horder : Confidence.Favours order p Confidence.IsFull)
    {f g : FunctionSignature} (hp : ∀ g ∈ s.functions, p (f.overlap strictness g))
    (hg : g ∈ s.functions) (hfull : (f.overlap strictness g).IsFull) :
    ∃ m, matchOf? order strictness s f = some m ∧ m.prob.IsFull := by
  have hmatch : ∃ b, Candidate.match? order (candidates strictness s f) = some b ∧
      b.confidence.IsFull := by
    refine Candidate.match?_favoured horder (List.forall_mem_map.2 hp) ?_
      ⟨_, List.mem_map_of_mem hg, hfull⟩
    rw [candidates, List.forall_mem_map]
    exact fun g' _ hfull' => (f.isProper_overlap strictness g').num_pos hfull'
  obtain ⟨b, hb, hfullB⟩ := hmatch
  exact ⟨⟨f.index, b.index, b.confidence⟩, by rw [matchOf?, hb]; rfl, hfullB⟩

/-- A function with tokens has a full match in its own signature, one without tokens has none. -/
theorem matchOf?_self (horder : Confidence.TellsFull order p)
    (hp : ∀ f ∈ s.functions, ∀ g ∈ s.functions, p (f.overlap strictness g))
    {f : FunctionSignature} (hf : f ∈ s.functions) :
    (∃ m, matchOf? order strictness s f = some m ∧ m.prob.IsFull) ∨
      matchOf? order strictness s f = none ∧ size strictness f = 0 := by
  rcases Nat.eq_zero_or_pos (size strictness f) with hsize | hsize
  · refine .inr ⟨Option.eq_none_iff_forall_ne_some.2 fun m hm => ?_, hsize⟩
    obtain ⟨g, -, -, hshares⟩ := exists_of_matchOf? order strictness s hm
    obtain ⟨t, ht, -⟩ := FunctionSignature.sharesToken_iff.1 hshares
    rw [size, Multiset.card_eq_zero] at hsize
    exact Multiset.notMem_zero t (hsize ▸ Strictness.mem_tokenBag.2 ht)
  · left
    exact exists_matchOf?_isFull horder.favours (hp f hf) hf
      (FunctionSignature.isFull_overlap_self hsize)

theorem ofSignatures_self (horder : Confidence.TellsFull order p)
    (hp : ∀ f ∈ s.functions, ∀ g ∈ s.functions, p (f.overlap strictness g)) :
    (ofSignatures order strictness s s).num = (ofSignatures order strictness s s).den := by
  refine List.foldlRecOn (motive := fun total : Alignment => total.num = total.den) s.functions _
    rfl ?_
  intro total htotal f hf
  rw [add_eq]
  rcases matchOf?_self horder hp hf with ⟨m, hm, hfull⟩ | ⟨hm, hsize⟩
  · rw [hm]
    exact congrArg₂ (· + ·) htotal hfull
  · rw [hm, hsize]
    exact htotal

theorem ofSignatures_num_le (order : Confidence → Confidence → Ordering) (strictness : Strictness)
    (unknown library : Signature) :
    (ofSignatures order strictness unknown library).num ≤
      (ofSignatures order strictness unknown library).den := by
  refine List.foldlRecOn (motive := fun total : Alignment => total.num ≤ total.den)
    unknown.functions _ le_rfl ?_
  intro total htotal f _
  rw [add_eq]
  cases hm : matchOf? order strictness library f with
  | none => exact htotal.trans (Nat.le_add_right _ _)
  | some m =>
    obtain ⟨g, -, rfl, -⟩ := exists_of_matchOf? order strictness library hm
    exact Nat.add_le_add htotal (f.isProper_overlap strictness g).num_le

end Alignment

/-! ## Overlaps of sets -/

theorem Ascending.shared_le {α : Type} [BEq α] (lt : α → α → Bool) :
    ∀ a b : List α, shared lt a b ≤ a.length ∧ shared lt a b ≤ b.length := by
  intro a
  induction a with
  | nil => exact fun b => ⟨Nat.le_refl 0, Nat.zero_le _⟩
  | cons x rest ih =>
    intro b
    have hdrop := (List.dropWhile_sublist (fun y => lt y x) (l := b)).length_le
    rw [shared, List.length_cons]
    cases hcase : b.dropWhile fun y => lt y x with
    | nil => exact ⟨Nat.zero_le _, Nat.zero_le _⟩
    | cons y later =>
      rw [hcase, List.length_cons] at hdrop
      have hlater := ih later
      have hall := ih (y :: later)
      rw [List.length_cons] at hall
      dsimp only
      split <;> omega

namespace Overlap

theorem isProper_confidence {α : Type} [BEq α] (measure : Overlap) (lt : α → α → Bool)
    (unknown library : List α) : (measure.confidence lt unknown library).IsProper := by
  obtain ⟨hunknown, hlibrary⟩ := Ascending.shared_le lt unknown library
  cases measure with
  | jaccard => exact Confidence.isProper_ofCounts (by omega)
  | coverage => exact Confidence.isProper_ofCounts hunknown

theorem confidence_self {α : Type} [BEq α] (measure : Overlap) {lt : α → α → Bool} {a : List α}
    (h : overlapCounts lt a a = (a.length, a.length)) :
    measure.confidence lt a a = .ofCounts a.length a.length := by
  rw [confidence, h]
  cases measure <;> rfl

end Overlap

theorem overlapCounts_textSet_self (texts : List String) :
    overlapCounts textLt (textSet texts) (textSet texts) =
      ((textSet texts).length, (textSet texts).length) := by
  have hbag := Strictness.loose.overlapCounts_bag texts texts
  rwa [← Multiset.inf_eq_inter, ← Multiset.sup_eq_union, inf_idem, sup_idem,
    ← Strictness.length_bag] at hbag

theorem Literal.overlapCounts_ascending_self (literals : List Literal) :
    overlapCounts lt (ascending literals) (ascending literals) =
      ((ascending literals).length, (ascending literals).length) := by
  rw [overlapCounts_ascending, Finset.inter_self, Finset.union_self, length_ascending]

/-! ## Comparisons -/

namespace Strategy

theorem isProper_compareBy (order : Confidence → Confidence → Ordering) (strategy : Strategy)
    (unknown library : Signature) :
    (strategy.compareBy order unknown library).confidence.IsProper := by
  cases strategy with
  | functionTokens strictness =>
    exact Confidence.isProper_ofCounts
      (Alignment.ofSignatures_num_le order strictness unknown library)
  | literals measure => exact measure.isProper_confidence _ _ _
  | functionNames measure => exact measure.isProper_confidence _ _ _
  | statementTypes measure => exact measure.isProper_confidence _ _ _

theorem compareBy_self {order : Confidence → Confidence → Ordering} {p : Confidence → Prop}
    (horder : Confidence.TellsFull order p) (strategy : Strategy) {s : Signature}
    (hp : ∀ strictness, ∀ f ∈ s.functions, ∀ g ∈ s.functions, p (f.overlap strictness g)) :
    ∃ n, (strategy.compareBy order s s).confidence = .ofCounts n n := by
  cases strategy with
  | functionTokens strictness =>
    refine ⟨(Alignment.ofSignatures order strictness s s).den, ?_⟩
    exact congrArg (Confidence.ofCounts · _) (Alignment.ofSignatures_self horder (hp strictness))
  | literals measure =>
    exact ⟨_, measure.confidence_self (Literal.overlapCounts_ascending_self s.literals)⟩
  | functionNames measure => exact ⟨_, measure.confidence_self (overlapCounts_textSet_self _)⟩
  | statementTypes measure => exact ⟨_, measure.confidence_self (overlapCounts_textSet_self _)⟩

theorem isFull_compareBy_self {order : Confidence → Confidence → Ordering}
    {p : Confidence → Prop} (horder : Confidence.TellsFull order p) (strategy : Strategy)
    {s : Signature}
    (hp : ∀ strictness, ∀ f ∈ s.functions, ∀ g ∈ s.functions, p (f.overlap strictness g))
    (hnum : 0 < (strategy.compareBy order s s).confidence.num) :
    (strategy.compareBy order s s).confidence.IsFull := by
  obtain ⟨n, hn⟩ := compareBy_self horder strategy hp
  rw [hn] at hnum ⊢
  exact Confidence.isFull_ofCounts hnum

end Strategy

end Fingerprint
