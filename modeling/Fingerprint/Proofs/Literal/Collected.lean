import Fingerprint.Literal.Collected
import Fingerprint.Proofs.Literal.Order
import Fingerprint.Proofs.Tree.Nodes
/-!
# Collected literals

Whatever is below a root, the numbers among its literals are finite and none of the common ones.
Such literals are told apart by their order, so it does not matter in which order they were found.
-/

namespace Fingerprint

theorem Double.isFinite_neg (x : Double) : (-x).isFinite = x.isFinite := by
  cases x <;> rfl

namespace Literal

def isFinite : Literal → Bool
  | number x => x.isFinite
  | text _ => true

/-- What is collected: texts, and finite numbers other than the common ones. -/
def isKept : Literal → Bool
  | number x => x.isFinite && !isCommon x
  | text _ => true

theorem isFinite_of_isKept {l : Literal} (h : l.isKept = true) : l.isFinite = true := by
  cases l with
  | number x =>
    rw [isKept, Bool.and_eq_true] at h
    exact h.1
  | text s => rfl

theorem isKept_of_mem_ofNumeral (negated : Bool) (text : String) :
    ∀ l ∈ (ofNumeral negated text).data, l.isKept = true := by
  intro l hl
  rw [ofNumeral] at hl
  cases hvalue : Numeral.value? text with
  | some value =>
    have hfinite : value.isFinite = true := by
      rw [Numeral.value?] at hvalue
      split at hvalue
      · cases hvalue
      · exact (Option.filter_eq_some_iff.1 hvalue).2
    have hsigned : (if negated then -value else value).isFinite = true := by
      split
      · rw [Double.isFinite_neg]
        exact hfinite
      · exact hfinite
    rw [hvalue] at hl
    simp only at hl
    generalize (if negated = true then -value else value) = signed at hl hsigned
    split at hl
    · cases hl
    · rename_i hcommon
      cases hl
      rw [isKept, hsigned]
      simpa using hcommon
  | none =>
    rw [hvalue] at hl
    simp only at hl
    split at hl <;> cases hl
    rfl

theorem isKept_of_mem_ofText (content : String) :
    ∀ l ∈ (ofText content).data, l.isKept = true := by
  intro l hl
  rw [ofText] at hl
  split at hl <;> cases hl
  rfl

/-- No zero is kept, so a kept literal is known by its place in the order. -/
theorem eq_of_sortKey_eq {a b : Literal} (ha : a.isKept = true) (h : a.sortKey = b.sortKey) :
    a = b := by
  cases a with
  | number x =>
    cases b with
    | number y =>
      have hkey : x.key = y.key := congrArg (fun k => (ofLex (ofLex k).2).2) h
      rw [isKept, Bool.and_eq_true, Bool.not_eq_true'] at ha
      rcases Double.eq_or_zeros_of_key_eq hkey with rfl | ⟨negative, -, bounded, -, rfl, -⟩
      · rfl
      · have hzero : (Double.ranked negative 0 bounded).key = (Double.ofInt 0).key := by
          have hkeys : (Double.ofInt 0).key = 0 := by decide +kernel
          rw [hkeys]
          cases negative <;> rfl
        have hcommon : isCommon (Double.ranked negative 0 bounded) = true := by
          rw [isCommon, List.contains_iff_exists_mem_beq]
          refine ⟨Double.ofInt 0, List.mem_map_of_mem (by decide), ?_⟩
          rw [Double.beq_eq_decide_key, decide_eq_true_iff, hzero]
        rw [hcommon] at ha
        exact absurd ha.2 (by decide)
    | text t => simp [sortKey] at h
  | text s =>
    cases b with
    | number y => simp [sortKey] at h
    | text t => simpa [sortKey] using h

theorem ascending_eq_of_perm {found found' : List Literal} (hperm : found.Perm found')
    (hkept : ∀ l ∈ found, l.isKept = true) : ascending found = ascending found' := by
  rw [ascending, ascending, Ascending.mergeSort_eq_of_perm ?_ ?_ hperm ?_]
  · intro a b c
    simpa [le_eq] using le_trans
  · intro a b
    simpa [le_eq] using le_total a.sortKey b.sortKey
  · intro a ha b _ hab hba
    rw [le_eq, decide_eq_true_iff] at hab hba
    exact eq_of_sortKey_eq (hkept a ha) (le_antisymm hab hba)

theorem mem_of_mem_ascending {found : List Literal} {l : Literal} (h : l ∈ ascending found) :
    l ∈ found :=
  List.mem_mergeSort.1 ((Ascending.dropRepeats_sublist _).subset h)

theorem mem_ascending {found : List Literal} (hkept : ∀ l ∈ found, l.isKept = true) {l : Literal} :
    l ∈ ascending found ↔ l ∈ found := by
  constructor
  · exact mem_of_mem_ascending
  · intro hl
    have hkey : l.sortKey ∈ (ascending found).map sortKey := by
      rw [← Multiset.mem_coe, (pairwise_map_sortKey_ascending found).2]
      exact List.mem_toFinset.2 (List.mem_map_of_mem hl)
    obtain ⟨l', hl', heq⟩ := List.mem_map.1 hkey
    rwa [← eq_of_sortKey_eq (hkept l' (mem_of_mem_ascending hl')) heq]

end Literal

theorem Node.child?_of_negatedNumber? {n number : Node} (h : n.negatedNumber? = some number) :
    n.child? "argument" = some number ∧ number.kind = "number" := by
  rw [negatedNumber?] at h
  split at h
  · rw [Option.filter_eq_some_iff, beq_iff_eq] at h
    exact h
  · cases h

theorem Node.isKept_of_mem_literal {n : Node} {signal : Signal Literal}
    (h : n.literal = .ok signal) : ∀ l ∈ signal.data, l.isKept = true := by
  rw [literal] at h
  split at h
  · obtain ⟨content, -, rfl⟩ := map_eq_ok.1 h
    exact Literal.isKept_of_mem_ofText content
  · cases h
    exact Literal.isKept_of_mem_ofNumeral false n.text
  · cases h
    rintro _ ⟨⟩
    rfl
  · cases h
    exact Literal.isKept_of_mem_ofText n.templateText
  iterate 4
    · cases h
      rintro _ ⟨⟩
  · split at h
    · cases h
      exact Literal.isKept_of_mem_ofNumeral true _
    · cases h
      rintro _ ⟨⟩

namespace Site

theorem isKept_of_mem_literal {s : Site} {signal : Signal Literal} (h : s.literal = .ok signal) :
    ∀ l ∈ signal.data, l.isKept = true := by
  rw [literal] at h
  split at h
  · cases h
    rintro _ ⟨⟩
  · exact Node.isKept_of_mem_literal h

theorem isKept_of_mem_walk {root : Site} {found : List (Entry Literal)}
    (h : (root.walk fun _ s => s.literal) = .ok found) :
    ∀ l ∈ Entry.toListAll found, l.isKept = true :=
  forall_mem_walk (fun _ _ _ hsignal => isKept_of_mem_literal hsignal) h

/-- **The literals of a source unit are finite.** -/
theorem isFinite_of_mem_literals {root : Site} {literals : List Literal}
    (h : root.literals = .ok literals) : ∀ l ∈ literals, l.isFinite = true := by
  rw [Site.literals, map_eq_ok] at h
  obtain ⟨found, hfound, rfl⟩ := h
  intro l hl
  exact Literal.isFinite_of_isKept (isKept_of_mem_walk hfound l (Literal.mem_of_mem_ascending hl))

theorem exists_literals_of_walk {root : Site} {found : List (Entry Literal)}
    (h : (root.walk fun _ s => s.literal).toOption = some found) :
    ∃ literals, root.literals = .ok literals ∧ ∀ l, l ∈ literals ↔ l ∈ Entry.toListAll found := by
  have hwalk := toOption_eq_some.1 h
  exact ⟨_, map_eq_ok.2 ⟨found, hwalk, rfl⟩,
    fun l => Literal.mem_ascending (isKept_of_mem_walk hwalk)⟩

theorem exists_literals_of_found {root : Site} {l : Literal}
    (h : ((root.walk fun _ s => s.literal).toOption.any fun found =>
      (Entry.toListAll found).any fun m => decide (m = l)) = true) :
    ∃ literals, root.literals = .ok literals ∧ l ∈ literals := by
  rw [Option.any_eq_true] at h
  obtain ⟨found, hfound, hany⟩ := h
  obtain ⟨m, hm, heq⟩ := List.any_eq_true.1 hany
  obtain ⟨literals, hliterals, hmem⟩ := exists_literals_of_walk hfound
  exact ⟨literals, hliterals, (hmem l).2 (of_decide_eq_true heq ▸ hm)⟩

end Site

end Fingerprint
