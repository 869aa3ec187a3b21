import Mathlib.Data.Finset.Dedup
import Mathlib.Data.Finset.Lattice.Basic
import Mathlib.Data.Multiset.UnionInter
import Mathlib.Data.String.Basic
import Mathlib.Tactic.Common
import Fingerprint.Ascending
/-!
# Ascending lists as sets and bags

An ascending list stands for the bag of its elements, and for a set once repetitions are dropped.
Counting shared elements is then the size of an intersection.  The last section is about sorting in
general: elements that are told apart by the order are sorted in one way only, and a stable sort of
some of the elements is that part of the sort of all.
-/

namespace Fingerprint.Ascending

theorem dropRepeats_eq_ite {β : Type} [BEq β] (a : β) (items : List β) :
    dropRepeats (a :: items) =
      if (dropRepeats items).head?.any (a == ·) then dropRepeats items
      else a :: dropRepeats items := by
  cases hkept : dropRepeats items
  all_goals
    rw [dropRepeats] at hkept
    rw [dropRepeats, List.foldr_cons, hkept]
    rfl

theorem dropRepeats_sublist {β : Type} [BEq β] (items : List β) :
    (dropRepeats items).Sublist items := by
  induction items with
  | nil => exact .slnil
  | cons a rest ih =>
    rw [dropRepeats_eq_ite]
    split
    · exact ih.cons a
    · exact ih.cons_cons a

variable {α : Type} [LinearOrder α] [BEq α] [LawfulBEq α]

/-! ## Repetitions -/

theorem dropRepeats_cons (a : α) (items : List α) :
    dropRepeats (a :: items) =
      if (dropRepeats items).head? = some a then dropRepeats items else a :: dropRepeats items := by
  rw [dropRepeats_eq_ite]
  cases (dropRepeats items).head? with
  | none => rfl
  | some b =>
    by_cases h : a = b
    · simp [h]
    · simp [h, Ne.symm h]

@[simp] theorem mem_dropRepeats {x : α} {items : List α} : x ∈ dropRepeats items ↔ x ∈ items := by
  induction items with
  | nil => rfl
  | cons a rest ih =>
    rw [dropRepeats_cons]
    split
    · rename_i hhead
      have ha : a ∈ dropRepeats rest := List.mem_of_head? hhead
      constructor
      · exact fun hx => List.mem_cons_of_mem _ (ih.1 hx)
      · intro hx
        rcases List.mem_cons.1 hx with rfl | hx
        · exact ha
        · exact ih.2 hx
    · simp [ih]

theorem pairwise_lt_dropRepeats {items : List α} (h : items.Pairwise (· ≤ ·)) :
    (dropRepeats items).Pairwise (· < ·) := by
  induction items with
  | nil => exact .nil
  | cons a rest ih =>
    rw [List.pairwise_cons] at h
    have hrest := ih h.2
    rw [dropRepeats_cons]
    split
    · exact hrest
    · rename_i hhead
      refine List.pairwise_cons.2 ⟨fun x hx => ?_, hrest⟩
      -- The least of the rest differs from `a`, so all of it lies above `a`.
      cases hkept : dropRepeats rest with
      | nil => simp [hkept] at hx
      | cons b later =>
        rw [hkept] at hhead hx hrest
        have hab : a < b := by
          have hb : b ∈ rest := mem_dropRepeats.1 (by simp [hkept])
          refine lt_of_le_of_ne (h.1 b hb) ?_
          rintro rfl
          exact hhead rfl
        rcases List.mem_cons.1 hx with rfl | hx
        · exact hab
        · exact hab.trans (List.rel_of_pairwise_cons hrest hx)

theorem nodup_dropRepeats {items : List α} (h : items.Pairwise (· ≤ ·)) :
    (dropRepeats items).Nodup :=
  (pairwise_lt_dropRepeats h).imp fun hab => ne_of_lt hab

theorem coe_dropRepeats {items : List α} (h : items.Pairwise (· ≤ ·)) :
    (dropRepeats items : Multiset α) = items.toFinset.val := by
  rw [List.toFinset_val, Multiset.coe_eq_coe,
    List.perm_ext_iff_of_nodup (nodup_dropRepeats h) items.nodup_dedup]
  intro x
  rw [mem_dropRepeats, List.mem_dedup]

/-! ## Shared elements -/

omit [BEq α] [LawfulBEq α] in
/-- Elements below all of `b` do not count for the intersection with `b`. -/
theorem inter_dropWhile_lt (a : α) {b others : List α} (hb : ∀ x ∈ b, a ≤ x) :
    (b : Multiset α) ∩ (others.dropWhile fun x => decide (x < a) : List α) =
      (b : Multiset α) ∩ (others : Multiset α) := by
  induction others with
  | nil => rfl
  | cons c rest ih =>
    rw [List.dropWhile_cons]
    split
    · rename_i hc
      have hlt : c < a := by simpa using hc
      rw [ih, ← Multiset.cons_coe, Multiset.inter_comm, Multiset.inter_comm (b : Multiset α),
        Multiset.cons_inter_of_neg]
      exact fun hmem => not_lt_of_ge (hb c hmem) hlt
    · rfl

/-- The count of shared elements is the size of the intersection of the bags. -/
theorem shared_eq_card_inter {lt : α → α → Bool} (hlt : ∀ x y, lt x y = decide (x < y)) :
    ∀ {a b : List α}, a.Pairwise (· ≤ ·) → b.Pairwise (· ≤ ·) →
      shared lt a b = ((a : Multiset α) ∩ (b : Multiset α)).card := by
  intro a
  induction a with
  | nil => intro b _ _; simp [shared]
  | cons x rest ih =>
    intro b ha hb
    rw [List.pairwise_cons] at ha
    have hle : ∀ y ∈ x :: rest, x ≤ y := by
      intro y hy
      rcases List.mem_cons.1 hy with rfl | hy
      · exact le_rfl
      · exact ha.1 y hy
    have hlt' : (lt · x) = fun y => decide (y < x) := funext fun y => hlt y x
    rw [shared, hlt', ← inter_dropWhile_lt x hle]
    have hsub : (b.dropWhile fun y => decide (y < x)).Pairwise (· ≤ ·) :=
      hb.sublist (List.dropWhile_sublist _)
    cases hdrop : b.dropWhile fun y => decide (y < x) with
    | nil => simp
    | cons c later =>
      rw [hdrop] at hsub
      have hc : x ≤ c := by
        have hhead := List.head?_dropWhile_not (fun y => decide (y < x)) b
        rw [hdrop] at hhead
        simpa using hhead
      simp only
      by_cases hcx : c = x
      · subst hcx
        rw [if_pos (by simp), ih ha.2 (List.pairwise_cons.1 hsub).2, ← Multiset.cons_coe,
          ← Multiset.cons_coe, Multiset.cons_inter_of_pos _ (Multiset.mem_cons_self _ _),
          Multiset.card_cons, Multiset.erase_cons_head]
      · rw [if_neg (by simpa using hcx), ih ha.2 hsub, ← Multiset.cons_coe x,
          Multiset.cons_inter_of_neg]
        intro hmem
        have hxc : x ∈ c :: later := hmem
        rcases List.mem_cons.1 hxc with rfl | hmem
        · exact hcx rfl
        · exact hcx (le_antisymm (List.rel_of_pairwise_cons hsub hmem) hc)

/-! ## Other elements

What depends on elements only by their order and equality is kept by a change of elements. -/

section Map

variable {β γ : Type} [BEq β] [BEq γ] {f : β → γ}

theorem map_dropRepeats (hbeq : ∀ x y : β, (x == y) = (f x == f y)) (items : List β) :
    (dropRepeats items).map f = dropRepeats (items.map f) := by
  induction items with
  | nil => rfl
  | cons a rest ih =>
    rw [List.map_cons, dropRepeats_eq_ite, dropRepeats_eq_ite, ← ih, List.head?_map, Option.any_map]
    simp only [← hbeq]
    split <;> rfl

theorem shared_map {lt : β → β → Bool} {lt' : γ → γ → Bool}
    (hlt : ∀ x y, lt x y = lt' (f x) (f y)) (hbeq : ∀ x y : β, (x == y) = (f x == f y)) :
    ∀ a b : List β, shared lt a b = shared lt' (a.map f) (b.map f) := by
  intro a
  induction a with
  | nil => intro b; rfl
  | cons x rest ih =>
    intro b
    have hdrop : (b.map f).dropWhile (lt' · (f x)) = (b.dropWhile (lt · x)).map f := by
      rw [List.dropWhile_map]
      congr 2
      funext y
      exact (hlt y x).symm
    rw [List.map_cons, shared, shared, hdrop]
    cases b.dropWhile (lt · x) with
    | nil => rfl
    | cons c later =>
      simp only [List.map_cons, hbeq c x]
      rw [ih, ih, List.map_cons]

end Map

/-! ## Sorting -/

section Sorting

variable {β : Type} {le : β → β → Bool}

/-- Elements that the order tells apart have one sorted list, in whatever order they come. -/
theorem mergeSort_eq_of_perm (trans : ∀ a b c : β, le a b → le b c → le a c)
    (total : ∀ a b : β, le a b || le b a) {items items' : List β} (hperm : items.Perm items')
    (antisymm : ∀ a ∈ items, ∀ b ∈ items, le a b → le b a → a = b) :
    items.mergeSort le = items'.mergeSort le := by
  have hsorted : (items.mergeSort le).Perm (items'.mergeSort le) :=
    (List.mergeSort_perm items le).trans (hperm.trans (List.mergeSort_perm items' le).symm)
  refine hsorted.eq_of_pairwise (fun a b ha hb => ?_) (List.pairwise_mergeSort trans total items)
    (List.pairwise_mergeSort trans total items')
  exact antisymm a (List.mem_mergeSort.1 ha) b (hperm.mem_iff.2 (List.mem_mergeSort.1 hb))

theorem append_inj_of_split {q : β → Bool} {a b a' b' : List β} (h : a ++ b = a' ++ b')
    (ha : ∀ x ∈ a, q x = true) (ha' : ∀ x ∈ a', q x = true)
    (hb : ∀ x ∈ b, q x = false) (hb' : ∀ x ∈ b', q x = false) : a = a' ∧ b = b' := by
  have htake : ∀ {u v : List β}, (∀ x ∈ u, q x = true) → (∀ x ∈ v, q x = false) →
      (u ++ v).filter q = u := by
    intro u v hu hv
    rw [List.filter_append, List.filter_eq_self.2 hu,
      List.filter_eq_nil_iff.2 fun x hx => by simp [hv x hx], List.append_nil]
  have haa : a = a' := by rw [← htake ha hb, h, htake ha' hb']
  subst haa
  exact ⟨rfl, List.append_cancel_left h⟩

/-- Sorting is stable: some of the sorted elements are the sorted list of these elements. -/
theorem filter_mergeSort (trans : ∀ a b c : β, le a b → le b c → le a c)
    (total : ∀ a b : β, le a b || le b a) (p : β → Bool) (items : List β) :
    (items.mergeSort le).filter p = (items.filter p).mergeSort le := by
  induction items with
  | nil => simp
  | cons a rest ih =>
    obtain ⟨before, after, hall, hrest, hbefore⟩ := List.mergeSort_cons trans total a rest
    have hafter : ∀ x ∈ after, le a x = true := by
      have hsorted := List.pairwise_mergeSort trans total (a :: rest)
      rw [hall] at hsorted
      intro x hx
      exact List.rel_of_pairwise_cons (List.pairwise_append.1 hsorted).2.1 hx
    rw [hall, List.filter_append, List.filter_cons, List.filter_cons]
    rw [hrest, List.filter_append] at ih
    by_cases hp : p a = true
    · rw [if_pos hp, if_pos hp]
      obtain ⟨before', after', hall', hrest', hbefore'⟩ :=
        List.mergeSort_cons trans total a (rest.filter p)
      have hafter' : ∀ x ∈ after', le a x = true := by
        have hsorted := List.pairwise_mergeSort trans total (a :: rest.filter p)
        rw [hall'] at hsorted
        intro x hx
        exact List.rel_of_pairwise_cons (List.pairwise_append.1 hsorted).2.1 hx
      have hsplit : before.filter p = before' ∧ after.filter p = after' :=
        append_inj_of_split (ih.trans hrest')
          (fun x hx => hbefore x (List.mem_of_mem_filter hx)) hbefore'
          (fun x hx => by simp [hafter x (List.mem_of_mem_filter hx)])
          (fun x hx => by simp [hafter' x hx])
      rw [hall', hsplit.1, hsplit.2]
    · rw [if_neg hp, if_neg hp, ← ih]

end Sorting

end Fingerprint.Ascending
