import Mathlib.Data.List.Forall2
import Mathlib.Data.List.Perm.Basic
import Mathlib.Tactic.Common
/-!
# Lists and options that correspond

Two lists correspond if their elements do one by one, or if they do once one of the lists is put in
another order.  Whether the order is free is a parameter, so that one proof serves both.
-/

namespace Fingerprint

variable {α β γ δ : Type} {r : α → β → Prop}

/-! ## One by one -/

theorem forall₂_filter {p : α → Bool} {q : β → Bool} (hpq : ∀ a b, r a b → p a = q b) {as : List α}
    {bs : List β} (h : List.Forall₂ r as bs) :
    List.Forall₂ (fun a b => r a b ∧ p a = true) (as.filter p) (bs.filter q) := by
  induction h with
  | nil => exact .nil
  | @cons a b as bs hab _ ih =>
    rw [List.filter_cons, List.filter_cons, ← hpq a b hab]
    split
    · exact .cons ⟨hab, ‹_›⟩ ih
    · exact ih

theorem forall₂_takeWhile {p : α → Bool} {q : β → Bool} (hpq : ∀ a b, r a b → p a = q b)
    {as : List α} {bs : List β} (h : List.Forall₂ r as bs) :
    List.Forall₂ (fun a b => r a b ∧ p a = true) (as.takeWhile p) (bs.takeWhile q) := by
  induction h with
  | nil => exact .nil
  | @cons a b as bs hab _ ih =>
    rw [List.takeWhile_cons, List.takeWhile_cons, ← hpq a b hab]
    split
    · exact .cons ⟨hab, ‹_›⟩ ih
    · exact .nil

theorem map_eq_of_forall₂ {f : α → γ} {g : β → γ} (hfg : ∀ a b, r a b → f a = g b) {as : List α}
    {bs : List β} (h : List.Forall₂ r as bs) : as.map f = bs.map g := by
  induction h with
  | nil => rfl
  | @cons a b as bs hab _ ih => rw [List.map_cons, List.map_cons, hfg a b hab, ih]

theorem flatMap_eq_of_forall₂ {f : α → List γ} {g : β → List γ} (hfg : ∀ a b, r a b → f a = g b)
    {as : List α} {bs : List β} (h : List.Forall₂ r as bs) : as.flatMap f = bs.flatMap g := by
  rw [List.flatMap_def, List.flatMap_def, map_eq_of_forall₂ hfg h]

theorem flatMap_ite_nil {p : α → Bool} (f : α → List β) (items : List α) :
    (items.flatMap fun a => if p a then f a else []) = (items.filter p).flatMap f := by
  induction items with
  | nil => rfl
  | cons a rest ih =>
    rw [List.flatMap_cons, List.filter_cons, ih]
    split <;> rfl

theorem forall₂_map_same {s : γ → δ → Prop} {f : α → γ} {g : α → δ} {items : List α}
    (hfg : ∀ a ∈ items, s (f a) (g a)) : List.Forall₂ s (items.map f) (items.map g) := by
  rwa [List.forall₂_map_left_iff, List.forall₂_map_right_iff, List.forall₂_same]

theorem forall₂_flatMap_same {s : γ → δ → Prop} {f : α → List γ} {g : α → List δ}
    {items : List α} (hfg : ∀ a ∈ items, List.Forall₂ s (f a) (g a)) :
    List.Forall₂ s (items.flatMap f) (items.flatMap g) := by
  rw [List.flatMap_def, List.flatMap_def]
  exact List.rel_flatten (forall₂_map_same hfg)

theorem rel_head?_of_forall₂ {as : List α} {bs : List β} (h : List.Forall₂ r as bs) :
    Option.Rel r as.head? bs.head? := by
  cases h with
  | nil => exact .none
  | cons hab _ => exact .some hab

theorem rel_cases {a? : Option α} {b? : Option β} (h : Option.Rel r a? b?) :
    (a? = none ∧ b? = none) ∨ ∃ a b, a? = some a ∧ b? = some b ∧ r a b := by
  cases h with
  | none => exact .inl ⟨rfl, rfl⟩
  | some hab => exact .inr ⟨_, _, rfl, rfl, hab⟩

instance decidableOptionRel [∀ a b, Decidable (r a b)] :
    ∀ (a? : Option α) (b? : Option β), Decidable (Option.Rel r a? b?)
  | none, none => isTrue .none
  | none, some _ => isFalse (by rintro ⟨⟩)
  | some _, none => isFalse (by rintro ⟨⟩)
  | some a, some b => decidable_of_iff (r a b) ⟨.some, fun h => by cases h; assumption⟩

theorem rel_bind {s : γ → δ → Prop} {f : α → Option γ} {g : β → Option δ} {a? : Option α}
    {b? : Option β} (h : Option.Rel r a? b?) (hfg : ∀ a b, r a b → Option.Rel s (f a) (g b)) :
    Option.Rel s (a?.bind f) (b?.bind g) := by
  cases h with
  | none => exact .none
  | some hab => exact hfg _ _ hab

theorem rel_map {s : γ → δ → Prop} {f : α → γ} {g : β → δ} {a? : Option α} {b? : Option β}
    (h : Option.Rel r a? b?) (hfg : ∀ a b, r a b → s (f a) (g b)) :
    Option.Rel s (a?.map f) (b?.map g) := by
  cases h with
  | none => exact .none
  | some hab => exact .some (hfg _ _ hab)

theorem rel_refl {s : α → α → Prop} (hs : ∀ a, s a a) : ∀ a? : Option α, Option.Rel s a? a?
  | none => .none
  | some a => .some (hs a)

theorem rel_imp {s : α → β → Prop} (hrs : ∀ a b, r a b → s a b) {a? : Option α} {b? : Option β}
    (h : Option.Rel r a? b?) : Option.Rel s a? b? := by
  cases h with
  | none => exact .none
  | some hab => exact .some (hrs _ _ hab)

theorem map_eq_of_rel {f : α → γ} {g : β → γ} (hfg : ∀ a b, r a b → f a = g b) {a? : Option α}
    {b? : Option β} (h : Option.Rel r a? b?) : a?.map f = b?.map g := by
  cases h with
  | none => rfl
  | some hab => exact congrArg some (hfg _ _ hab)

theorem isSome_eq_of_rel {a? : Option α} {b? : Option β} (h : Option.Rel r a? b?) :
    a?.isSome = b?.isSome := by
  cases h <;> rfl

theorem forall₂_toList {a? : Option α} {b? : Option β} (h : Option.Rel r a? b?) :
    List.Forall₂ r a?.toList b?.toList := by
  cases h with
  | none => exact .nil
  | some hab => exact .cons hab .nil

theorem forall₂_mem {as : List α} {bs : List β} (h : List.Forall₂ r as bs) :
    List.Forall₂ (fun a b => a ∈ as ∧ b ∈ bs ∧ r a b) as bs := by
  have hright : List.Forall₂ (fun b a => b ∈ bs ∧ r a b) bs as :=
    (List.forall₂_and_left _ _).2 ⟨fun _ hb => hb, h.flip⟩
  exact (List.forall₂_and_left _ _).2 ⟨fun _ ha => ha, hright.flip⟩

theorem exists_of_mem_right {as : List α} {bs : List β} (h : List.Forall₂ r as bs) {b : β}
    (hb : b ∈ bs) : ∃ a ∈ as, r a b := by
  induction h with
  | nil => cases hb
  | @cons a c as bs hac _ ih =>
    rcases List.mem_cons.1 hb with rfl | hb
    · exact ⟨a, List.mem_cons_self .., hac⟩
    · obtain ⟨a', ha', hab⟩ := ih hb
      exact ⟨a', List.mem_cons_of_mem _ ha', hab⟩

theorem exists_pairs_of_forall₂ {as : List α} {bs : List β} (h : List.Forall₂ r as bs) :
    ∃ ps : List (α × β), as = ps.map Prod.fst ∧ bs = ps.map Prod.snd ∧ ∀ p ∈ ps, r p.1 p.2 := by
  induction h with
  | nil => exact ⟨[], rfl, rfl, List.forall_mem_nil _⟩
  | @cons a b as bs hab _ ih =>
    obtain ⟨ps, rfl, rfl, hps⟩ := ih
    exact ⟨(a, b) :: ps, rfl, rfl, List.forall_mem_cons.2 ⟨hab, hps⟩⟩

theorem forall₂_mergeSort {le : α → α → Bool} {le' : β → β → Bool}
    (hle : ∀ a b, r a b → ∀ c d, r c d → le a c = le' b d) {as : List α} {bs : List β}
    (h : List.Forall₂ r as bs) : List.Forall₂ r (as.mergeSort le) (bs.mergeSort le') := by
  -- The pairs are sorted, which sorts their first and their second halves alike.
  obtain ⟨ps, rfl, rfl, hps⟩ := exists_pairs_of_forall₂ h
  have hsame : ∀ p ∈ ps, ∀ q ∈ ps, le p.1 q.1 = le' p.2 q.2 :=
    fun p hp q hq => hle _ _ (hps p hp) _ _ (hps q hq)
  rw [← List.map_mergeSort (r := fun p q => le p.1 q.1) (fun p _ q _ => rfl),
    ← List.map_mergeSort (r := fun p q => le p.1 q.1) hsame, List.forall₂_map_left_iff,
    List.forall₂_map_right_iff, List.forall₂_same]
  intro p hp
  exact hps p (List.mem_mergeSort.1 hp)

theorem mem_of_lookup_eq_some {table : List (String × β)} {key : String} {value : β}
    (h : table.lookup key = some value) : (key, value) ∈ table := by
  obtain ⟨front, back, rfl, -⟩ := List.lookup_eq_some_iff.1 h
  simp

/-- A matching survives a rearrangement of its right side. -/
theorem exists_perm_forall₂ {left : List α} {right right' : List β}
    (h : List.Forall₂ r left right) (hperm : right.Perm right') :
    ∃ left', left'.Perm left ∧ List.Forall₂ r left' right' := by
  obtain ⟨left', hmatch, hleft⟩ := List.perm_comp_forall₂ hperm.symm h.flip
  exact ⟨left', hleft, hmatch.flip⟩

/-! ## In any order -/

/-- The same list, or the same in another order if the order is free. -/
def Rearranged (free : Prop) (as bs : List α) : Prop := as = bs ∨ free ∧ as.Perm bs

namespace Rearranged

variable {free : Prop}

theorem refl (as : List α) : Rearranged free as as := .inl rfl

theorem perm {as bs : List α} (h : Rearranged free as bs) : as.Perm bs := by
  rcases h with rfl | ⟨-, h⟩
  · exact .refl _
  · exact h

theorem eq (hfree : ¬free) {as bs : List α} (h : Rearranged free as bs) : as = bs :=
  h.resolve_right fun h => hfree h.1

theorem append {as bs as' bs' : List α} (h : Rearranged free as bs)
    (h' : Rearranged free as' bs') : Rearranged free (as ++ as') (bs ++ bs') := by
  by_cases hfree : free
  · exact .inr ⟨hfree, h.perm.append h'.perm⟩
  · rw [h.eq hfree, h'.eq hfree]
    exact refl _

theorem trans {as bs cs : List α} (h : Rearranged free as bs) (h' : Rearranged free bs cs) :
    Rearranged free as cs := by
  rcases h with rfl | ⟨hfree, h⟩
  · exact h'
  · exact .inr ⟨hfree, h.trans h'.perm⟩

theorem map (f : α → β) {as bs : List α} (h : Rearranged free as bs) :
    Rearranged free (as.map f) (bs.map f) := by
  rcases h with rfl | ⟨hfree, h⟩
  · exact refl _
  · exact .inr ⟨hfree, h.map f⟩

theorem flatMap (f : α → List β) {as bs : List α} (h : Rearranged free as bs) :
    Rearranged free (as.flatMap f) (bs.flatMap f) := by
  rcases h with rfl | ⟨hfree, h⟩
  · exact refl _
  · exact .inr ⟨hfree, h.flatMap_right f⟩

end Rearranged

/-- Lists that correspond one by one, once the second is put in order if the order is free. -/
def Arranged (free : Prop) (r : α → β → Prop) (as : List α) (bs : List β) : Prop :=
  ∃ mid, List.Forall₂ r as mid ∧ Rearranged free mid bs

namespace Arranged

variable {free : Prop}

theorem of_forall₂ {as : List α} {bs : List β} (h : List.Forall₂ r as bs) :
    Arranged free r as bs := ⟨bs, h, .refl bs⟩

theorem forall₂ (hfree : ¬free) {as : List α} {bs : List β} (h : Arranged free r as bs) :
    List.Forall₂ r as bs := by
  obtain ⟨mid, hmid, hbs⟩ := h
  rwa [← hbs.eq hfree]

theorem append {as as' : List α} {bs bs' : List β} (h : Arranged free r as bs)
    (h' : Arranged free r as' bs') : Arranged free r (as ++ as') (bs ++ bs') := by
  obtain ⟨mid, hmid, hbs⟩ := h
  obtain ⟨mid', hmid', hbs'⟩ := h'
  exact ⟨mid ++ mid', List.rel_append hmid hmid', hbs.append hbs'⟩

theorem cons {a : α} {b : β} {as : List α} {bs : List β} (hab : r a b) (h : Arranged free r as bs) :
    Arranged free r (a :: as) (b :: bs) :=
  append (of_forall₂ (.cons hab .nil)) h

theorem map {s : γ → δ → Prop} {f : α → γ} {g : β → δ} (hfg : ∀ a b, r a b → s (f a) (g b))
    {as : List α} {bs : List β} (h : Arranged free r as bs) :
    Arranged free s (as.map f) (bs.map g) := by
  obtain ⟨mid, hmid, hbs⟩ := h
  refine ⟨mid.map g, ?_, hbs.map g⟩
  rw [List.forall₂_map_left_iff, List.forall₂_map_right_iff]
  exact hmid.imp hfg

theorem flatMap_of_forall₂ {s : γ → δ → Prop} {f : α → List γ} {g : β → List δ}
    (hfg : ∀ a b, r a b → Arranged free s (f a) (g b)) {as : List α} {bs : List β}
    (h : List.Forall₂ r as bs) : Arranged free s (as.flatMap f) (bs.flatMap g) := by
  induction h with
  | nil => exact of_forall₂ .nil
  | @cons a b as bs hab _ ih => exact append (hfg a b hab) ih

theorem imp {s : α → β → Prop} (hrs : ∀ a b, r a b → s a b) {as : List α} {bs : List β}
    (h : Arranged free r as bs) : Arranged free s as bs := by
  obtain ⟨mid, hmid, hbs⟩ := h
  exact ⟨mid, hmid.imp hrs, hbs⟩

theorem flatMap {s : γ → δ → Prop} {f : α → List γ} {g : β → List δ}
    (hfg : ∀ a b, r a b → Arranged free s (f a) (g b)) {as : List α} {bs : List β}
    (h : Arranged free r as bs) : Arranged free s (as.flatMap f) (bs.flatMap g) := by
  obtain ⟨mid, hmid, hbs⟩ := h
  obtain ⟨mid', hmid', hbs'⟩ := flatMap_of_forall₂ hfg hmid
  exact ⟨mid', hmid', hbs'.trans (hbs.flatMap g)⟩

theorem rearranged {as bs : List α} (h : Arranged free (· = ·) as bs) :
    Rearranged free as bs := by
  obtain ⟨mid, hmid, hbs⟩ := h
  rw [List.forall₂_eq_eq_eq] at hmid
  rwa [hmid]

/-- What corresponding elements give in any order is given in any order by the lists. -/
theorem rearranged_flatMap {f : α → List γ} {g : β → List γ}
    (hfg : ∀ a b, r a b → Rearranged free (f a) (g b)) {as : List α} {bs : List β}
    (h : Arranged free r as bs) : Rearranged free (as.flatMap f) (bs.flatMap g) := by
  obtain ⟨mid, hmid, hbs⟩ := h
  have hpointwise : Rearranged free (as.flatMap f) (mid.flatMap g) := by
    clear hbs
    induction hmid with
    | nil => exact .refl _
    | @cons a b as bs hab _ ih => exact (hfg a b hab).append ih
  exact hpointwise.trans (hbs.flatMap g)

end Arranged

end Fingerprint
