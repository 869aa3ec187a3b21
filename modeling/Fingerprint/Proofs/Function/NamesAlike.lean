import Mathlib.Tactic.Common
import Fingerprint.Proofs.Ascending
import Fingerprint.Proofs.Function.Naming
import Fingerprint.Proofs.Tree.WalksAlike
/-!
# Names in forests of one shape

The number in a name counts the names that were given before it, so full names depend on the order
of a forest.  Two forests of one shape have the same names if they have one order, and also if no
name of the first needed a number.
-/

namespace Fingerprint

namespace Located

open GivenNames

/-! ## One order -/

mutual

theorem nameEntry_eq_of_like (parent : String) (names : GivenNames) :
    ∀ {e e' : Entry Located}, Entry.Like False e e' →
      nameEntry parent names e = nameEntry parent names e'
  | ⟨_, function, children⟩, _, .mk hchildren hmid => by
    rw [nameEntry, nameEntry, ← hmid.eq not_false]
    simp only [nameAll_eq_of_like _ _ hchildren]

theorem nameAll_eq_of_like (parent : String) (names : GivenNames) :
    ∀ {forest forest' : List (Entry Located)}, List.Forall₂ (Entry.Like False) forest forest' →
      nameAll parent names forest = nameAll parent names forest'
  | [], _, .nil => rfl
  | _ :: _, _, .cons he hrest => by
    rw [nameAll, nameAll, nameEntry_eq_of_like parent names he]
    simp only [nameAll_eq_of_like _ _ hrest]

end

theorem flatten_eq_of_like {forest forest' : List (Entry Located)}
    (h : List.Forall₂ (Entry.Like False) forest forest') : flatten forest = flatten forest' := by
  rw [flatten, flatten, named, named, nameAll_eq_of_like "" {} h]

/-! ## Names without numbers -/

mutual

/-- An entry and all below it with their full names, where repeated ones are not told apart. -/
def unnumberedEntry (parent : String) : Entry Located → List (String × List String)
  | ⟨_, function, children⟩ =>
    let name := under parent function.name
    (name, function.tokens) :: unnumberedAll name children

def unnumberedAll (parent : String) : List (Entry Located) → List (String × List String)
  | [] => []
  | e :: rest => unnumberedEntry parent e ++ unnumberedAll parent rest

end

def unnumbered (forest : List (Entry Located)) : List (String × List String) :=
  unnumberedAll "" forest

theorem unnumberedAll_eq (parent : String) (forest : List (Entry Located)) :
    unnumberedAll parent forest = forest.flatMap (unnumberedEntry parent) := by
  induction forest with
  | nil => rfl
  | cons e rest ih => rw [unnumberedAll, ih, List.flatMap_cons]

section

variable {free : Prop}

mutual

theorem rearranged_unnumberedEntry (parent : String) : ∀ {e e' : Entry Located},
    Entry.Like free e e' → Rearranged free (unnumberedEntry parent e) (unnumberedEntry parent e')
  | ⟨_, function, children⟩, _, .mk hmid hchildren => by
    have hbelow := rearranged_unnumberedAll (under parent function.name) hmid
    rw [unnumberedAll_eq, unnumberedAll_eq] at hbelow
    rw [unnumberedEntry, unnumberedEntry, unnumberedAll_eq, unnumberedAll_eq]
    exact .append (.refl [_]) (hbelow.trans (hchildren.flatMap _))

theorem rearranged_unnumberedAll (parent : String) : ∀ {forest forest' : List (Entry Located)},
    List.Forall₂ (Entry.Like free) forest forest' →
      Rearranged free (unnumberedAll parent forest) (unnumberedAll parent forest')
  | [], _, .nil => .refl _
  | _ :: _, _, .cons he hrest =>
    .append (rearranged_unnumberedEntry parent he) (rearranged_unnumberedAll parent hrest)

end

theorem unnumbered_perm {forest forest' : List (Entry Located)}
    (h : Arranged free (Entry.Like free) forest forest') :
    (unnumbered forest).Perm (unnumbered forest') := by
  rw [unnumbered, unnumbered, unnumberedAll_eq, unnumberedAll_eq]
  exact (h.rearranged_flatMap fun _ _ he => rearranged_unnumberedEntry "" he).perm

end

theorem give_eq_of_not_mem {names : GivenNames} {given : List String} (h : names.Records given)
    {base : String} (hfree : base ∉ given) : (names.give base).1 = base := by
  rcases isDue_give h base with ⟨-, hname⟩ | ⟨htaken, -⟩
  · exact hname
  · exact absurd htaken hfree

mutual

theorem nameEntry_eq_unnumbered (parent : String) {names : GivenNames} {given : List String}
    (h : names.Records given) : ∀ e : Entry Located,
      (given ++ (unnumberedEntry parent e).map Prod.fst).Nodup →
        (nameEntry parent names e).1 = unnumberedEntry parent e ∧
          (nameEntry parent names e).2.Records (given ++ (unnumberedEntry parent e).map Prod.fst)
  | ⟨path, function, children⟩, hnodup => by
    rw [unnumberedEntry, List.map_cons, List.append_cons] at hnodup ⊢
    have hfree : under parent function.name ∉ given := fun hmem =>
      List.disjoint_of_nodup_append hnodup.of_append_left hmem (List.mem_singleton_self _)
    have hname := give_eq_of_not_mem h hfree
    have hrecords := h.give (under parent function.name)
    rw [nameEntry]
    generalize names.give (under parent function.name) = result at hname hrecords
    obtain ⟨name, names⟩ := result
    subst hname
    obtain ⟨hbelow, hlater⟩ := nameAll_eq_unnumbered _ hrecords children hnodup
    exact ⟨congrArg _ hbelow, hlater⟩

theorem nameAll_eq_unnumbered (parent : String) {names : GivenNames} {given : List String}
    (h : names.Records given) : ∀ forest : List (Entry Located),
      (given ++ (unnumberedAll parent forest).map Prod.fst).Nodup →
        (nameAll parent names forest).1 = unnumberedAll parent forest ∧
          (nameAll parent names forest).2.Records
            (given ++ (unnumberedAll parent forest).map Prod.fst)
  | [], _ => by
    refine ⟨rfl, ?_⟩
    simpa [unnumberedAll, nameAll] using h
  | e :: rest, hnodup => by
    rw [unnumberedAll, List.map_append, ← List.append_assoc] at hnodup ⊢
    obtain ⟨hhere, hrecords⟩ := nameEntry_eq_unnumbered parent h e hnodup.of_append_left
    obtain ⟨hlater, hrest⟩ := nameAll_eq_unnumbered parent hrecords rest hnodup
    rw [nameAll]
    exact ⟨congrArg₂ (· ++ ·) hhere hlater, hrest⟩

end

/-- Names are not numbered exactly if they are distinct without numbers. -/
theorem named_eq_unnumbered_iff (forest : List (Entry Located)) :
    named forest = unnumbered forest ↔ ((unnumbered forest).map Prod.fst).Nodup := by
  constructor
  · intro h
    rw [← h]
    exact nodup_named forest
  · exact fun h => (nameAll_eq_unnumbered "" records_empty forest h).1

theorem flatten_eq_of_named_perm {forest forest' : List (Entry Located)}
    (h : (named forest).Perm (named forest')) : flatten forest = flatten forest' := by
  have hsorted : (named forest).mergeSort (fun a b => textLe a.1 b.1) =
      (named forest').mergeSort (fun a b => textLe a.1 b.1) := by
    refine Ascending.mergeSort_eq_of_perm (fun a b c => textLe_trans a.1 b.1 c.1)
      (fun a b => textLe_total a.1 b.1) h fun a ha b hb hab hba => ?_
    exact List.inj_on_of_nodup_map (nodup_named forest) ha hb
      (le_antisymm (by simpa [textLe] using hab) (by simpa [textLe] using hba))
  rw [flatten, flatten, hsorted]

/-- Entries may stand in any order if no name of theirs is numbered. -/
theorem flatten_eq_of_unnumbered {free : Prop} {forest forest' : List (Entry Located)}
    (h : Arranged free (Entry.Like free) forest forest')
    (hplain : named forest = unnumbered forest) : flatten forest = flatten forest' := by
  have hperm := unnumbered_perm h
  have hnodup := (named_eq_unnumbered_iff forest).1 hplain
  have hplain' : named forest' = unnumbered forest' :=
    (named_eq_unnumbered_iff forest').2 ((hperm.map Prod.fst).nodup_iff.1 hnodup)
  refine flatten_eq_of_named_perm ?_
  rwa [hplain, hplain']

end Located

end Fingerprint
