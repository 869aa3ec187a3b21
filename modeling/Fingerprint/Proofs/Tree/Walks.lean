import Mathlib.Data.List.Nodup
import Mathlib.Tactic.Common
import Fingerprint.Proofs.Tree.Entries
/-!
# Walks and sites

The sites below a site are told apart by the steps that lead to them, so each is met once and only
on the way through the sites above it.  What a walk keeps is therefore nested just as the sites are
that it was kept for.
-/

namespace Fingerprint

namespace Site

def inside (s : Site) : List Site := belowAll s.above s.node 0 s.node.children

theorem below_eq_cons (s : Site) : below s.above s.node = s :: s.inside := by
  obtain ⟨⟨label, children⟩, above⟩ := s
  rfl

theorem below_child (s : Site) (i : Nat) (c : Node) :
    below (⟨s.node, i⟩ :: s.above) c = s.child i c :: (s.child i c).inside :=
  below_eq_cons (s.child i c)

theorem map_node_inside (s : Site) : s.inside.map node = s.node.descendants :=
  map_node_belowAll s.above s.node 0 s.node.children

theorem node_mem_descendants {s t : Site} (h : t ∈ s.inside) : t.node ∈ s.node.descendants :=
  map_node_inside s ▸ List.mem_map_of_mem h

theorem node_mem_nodes_of_mem_inside {s t : Site} (h : t ∈ s.inside) :
    t.node ∈ s.node.nodes := by
  rw [Node.nodes_eq_cons]
  exact List.mem_cons_of_mem _ (node_mem_descendants h)

theorem mem_belowAll {t : Site} {above : List Step} {parent : Node} {index : Nat}
    {children : List Node} :
    t ∈ belowAll above parent index children ↔
      ∃ i c, children[i]? = some c ∧ t ∈ below (⟨parent, index + i⟩ :: above) c := by
  induction children generalizing index with
  | nil => simp [belowAll]
  | cons c rest ih =>
    rw [belowAll, List.mem_append, ih]
    constructor
    · rintro (h | ⟨i, d, hd, h⟩)
      · exact ⟨0, c, rfl, h⟩
      · exact ⟨i + 1, d, hd, by rwa [show index + (i + 1) = index + 1 + i by omega]⟩
    · rintro ⟨i, d, hd, h⟩
      cases i with
      | zero =>
        cases hd
        exact .inl h
      | succ i => exact .inr ⟨i, d, hd, by rwa [show index + 1 + i = index + (i + 1) by omega]⟩

theorem mem_inside_iff {s t : Site} :
    t ∈ s.inside ↔
      ∃ i c, s.node.children[i]? = some c ∧ (t = s.child i c ∨ t ∈ (s.child i c).inside) := by
  rw [inside, mem_belowAll]
  refine exists_congr fun i => exists_congr fun c => and_congr_right fun _ => ?_
  rw [Nat.zero_add, below_child, List.mem_cons]

theorem child_mem_inside {s : Site} {i : Nat} {c : Node} (h : s.node.children[i]? = some c) :
    s.child i c ∈ s.inside :=
  mem_inside_iff.2 ⟨i, c, h, .inl rfl⟩

/-! ## Steps -/

mutual

theorem exists_above_of_mem_below {t : Site} {above : List Step} :
    ∀ n : Node, t ∈ below above n → ∃ inner, t.above = inner ++ above
  | ⟨label, children⟩, h => by
    rcases List.mem_cons.1 h with rfl | h
    · exact ⟨[], rfl⟩
    · obtain ⟨inner, i, -, habove⟩ := exists_above_of_mem_belowAll children h
      exact ⟨inner ++ [⟨⟨label, children⟩, i⟩], by rw [habove, List.append_assoc]; rfl⟩

theorem exists_above_of_mem_belowAll {t : Site} {above : List Step} {parent : Node} {index : Nat} :
    ∀ children : List Node, t ∈ belowAll above parent index children →
      ∃ inner i, index ≤ i ∧ t.above = inner ++ ⟨parent, i⟩ :: above
  | [], h => by cases h
  | c :: rest, h => by
    rcases List.mem_append.1 h with h | h
    · obtain ⟨inner, habove⟩ := exists_above_of_mem_below c h
      exact ⟨inner, index, Nat.le_refl _, habove⟩
    · obtain ⟨inner, i, hi, habove⟩ := exists_above_of_mem_belowAll rest h
      exact ⟨inner, i, by omega, habove⟩

end

theorem exists_above_of_mem_inside {s t : Site} (h : t ∈ s.inside) :
    ∃ inner i, t.above = inner ++ ⟨s.node, i⟩ :: s.above := by
  obtain ⟨inner, i, -, habove⟩ := exists_above_of_mem_belowAll _ h
  exact ⟨inner, i, habove⟩

theorem length_above_lt_of_mem_inside {s t : Site} (h : t ∈ s.inside) :
    s.above.length < t.above.length := by
  obtain ⟨inner, i, habove⟩ := exists_above_of_mem_inside h
  rw [habove, List.length_append, List.length_cons]
  omega

theorem not_mem_inside_self (s : Site) : s ∉ s.inside :=
  fun h => Nat.lt_irrefl _ (length_above_lt_of_mem_inside h)

theorem not_mem_belowAll_of_mem_below {t : Site} {above : List Step} {parent c : Node}
    {index : Nat} {rest : List Node} (h : t ∈ below (⟨parent, index⟩ :: above) c) :
    t ∉ belowAll above parent (index + 1) rest := by
  intro hrest
  obtain ⟨inner, habove⟩ := exists_above_of_mem_below c h
  obtain ⟨inner', i, hi, habove'⟩ := exists_above_of_mem_belowAll rest hrest
  have hsteps := (List.append_inj' (habove.symm.trans habove') rfl).2
  simp only [List.cons.injEq, Step.mk.injEq] at hsteps
  omega

mutual

theorem nodup_below (above : List Step) : ∀ n : Node, (below above n).Nodup
  | ⟨label, children⟩ => by
    rw [below, List.nodup_cons]
    exact ⟨not_mem_inside_self ⟨⟨label, children⟩, above⟩, nodup_belowAll above _ 0 children⟩

theorem nodup_belowAll (above : List Step) (parent : Node) (index : Nat) :
    ∀ children : List Node, (belowAll above parent index children).Nodup
  | [] => .nil
  | c :: rest => by
    rw [belowAll, List.nodup_append']
    exact ⟨nodup_below _ c, nodup_belowAll above parent (index + 1) rest,
      fun _ h => not_mem_belowAll_of_mem_below h⟩

end

theorem nodup_inside (s : Site) : s.inside.Nodup :=
  nodup_belowAll s.above s.node 0 s.node.children

/-! ## Sites above sites -/

theorem mem_inside_trans {s t u : Site} (hu : u ∈ t.inside) (ht : t ∈ s.inside) :
    u ∈ s.inside := by
  -- The way from `s` down to `t` is taken step by step.
  induction hsize : t.above.length - s.above.length using Nat.strongRecOn generalizing s with
  | ind size ih =>
    obtain ⟨i, c, hc, ht'⟩ := mem_inside_iff.1 ht
    refine mem_inside_iff.2 ⟨i, c, hc, .inr ?_⟩
    rcases ht' with rfl | ht'
    · exact hu
    · have hlength := length_above_lt_of_mem_inside ht'
      have hchild : (s.child i c).above.length = s.above.length + 1 := rfl
      exact ih _ (by omega) ht' rfl

theorem mem_below_of_mem_inside {t u : Site} {above : List Step} {n : Node}
    (ht : t ∈ below above n) (hu : u ∈ t.inside) : u ∈ below above n := by
  have hcons : below above n = ⟨n, above⟩ :: (Site.mk n above).inside :=
    below_eq_cons ⟨n, above⟩
  rw [hcons] at ht ⊢
  rcases List.mem_cons.1 ht with rfl | ht
  · exact List.mem_cons_of_mem _ hu
  · exact List.mem_cons_of_mem _ (mem_inside_trans hu ht)

theorem mem_belowAll_of_mem_inside {t u : Site} {above : List Step} {parent : Node} {index : Nat}
    {children : List Node} (ht : t ∈ belowAll above parent index children) (hu : u ∈ t.inside) :
    u ∈ belowAll above parent index children := by
  rw [mem_belowAll] at ht ⊢
  obtain ⟨i, c, hc, ht⟩ := ht
  exact ⟨i, c, hc, mem_below_of_mem_inside ht hu⟩

/-- The way down to a site leads through one site at each depth. -/
theorem eq_of_length_eq {s t u : Site} (hs : u ∈ s.inside) (ht : u ∈ t.inside)
    (hlength : s.above.length = t.above.length) : s = t := by
  obtain ⟨inner, i, habove⟩ := exists_above_of_mem_inside hs
  obtain ⟨inner', i', habove'⟩ := exists_above_of_mem_inside ht
  have hsteps := (List.append_inj' (habove.symm.trans habove') (by simp [hlength])).2
  simp only [List.cons.injEq, Step.mk.injEq] at hsteps
  obtain ⟨node, above⟩ := s
  obtain ⟨node', above'⟩ := t
  obtain ⟨⟨hnode, -⟩, hrest⟩ := hsteps
  simp only at hnode hrest
  rw [hnode, hrest]

theorem mem_inside_of_length_lt {s t u : Site} (hs : u ∈ s.inside) (ht : u ∈ t.inside)
    (hlength : s.above.length < t.above.length) : t ∈ s.inside := by
  induction hsize : t.above.length - s.above.length using Nat.strongRecOn generalizing s with
  | ind size ih =>
    obtain ⟨i, c, hc, hu⟩ := mem_inside_iff.1 hs
    have hchild : (s.child i c).above.length = s.above.length + 1 := rfl
    have hdeeper := length_above_lt_of_mem_inside ht
    rcases hu with rfl | hu
    · omega
    · rcases Nat.lt_or_eq_of_le (show (s.child i c).above.length ≤ t.above.length by omega) with
        hlt | heq
      · exact mem_inside_trans (ih _ (by omega) hu hlt rfl) (child_mem_inside hc)
      · rw [← eq_of_length_eq hu ht heq]
        exact child_mem_inside hc

theorem eq_or_mem_inside {s t u : Site} (hs : u ∈ s.inside) (ht : u ∈ t.inside) :
    s = t ∨ t ∈ s.inside ∨ s ∈ t.inside := by
  rcases Nat.lt_trichotomy s.above.length t.above.length with hlt | heq | hlt
  · exact .inr (.inl (mem_inside_of_length_lt hs ht hlt))
  · exact .inl (eq_of_length_eq hs ht heq)
  · exact .inr (.inr (mem_inside_of_length_lt ht hs hlt))

end Site

/-! ## What a walk keeps -/

namespace Signal

variable {α β : Type}

def map (f : α → β) (signal : Signal α) : Signal β := ⟨signal.data.map f, signal.descend⟩

theorem mapAll_collect (f : α → β) (signal : Signal α) (path : String) (inner : List (Entry α)) :
    Entry.mapAll f (signal.collect path inner) =
      (signal.map f).collect path (Entry.mapAll f inner) := by
  obtain ⟨data, descend⟩ := signal
  cases data <;> rfl

end Signal

namespace Node

variable {ε α β : Type} {f : α → β} {visit : String → Site → Except ε (Signal α)}
  {visit' : String → Site → Except ε (Signal β)}

mutual

theorem walkAt_map (h : ∀ path s, visit' path s = (visit path s).map (.map f)) (path : String)
    (above : List Step) :
    ∀ n : Node, walkAt visit' path above n = (walkAt visit path above n).map (Entry.mapAll f)
  | ⟨label, children⟩ => by
    rw [walkAt, walkAt, h]
    cases visit path ⟨⟨label, children⟩, above⟩ with
    | error fault => rfl
    | ok signal =>
      change (if signal.descend then _ else _) = Except.map _ (if signal.descend then _ else _)
      split
      · rw [walkAll_map h]
        cases walkAll visit path above ⟨label, children⟩ 0 children with
        | error fault => rfl
        | ok inner => exact congrArg Except.ok (Signal.mapAll_collect f signal path inner).symm
      · exact congrArg Except.ok (Signal.mapAll_collect f signal path []).symm

theorem walkAll_map (h : ∀ path s, visit' path s = (visit path s).map (.map f)) (path : String)
    (above : List Step) (parent : Node) (index : Nat) :
    ∀ children : List Node, walkAll visit' path above parent index children =
      (walkAll visit path above parent index children).map (Entry.mapAll f)
  | [] => rfl
  | c :: rest => by
    rw [walkAll, walkAll]
    split
    · rw [walkAt_map h, walkAll_map h path above parent (index + 1) rest]
      cases walkAt visit (childPath path index c) (⟨parent, index⟩ :: above) c with
      | error fault => rfl
      | ok here =>
        cases walkAll visit path above parent (index + 1) rest with
        | error fault => rfl
        | ok later =>
          refine congrArg Except.ok ?_
          rw [Entry.mapAll_eq, Entry.mapAll_eq, Entry.mapAll_eq, List.map_append]
    · exact walkAll_map h path above parent (index + 1) rest

end

end Node

theorem Site.walk_map {ε α β : Type} {f : α → β} {visit : String → Site → Except ε (Signal α)}
    {visit' : String → Site → Except ε (Signal β)}
    (h : ∀ path s, visit' path s = (visit path s).map (.map f)) (root : Site) :
    root.walk visit' = (root.walk visit).map (Entry.mapAll f) :=
  Node.walkAll_map h _ _ _ _ _

/-! ## Nesting -/

section Nesting

variable {ε α : Type} {visit : String → Site → Except ε (Signal α)} {site : α → Site}

/-- What a forest keeps belongs to some of the given sites, in their order, and is nested as these
sites are. -/
structure Entry.NestsAs (site : α → Site) (forest : List (Entry α)) (sites : List Site) :
    Prop where
  sublist : ((toListAll forest).map site).Sublist sites
  nested : ∀ a ∈ toListAll forest, ∀ b ∈ toListAll forest,
    (a, b) ∈ nestingsAll forest ↔ site b ∈ (site a).inside

theorem Entry.NestsAs.mem {forest : List (Entry α)} {sites : List Site}
    (h : NestsAs site forest sites) {a : α} (ha : a ∈ toListAll forest) : site a ∈ sites :=
  h.sublist.subset (List.mem_map_of_mem ha)

namespace Node

theorem nestsAs_collect {s : Site} {signal : Signal α} {path : String} {inner : List (Entry α)}
    (hsite : ∀ a ∈ signal.data, site a = s) (h : Entry.NestsAs site inner s.inside) :
    Entry.NestsAs site (signal.collect path inner) (s :: s.inside) := by
  obtain ⟨data, descend⟩ := signal
  cases data with
  | none => exact ⟨h.sublist.cons s, h.nested⟩
  | some kept =>
    have hkept : site kept = s := hsite kept rfl
    have hnot : kept ∉ Entry.toListAll inner := fun hmem =>
      s.not_mem_inside_self (hkept ▸ h.mem hmem)
    have hlist : Entry.toListAll (Signal.collect ⟨some kept, descend⟩ path inner) =
        kept :: Entry.toListAll inner := by
      simp [Signal.collect, Entry.toListAll, Entry.toList]
    have hnestings : Entry.nestingsAll (Signal.collect ⟨some kept, descend⟩ path inner) =
        (Entry.toListAll inner).map (kept, ·) ++ Entry.nestingsAll inner := by
      simp [Signal.collect, Entry.nestingsAll, Entry.nestings]
    constructor
    · rw [hlist, List.map_cons, hkept]
      exact h.sublist.cons_cons s
    · rw [hlist, hnestings]
      intro a hmemA b hmemB
      rw [List.mem_append, List.mem_map]
      rcases List.mem_cons.1 hmemA with rfl | ha
      · -- All that was kept further down is below the site's own.
        rw [hkept]
        rcases List.mem_cons.1 hmemB with rfl | hb
        · rw [hkept]
          refine iff_of_false ?_ s.not_mem_inside_self
          rintro (⟨c, hc, hpair⟩ | hbelow)
          · cases hpair
            exact hnot hc
          · exact hnot (Entry.mem_toListAll_of_mem_nestingsAll inner hbelow).1
        · exact iff_of_true (.inl ⟨b, hb, rfl⟩) (h.mem hb)
      · have hne : a ≠ kept := fun heq => hnot (heq ▸ ha)
        rcases List.mem_cons.1 hmemB with rfl | hb
        · refine iff_of_false ?_ ?_
          · rintro (⟨c, -, hpair⟩ | hbelow)
            · exact hne (congrArg Prod.fst hpair).symm
            · exact hnot (Entry.mem_toListAll_of_mem_nestingsAll inner hbelow).2
          · rw [hkept]
            exact fun hmem => s.not_mem_inside_self (Site.mem_inside_trans hmem (h.mem ha))
        · rw [← h.nested a ha b hb]
          refine ⟨?_, .inr⟩
          rintro (⟨c, -, hpair⟩ | hbelow)
          · exact absurd (congrArg Prod.fst hpair).symm hne
          · exact hbelow

theorem nestsAs_append {here later : List (Entry α)} {above : List Step} {parent c : Node}
    {index : Nat} {rest : List Node}
    (hhere : Entry.NestsAs site here (Site.below (⟨parent, index⟩ :: above) c))
    (hlater : Entry.NestsAs site later (Site.belowAll above parent (index + 1) rest)) :
    Entry.NestsAs site (here ++ later) (Site.belowAll above parent index (c :: rest)) := by
  have hdisjoint : ∀ {s : Site}, s ∈ Site.below (⟨parent, index⟩ :: above) c →
      s ∉ Site.belowAll above parent (index + 1) rest := Site.not_mem_belowAll_of_mem_below
  have hmemHere : ∀ {a b : α}, (a, b) ∈ Entry.nestingsAll here →
      a ∈ Entry.toListAll here ∧ b ∈ Entry.toListAll here :=
    Entry.mem_toListAll_of_mem_nestingsAll here
  have hmemLater : ∀ {a b : α}, (a, b) ∈ Entry.nestingsAll later →
      a ∈ Entry.toListAll later ∧ b ∈ Entry.toListAll later :=
    Entry.mem_toListAll_of_mem_nestingsAll later
  constructor
  · rw [Entry.toListAll_append, List.map_append, Site.belowAll]
    exact hhere.sublist.append hlater.sublist
  · rw [Entry.toListAll_append, Entry.nestingsAll_append]
    intro a ha b hb
    rw [List.mem_append] at ha hb ⊢
    rcases ha with ha | ha <;> rcases hb with hb | hb
    · rw [← hhere.nested a ha b hb, or_iff_left]
      exact fun h => hdisjoint (hhere.mem ha) (hlater.mem (hmemLater h).1)
    · refine iff_of_false ?_ fun h =>
        hdisjoint (Site.mem_below_of_mem_inside (hhere.mem ha) h) (hlater.mem hb)
      rintro (h | h)
      · exact hdisjoint (hhere.mem (hmemHere h).2) (hlater.mem hb)
      · exact hdisjoint (hhere.mem ha) (hlater.mem (hmemLater h).1)
    · refine iff_of_false ?_ fun h =>
        hdisjoint (hhere.mem hb) (Site.mem_belowAll_of_mem_inside (hlater.mem ha) h)
      rintro (h | h)
      · exact hdisjoint (hhere.mem (hmemHere h).1) (hlater.mem ha)
      · exact hdisjoint (hhere.mem hb) (hlater.mem (hmemLater h).2)
    · rw [← hlater.nested a ha b hb, or_iff_right]
      exact fun h => hdisjoint (hhere.mem (hmemHere h).1) (hlater.mem ha)

theorem nestsAs_nil (sites : List Site) : Entry.NestsAs site ([] : List (Entry α)) sites where
  sublist := List.nil_sublist sites
  nested a ha := by cases ha

mutual

theorem nestsAs_walkAt
    (hsite : ∀ path s signal, visit path s = .ok signal → ∀ a ∈ signal.data, site a = s) :
    ∀ (n : Node) {path : String} {above : List Step} {forest : List (Entry α)},
      walkAt visit path above n = .ok forest →
      Entry.NestsAs site forest (Site.below above n)
  | ⟨label, children⟩, path, above, forest, hwalk => by
    rw [walkAt, bind_eq_ok] at hwalk
    obtain ⟨signal, hsignal, hwalk⟩ := hwalk
    have hown := hsite _ _ _ hsignal
    split at hwalk
    · rw [bind_eq_ok] at hwalk
      obtain ⟨inner, hinner, hwalk⟩ := hwalk
      cases hwalk
      exact nestsAs_collect hown (nestsAs_walkAll hsite children hinner)
    · cases hwalk
      exact nestsAs_collect hown (nestsAs_nil _)

theorem nestsAs_walkAll
    (hsite : ∀ path s signal, visit path s = .ok signal → ∀ a ∈ signal.data, site a = s) :
    ∀ (children : List Node) {path : String} {above : List Step} {parent : Node} {index : Nat}
      {forest : List (Entry α)},
      walkAll visit path above parent index children = .ok forest →
        Entry.NestsAs site forest (Site.belowAll above parent index children)
  | [], path, above, parent, index, forest, hwalk => by
    cases hwalk
    exact nestsAs_nil _
  | c :: rest, path, above, parent, index, forest, hwalk => by
    rw [walkAll] at hwalk
    split at hwalk
    · rw [bind_eq_ok] at hwalk
      obtain ⟨here, hhere, hwalk⟩ := hwalk
      rw [bind_eq_ok] at hwalk
      obtain ⟨later, hlater, hwalk⟩ := hwalk
      cases hwalk
      exact nestsAs_append (nestsAs_walkAt hsite c hhere) (nestsAs_walkAll hsite rest hlater)
    · have hskipped : Entry.NestsAs site [] (Site.below (⟨parent, index⟩ :: above) c) :=
        nestsAs_nil _
      exact nestsAs_append hskipped (nestsAs_walkAll hsite rest hwalk)

end

end Node

theorem Site.nestsAs_walk
    (hsite : ∀ path s signal, visit path s = .ok signal → ∀ a ∈ signal.data, site a = s)
    {root : Site} {forest : List (Entry α)} (h : root.walk visit = .ok forest) :
    Entry.NestsAs site forest root.inside :=
  Node.nestsAs_walkAll hsite root.node.children h

end Nesting

end Fingerprint
