import Mathlib.Data.List.Nodup
import Mathlib.Tactic.Common
import Fingerprint.Proofs.Tree.Nodes
/-!
# Forests of entries

What the entries of a forest keep can be changed without changing the forest.  The nesting of a
forest is told by pairs: what an entry keeps, with what an entry right below it keeps, or one at any
depth below it.
-/

namespace Fingerprint

namespace Entry

variable {α β : Type}

mutual

def map (f : α → β) : Entry α → Entry β
  | ⟨path, data, children⟩ => ⟨path, f data, mapAll f children⟩

def mapAll (f : α → β) : List (Entry α) → List (Entry β)
  | [] => []
  | e :: rest => map f e :: mapAll f rest

end

mutual

/-- What the entries below an entry keep, each after what the entry right above it keeps. -/
def links : Entry α → List (α × α)
  | ⟨_, data, children⟩ => children.map (fun e => (data, e.data)) ++ linksAll children

def linksAll : List (Entry α) → List (α × α)
  | [] => []
  | e :: rest => links e ++ linksAll rest

end

theorem mapAll_eq (f : α → β) (forest : List (Entry α)) :
    mapAll f forest = forest.map (map f) := by
  induction forest with
  | nil => rfl
  | cons e rest ih => rw [mapAll, ih, List.map_cons]

theorem data_map (f : α → β) (e : Entry α) : (map f e).data = f e.data := by
  cases e
  rfl

mutual

theorem toList_map (f : α → β) : ∀ e : Entry α, toList (map f e) = (toList e).map f
  | ⟨path, data, children⟩ => by rw [map, toList, toList, toListAll_mapAll, List.map_cons]

theorem toListAll_mapAll (f : α → β) :
    ∀ forest : List (Entry α), toListAll (mapAll f forest) = (toListAll forest).map f
  | [] => rfl
  | e :: rest => by
    rw [mapAll, toListAll, toListAll, toList_map, toListAll_mapAll, List.map_append]

end

section Links

variable {p : α → Prop}

mutual

/-- What holds on top and is handed down by every link holds above every link. -/
theorem forall_links : ∀ e : Entry α, p e.data → (∀ link ∈ links e, p link.1 → p link.2) →
    ∀ link ∈ links e, p link.1
  | ⟨_, data, children⟩, htop, hdown, link, hlink => by
    rw [links, List.mem_append] at hlink
    rcases hlink with hlink | hlink
    · obtain ⟨e, -, rfl⟩ := List.mem_map.1 hlink
      exact htop
    · refine forall_linksAll children (fun e he => ?_) (fun below hbelow => ?_) link hlink
      · exact hdown (data, e.data) (List.mem_append_left _ (List.mem_map_of_mem he)) htop
      · exact hdown below (List.mem_append_right _ hbelow)

theorem forall_linksAll : ∀ forest : List (Entry α), (∀ e ∈ forest, p e.data) →
    (∀ link ∈ linksAll forest, p link.1 → p link.2) → ∀ link ∈ linksAll forest, p link.1
  | [], _, _, _, hlink => by cases hlink
  | e :: rest, htop, hdown, link, hlink => by
    rw [List.forall_mem_cons] at htop
    rcases List.mem_append.1 hlink with hlink | hlink
    · exact forall_links e htop.1 (fun l hl => hdown l (List.mem_append_left _ hl)) link hlink
    · exact forall_linksAll rest htop.2 (fun l hl => hdown l (List.mem_append_right _ hl)) link
        hlink

end

end Links

mutual

theorem length_toList : ∀ e : Entry α, (toList e).length = size e
  | ⟨_, _, children⟩ => by
    rw [toList, size, List.length_cons, length_toListAll children, Nat.add_comm]

theorem length_toListAll : ∀ forest : List (Entry α), (toListAll forest).length = sizes forest
  | [] => rfl
  | e :: rest => by
    rw [toListAll, sizes, List.length_append, length_toList e, length_toListAll rest]

end

/-! ## Nesting at any depth -/

mutual

/-- What the entries of a tree of entries keep, each with what any entry below it keeps. -/
def nestings : Entry α → List (α × α)
  | ⟨_, data, children⟩ => (toListAll children).map (data, ·) ++ nestingsAll children

def nestingsAll : List (Entry α) → List (α × α)
  | [] => []
  | e :: rest => nestings e ++ nestingsAll rest

end

theorem nestingsAll_append (a b : List (Entry α)) :
    nestingsAll (a ++ b) = nestingsAll a ++ nestingsAll b := by
  induction a with
  | nil => rfl
  | cons e rest ih => rw [List.cons_append, nestingsAll, nestingsAll, ih, List.append_assoc]

mutual

theorem mem_toList_of_mem_nestings {a b : α} :
    ∀ e : Entry α, (a, b) ∈ nestings e → a ∈ toList e ∧ b ∈ toList e
  | ⟨_, data, children⟩, h => by
    rw [nestings, List.mem_append, List.mem_map] at h
    rw [toList]
    rcases h with ⟨c, hc, hpair⟩ | h
    · cases hpair
      exact ⟨List.mem_cons_self .., List.mem_cons_of_mem _ hc⟩
    · have hbelow := mem_toListAll_of_mem_nestingsAll children h
      exact ⟨List.mem_cons_of_mem _ hbelow.1, List.mem_cons_of_mem _ hbelow.2⟩

theorem mem_toListAll_of_mem_nestingsAll {a b : α} :
    ∀ forest : List (Entry α), (a, b) ∈ nestingsAll forest →
      a ∈ toListAll forest ∧ b ∈ toListAll forest
  | [], h => by cases h
  | e :: rest, h => by
    rw [nestingsAll, List.mem_append] at h
    rw [toListAll, List.mem_append, List.mem_append]
    rcases h with h | h
    · exact (mem_toList_of_mem_nestings e h).imp .inl .inl
    · exact (mem_toListAll_of_mem_nestingsAll rest h).imp .inr .inr

end

/-! ## Right below and on top -/

theorem mem_nestings_mk {path : String} {own a b : α} {children : List (Entry α)} :
    (a, b) ∈ nestings ⟨path, own, children⟩ ↔
      (a = own ∧ b ∈ toListAll children) ∨ (a, b) ∈ nestingsAll children := by
  rw [nestings, List.mem_append, List.mem_map]
  simp only [Prod.mk.injEq]
  grind

theorem mem_map_data_iff {a : α} : ∀ {forest : List (Entry α)}, (toListAll forest).Nodup →
    (a ∈ forest.map data ↔ a ∈ toListAll forest ∧ ∀ b, (b, a) ∉ nestingsAll forest)
  | [], _ => by simp [toListAll]
  | ⟨path, own, children⟩ :: rest, h => by
    rw [toListAll, toList, List.nodup_append', List.nodup_cons] at h
    obtain ⟨⟨hown, -⟩, hrest, hdisjoint⟩ := h
    have hbelow : ∀ {b}, (b, a) ∈ nestingsAll children → a ∈ toListAll children := fun h =>
      (mem_toListAll_of_mem_nestingsAll children h).2
    have hlater : ∀ {b}, (b, a) ∈ nestingsAll rest → a ∈ toListAll rest := fun h =>
      (mem_toListAll_of_mem_nestingsAll rest h).2
    simp only [List.map_cons, List.mem_cons, mem_map_data_iff hrest, toListAll, toList,
      List.mem_append, nestingsAll, mem_nestings_mk]
    grind [List.Disjoint]

mutual

theorem mem_links_iff {a b : α} : ∀ {e : Entry α}, (toList e).Nodup →
    ((a, b) ∈ links e ↔ (a, b) ∈ nestings e ∧ ∀ c, (a, c) ∈ nestings e → (c, b) ∉ nestings e)
  | ⟨path, own, children⟩, h => by
    rw [toList, List.nodup_cons] at h
    obtain ⟨hown, hchildren⟩ := h
    have hbelow : ∀ {b c}, (b, c) ∈ nestingsAll children →
        b ∈ toListAll children ∧ c ∈ toListAll children :=
      mem_toListAll_of_mem_nestingsAll children
    have htop : (a, b) ∈ children.map (fun e => (own, e.data)) ↔
        a = own ∧ b ∈ children.map data := by
      simp only [List.mem_map, Prod.mk.injEq]
      grind
    simp only [links, List.mem_append, htop, mem_map_data_iff hchildren,
      mem_linksAll_iff hchildren, mem_nestings_mk]
    grind

theorem mem_linksAll_iff {a b : α} : ∀ {forest : List (Entry α)}, (toListAll forest).Nodup →
    ((a, b) ∈ linksAll forest ↔
      (a, b) ∈ nestingsAll forest ∧ ∀ c, (a, c) ∈ nestingsAll forest → (c, b) ∉ nestingsAll forest)
  | [], _ => by simp [linksAll, nestingsAll]
  | e :: rest, h => by
    rw [toListAll, List.nodup_append'] at h
    obtain ⟨he, hrest, hdisjoint⟩ := h
    have hhere : ∀ {b c}, (b, c) ∈ nestings e → b ∈ toList e ∧ c ∈ toList e :=
      mem_toList_of_mem_nestings e
    have hlater : ∀ {b c}, (b, c) ∈ nestingsAll rest → b ∈ toListAll rest ∧ c ∈ toListAll rest :=
      mem_toListAll_of_mem_nestingsAll rest
    simp only [linksAll, nestingsAll, List.mem_append, mem_links_iff he, mem_linksAll_iff hrest]
    grind [List.Disjoint]

end

end Entry

end Fingerprint
