import Mathlib.Data.List.Forall2
import Fingerprint.Tree.Site
import Fingerprint.Tree.Walk
/-!
# Nodes below a node

The nodes of a tree in pre-order, what the parser promises of each of them, and what a filtered
walk keeps when no answer of its visitor stops it.
-/

namespace Fingerprint

namespace Node

mutual

@[elab_as_elim]
theorem induction {p : Node → Prop} (node : ∀ n : Node, (∀ c ∈ n.children, p c) → p n) :
    ∀ n : Node, p n
  | ⟨label, children⟩ => node ⟨label, children⟩ (forall_mem_of_induction node children)

theorem forall_mem_of_induction {p : Node → Prop}
    (node : ∀ n : Node, (∀ c ∈ n.children, p c) → p n) :
    ∀ children : List Node, ∀ c ∈ children, p c
  | [] => List.forall_mem_nil _
  | c :: rest =>
    List.forall_mem_cons.2 ⟨induction node c, forall_mem_of_induction node rest⟩

end

mutual

def nodes : Node → List Node
  | n@⟨_, children⟩ => n :: nodesOf children

def nodesOf : List Node → List Node
  | [] => []
  | c :: rest => nodes c ++ nodesOf rest

end

def descendants (n : Node) : List Node := nodesOf n.children

theorem nodes_eq_cons (n : Node) : n.nodes = n :: n.descendants := by
  cases n
  rfl

theorem mem_nodes_self (n : Node) : n ∈ n.nodes := by
  rw [nodes_eq_cons]
  exact List.mem_cons_self ..

theorem mem_nodesOf {n : Node} {children : List Node} :
    n ∈ nodesOf children ↔ ∃ c ∈ children, n ∈ c.nodes := by
  induction children with
  | nil => simp [nodesOf]
  | cons c rest ih => simp [nodesOf, ih]

theorem mem_nodes_iff {m n : Node} : m ∈ n.nodes ↔ m = n ∨ ∃ c ∈ n.children, m ∈ c.nodes := by
  rw [nodes_eq_cons, List.mem_cons, descendants, mem_nodesOf]

theorem mem_nodes_of_mem_children {c n : Node} (h : c ∈ n.children) : c ∈ n.nodes :=
  mem_nodes_iff.2 (.inr ⟨c, h, c.mem_nodes_self⟩)

mutual

theorem mem_nodes_trans {l m : Node} (hl : l ∈ m.nodes) : ∀ n : Node, m ∈ n.nodes → l ∈ n.nodes
  | ⟨label, children⟩, hm => by
    rcases List.mem_cons.1 hm with rfl | hm
    · exact hl
    · exact List.mem_cons_of_mem _ (mem_nodesOf_trans hl children hm)

theorem mem_nodesOf_trans {l m : Node} (hl : l ∈ m.nodes) :
    ∀ children : List Node, m ∈ nodesOf children → l ∈ nodesOf children
  | [], hm => by cases hm
  | c :: rest, hm => by
    rw [nodesOf, List.mem_append] at hm ⊢
    exact hm.imp (mem_nodes_trans hl c) (mem_nodesOf_trans hl rest)

end

theorem mem_children_of_mem_parts {c n : Node} (h : c ∈ n.parts) : c ∈ n.children :=
  (List.mem_filter.1 h).1

theorem mem_children_of_child? {c n : Node} {field : String} (h : n.child? field = some c) :
    c ∈ n.children :=
  List.mem_of_find?_eq_some h

theorem field_of_child? {c n : Node} {field : String} (h : n.child? field = some c) :
    c.field = some field := by
  rw [child?, List.find?_eq_some_iff_append] at h
  exact eq_of_beq h.1

theorem bare_of_ne {n : Node} (h : n.kind ≠ "parenthesized_expression") : n.bare = n := by
  cases n
  rw [bare]
  exact if_neg h

theorem bareFirst_eq (outer : Node) (children : List Node) :
    bareFirst outer children = ((children.find? isSignificant).map bare).getD outer := by
  induction children with
  | nil => rfl
  | cons c rest ih =>
    rw [bareFirst, List.find?_cons]
    cases c.isSignificant <;> simp [ih]

theorem bare_of_parentheses {n : Node} (h : n.kind = "parenthesized_expression") :
    n.bare = ((n.children.find? isSignificant).map bare).getD n := by
  cases n
  rw [bare, bareFirst_eq]
  exact if_pos h

mutual

theorem bare_mem_nodes : ∀ n : Node, n.bare ∈ n.nodes
  | ⟨label, children⟩ => by
    rw [bare]
    split
    · rcases bareFirst_mem ⟨label, children⟩ children with hsame | hbelow
      · rw [hsame]
        exact mem_nodes_self _
      · exact List.mem_cons_of_mem _ hbelow
    · exact mem_nodes_self _

theorem bareFirst_mem (outer : Node) :
    ∀ children : List Node, bareFirst outer children = outer ∨
      bareFirst outer children ∈ nodesOf children
  | [] => .inl rfl
  | c :: rest => by
    rw [bareFirst, nodesOf]
    split
    · exact .inr (List.mem_append_left _ (bare_mem_nodes c))
    · exact (bareFirst_mem outer rest).imp_right (List.mem_append_right _)

end

end Node

namespace Site

mutual

theorem map_node_below (above : List Step) : ∀ n : Node, (below above n).map node = n.nodes
  | ⟨label, children⟩ => by
    simp only [below, Node.nodes, List.map_cons, map_node_belowAll]

theorem map_node_belowAll (above : List Step) (parent : Node) (index : Nat) :
    ∀ children : List Node,
      (belowAll above parent index children).map node = Node.nodesOf children
  | [] => rfl
  | c :: rest => by
    rw [belowAll, List.map_append, map_node_below, map_node_belowAll above parent (index + 1) rest,
      Node.nodesOf]

end

end Site

namespace Entry

variable {α : Type}

@[simp] theorem toListAll_append (a b : List (Entry α)) :
    toListAll (a ++ b) = toListAll a ++ toListAll b := by
  induction a with
  | nil => rfl
  | cons e rest ih => simp [toListAll, ih]

end Entry

theorem Signal.toListAll_collect {α : Type} (signal : Signal α) (path : String)
    (inner : List (Entry α)) :
    Entry.toListAll (signal.collect path inner) = signal.data.toList ++ Entry.toListAll inner := by
  unfold collect
  cases signal.data <;> simp [Entry.toListAll, Entry.toList]

/-! ## Walks that may fail -/

variable {ε α : Type}

theorem bind_eq_ok {β : Type} {x : Except ε α} {f : α → Except ε β} {b : β} :
    (x >>= f) = .ok b ↔ ∃ a, x = .ok a ∧ f a = .ok b := by
  cases x with
  | error fault => simp [bind, Except.bind]
  | ok a => simp [bind, Except.bind]

theorem bind_eq_error {β : Type} {x : Except ε α} {f : α → Except ε β} {e : ε} :
    (x >>= f) = .error e ↔ x = .error e ∨ ∃ a, x = .ok a ∧ f a = .error e := by
  cases x with
  | error fault => simp [bind, Except.bind]
  | ok a => simp [bind, Except.bind]

theorem toOption_bind {β : Type} (x : Except ε α) (f : α → Except ε β) :
    (x >>= f).toOption = x.toOption.bind fun a => (f a).toOption := by
  cases x <;> rfl

theorem toOption_map {β : Type} (x : Except ε α) (f : α → β) :
    (x.map f).toOption = x.toOption.map f := by
  cases x <;> rfl

theorem toOption_eq_some {x : Except ε α} {a : α} : x.toOption = some a ↔ x = .ok a := by
  cases x with
  | error fault => exact iff_of_false (nomatch ·) (nomatch ·)
  | ok b => simp [Except.toOption]

theorem map_eq_error {β : Type} {x : Except ε α} {f : α → β} {e : ε} :
    x.map f = .error e ↔ x = .error e := by
  cases x with
  | error fault => simp [Except.map]
  | ok a => simp [Except.map]

theorem map_eq_ok {β : Type} {x : Except ε α} {f : α → β} {b : β} :
    x.map f = .ok b ↔ ∃ a, x = .ok a ∧ f a = b := by
  cases x with
  | error fault => simp [Except.map]
  | ok a => simp [Except.map]

theorem forall₂_of_mapM_eq_ok {β : Type} {f : α → Except ε β} {items : List α} {results : List β}
    (h : items.mapM f = .ok results) : List.Forall₂ (fun a b => f a = .ok b) items results := by
  induction items generalizing results with
  | nil =>
    cases h
    exact .nil
  | cons a rest ih =>
    rw [List.mapM_cons, bind_eq_ok] at h
    obtain ⟨b, hb, h⟩ := h
    rw [bind_eq_ok] at h
    obtain ⟨later, hlater, h⟩ := h
    cases h
    exact .cons hb (ih hlater)

namespace Node

variable {visit : String → Site → Except ε (Signal α)} {p : α → Prop}

mutual

theorem forall_mem_walkAt
    (hvisit : ∀ path s signal, visit path s = .ok signal → ∀ a ∈ signal.data, p a) :
    ∀ (n : Node) {path : String} {above : List Step} {found : List (Entry α)},
      walkAt visit path above n = .ok found → ∀ a ∈ Entry.toListAll found, p a
  | ⟨label, children⟩, path, above, found, hwalk => by
    rw [walkAt, bind_eq_ok] at hwalk
    obtain ⟨signal, hsignal, hwalk⟩ := hwalk
    have hown : ∀ a ∈ signal.data.toList, p a := by
      simpa using hvisit _ _ _ hsignal
    split at hwalk
    · rw [bind_eq_ok] at hwalk
      obtain ⟨inner, hinner, hwalk⟩ := hwalk
      cases hwalk
      rw [Signal.toListAll_collect, List.forall_mem_append]
      exact ⟨hown, forall_mem_walkAll hvisit children hinner⟩
    · cases hwalk
      rw [Signal.toListAll_collect, List.forall_mem_append]
      exact ⟨hown, List.forall_mem_nil _⟩

theorem forall_mem_walkAll
    (hvisit : ∀ path s signal, visit path s = .ok signal → ∀ a ∈ signal.data, p a) :
    ∀ (children : List Node) {path : String} {above : List Step} {parent : Node} {index : Nat}
      {found : List (Entry α)},
      walkAll visit path above parent index children = .ok found →
        ∀ a ∈ Entry.toListAll found, p a
  | [], path, above, parent, index, found, hwalk => by
    cases hwalk
    exact List.forall_mem_nil _
  | c :: rest, path, above, parent, index, found, hwalk => by
    rw [walkAll] at hwalk
    split at hwalk
    · rw [bind_eq_ok] at hwalk
      obtain ⟨here, hhere, hwalk⟩ := hwalk
      rw [bind_eq_ok] at hwalk
      obtain ⟨later, hlater, hwalk⟩ := hwalk
      cases hwalk
      rw [Entry.toListAll_append, List.forall_mem_append]
      exact ⟨forall_mem_walkAt hvisit c hhere, forall_mem_walkAll hvisit rest hlater⟩
    · exact forall_mem_walkAll hvisit rest hwalk

end

mutual

/-- A walk that fails does so with a fault of its visitor at a node that it came to. -/
theorem exists_visit_of_walkAt_eq_error {e : ε} :
    ∀ (n : Node) {path : String} {above : List Step}, walkAt visit path above n = .error e →
      ∃ path s, s.node ∈ n.nodes ∧ visit path s = .error e
  | ⟨label, children⟩, path, above, hwalk => by
    rw [walkAt, bind_eq_error] at hwalk
    rcases hwalk with hvisit | ⟨signal, -, hwalk⟩
    · exact ⟨path, _, mem_nodes_self _, hvisit⟩
    · split at hwalk
      · rw [bind_eq_error] at hwalk
        rcases hwalk with hinner | ⟨inner, -, hpure⟩
        · obtain ⟨path, s, hs, hvisit⟩ := exists_visit_of_walkAll_eq_error children hinner
          exact ⟨path, s, List.mem_cons_of_mem _ hs, hvisit⟩
        · cases hpure
      · cases hwalk

theorem exists_visit_of_walkAll_eq_error {e : ε} :
    ∀ (children : List Node) {path : String} {above : List Step} {parent : Node} {index : Nat},
      walkAll visit path above parent index children = .error e →
        ∃ path s, s.node ∈ nodesOf children ∧ visit path s = .error e
  | [], path, above, parent, index, hwalk => by cases hwalk
  | c :: rest, path, above, parent, index, hwalk => by
    have hlater : walkAll visit path above parent (index + 1) rest = .error e →
        ∃ path s, s.node ∈ nodesOf (c :: rest) ∧ visit path s = .error e := by
      intro hrest
      obtain ⟨path, s, hs, hvisit⟩ := exists_visit_of_walkAll_eq_error rest hrest
      exact ⟨path, s, List.mem_append_right _ hs, hvisit⟩
    rw [walkAll] at hwalk
    split at hwalk
    · rw [bind_eq_error] at hwalk
      rcases hwalk with hhere | ⟨here, -, hwalk⟩
      · obtain ⟨path, s, hs, hvisit⟩ := exists_visit_of_walkAt_eq_error c hhere
        exact ⟨path, s, List.mem_append_left _ hs, hvisit⟩
      · rw [bind_eq_error] at hwalk
        rcases hwalk with hrest | ⟨later, -, hpure⟩
        · exact hlater hrest
        · cases hpure
    · exact hlater hwalk

end

end Node

theorem Site.exists_visit_of_walk_eq_error {visit : String → Site → Except ε (Signal α)} {e : ε}
    {root : Site} (h : root.walk visit = .error e) :
    ∃ path s, s.node ∈ root.node.descendants ∧ visit path s = .error e :=
  Node.exists_visit_of_walkAll_eq_error root.node.children h

theorem Site.forall_mem_walk {visit : String → Site → Except ε (Signal α)} {p : α → Prop}
    (hvisit : ∀ path s signal, visit path s = .ok signal → ∀ a ∈ signal.data, p a) {root : Site}
    {found : List (Entry α)} (h : root.walk visit = .ok found) :
    ∀ a ∈ Entry.toListAll found, p a :=
  Node.forall_mem_walkAll hvisit root.node.children h

/-! ## Sites that a walk offers -/

namespace Site

mutual

/-- The sites that a walk offers to a visitor that asks no paths, from a node on; below a site they
are offered if its answer is to go on. -/
def offeredAt (visit : Site → Except ε (Signal α)) (above : List Step) : Node → List Site
  | n@⟨_, children⟩ =>
    ⟨n, above⟩ ::
      match visit ⟨n, above⟩ with
      | .ok signal => if signal.descend then offeredAll visit above n 0 children else []
      | .error _ => []

def offeredAll (visit : Site → Except ε (Signal α)) (above : List Step) (parent : Node)
    (index : Nat) : List Node → List Site
  | [] => []
  | c :: rest =>
    (if c.isSignificant then offeredAt visit (⟨parent, index⟩ :: above) c else []) ++
      offeredAll visit above parent (index + 1) rest

end

/-- The sites below a root that a walk offers, as far as it comes without a fault. -/
def offered (visit : Site → Except ε (Signal α)) (root : Site) : List Site :=
  offeredAll visit root.above root.node 0 root.node.children

variable {visit : Site → Except ε (Signal α)}

mutual

theorem forall_offeredAt_of_walkAt :
    ∀ (n : Node) {path : String} {above : List Step} {found : List (Entry α)},
      Node.walkAt (fun _ s => visit s) path above n = .ok found →
        ∀ s ∈ offeredAt visit above n, ∃ signal, visit s = .ok signal
  | ⟨label, children⟩, path, above, found, hwalk => by
    rw [Node.walkAt, bind_eq_ok] at hwalk
    obtain ⟨signal, hsignal, hwalk⟩ := hwalk
    rw [offeredAt, hsignal, List.forall_mem_cons]
    refine ⟨⟨signal, hsignal⟩, ?_⟩
    by_cases hdescend : signal.descend = true
    · rw [if_pos hdescend, bind_eq_ok] at hwalk
      obtain ⟨inner, hinner, -⟩ := hwalk
      simp only [hdescend, if_true]
      exact forall_offeredAll_of_walkAll children hinner
    · simp [hdescend]

theorem forall_offeredAll_of_walkAll :
    ∀ (children : List Node) {path : String} {above : List Step} {parent : Node} {index : Nat}
      {found : List (Entry α)},
      Node.walkAll (fun _ s => visit s) path above parent index children = .ok found →
        ∀ s ∈ offeredAll visit above parent index children, ∃ signal, visit s = .ok signal
  | [], path, above, parent, index, found, hwalk, s, hs => by cases hs
  | c :: rest, path, above, parent, index, found, hwalk, s, hs => by
    rw [Node.walkAll] at hwalk
    rw [offeredAll, List.mem_append] at hs
    by_cases hsig : c.isSignificant = true
    · rw [if_pos hsig, bind_eq_ok] at hwalk
      obtain ⟨here, hhere, hwalk⟩ := hwalk
      rw [bind_eq_ok] at hwalk
      obtain ⟨later, hlater, -⟩ := hwalk
      rw [if_pos hsig] at hs
      rcases hs with hs | hs
      · exact forall_offeredAt_of_walkAt c hhere s hs
      · exact forall_offeredAll_of_walkAll rest hlater s hs
    · rw [if_neg hsig] at hwalk hs
      rcases hs with hs | hs
      · cases hs
      · exact forall_offeredAll_of_walkAll rest hwalk s hs

end

theorem forall_offered_of_walk {root : Site} {found : List (Entry α)}
    (h : root.walk (fun _ s => visit s) = .ok found) :
    ∀ s ∈ root.offered visit, ∃ signal, visit s = .ok signal :=
  forall_offeredAll_of_walkAll root.node.children h

end Site

end Fingerprint
