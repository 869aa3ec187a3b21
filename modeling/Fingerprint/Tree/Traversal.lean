import Fingerprint.Tree.Walk
/-!
# Walks without recursion

Source texts can be nested deeper than a call stack is high.  The same walk is therefore made by one
loop, which moves a cursor over the tree and keeps a stack of frames, one for each node that the
walk is inside of.
-/

namespace Fingerprint

namespace Node

mutual

/-- Number of nodes in a tree. -/
def size : Node → Nat
  | ⟨_, children⟩ => 1 + sizes children

def sizes : List Node → Nat
  | [] => 0
  | c :: rest => size c + sizes rest

end

theorem size_pos (n : Node) : 0 < n.size := by
  cases n
  rw [size]
  omega

end Node

/-- A place in a tree that is moved about below the node it was put on. -/
structure Cursor where
  node : Node
  /-- The steps down from where the cursor was put, the last step first. -/
  way : List Step
  /-- The steps that lead there, which the cursor never takes back. -/
  base : List Step

namespace Cursor

def site (c : Cursor) : Site := ⟨c.node, c.way ++ c.base⟩

def firstChild? (c : Cursor) : Option Cursor :=
  c.node.children.head?.map fun child => ⟨child, ⟨c.node, 0⟩ :: c.way, c.base⟩

def nextSibling? (c : Cursor) : Option Cursor :=
  match c.way with
  | [] => none
  | ⟨parent, index⟩ :: way =>
    parent.children[index + 1]?.map fun sibling => ⟨sibling, ⟨parent, index + 1⟩ :: way, c.base⟩

def parent? (c : Cursor) : Option Cursor :=
  match c.way with
  | [] => none
  | step :: way => some ⟨step.parent, way, c.base⟩

/-- Number of nodes that come after a way down and all that is below its end. -/
def later : List Step → Nat
  | [] => 0
  | step :: way => Node.sizes (step.parent.children.drop (step.index + 1)) + later way

/-- Number of nodes that a walk in pre-order has not passed yet. -/
def ahead (c : Cursor) : Nat := c.node.size + later c.way

theorem ahead_firstChild?_lt {c first : Cursor} (h : c.firstChild? = some first) :
    first.ahead < c.ahead := by
  obtain ⟨⟨label, children⟩, way, base⟩ := c
  cases children with
  | nil => cases h
  | cons child rest =>
    cases h
    simp only [ahead, later, Nat.zero_add, List.drop_succ_cons, List.drop_zero, Node.size,
      Node.sizes]
    omega

theorem ahead_nextSibling? {c next : Cursor} (h : c.nextSibling? = some next) :
    next.ahead = later c.way := by
  obtain ⟨node, _ | ⟨⟨parent, index⟩, way⟩, base⟩ := c
  · cases h
  · obtain ⟨sibling, hsibling, rfl⟩ := Option.map_eq_some_iff.1 h
    obtain ⟨hindex, rfl⟩ := List.getElem?_eq_some_iff.1 hsibling
    simp only [ahead, later, List.drop_eq_getElem_cons hindex, Node.sizes]
    omega

theorem later_parent?_le {c up : Cursor} (h : c.parent? = some up) :
    later up.way ≤ later c.way := by
  obtain ⟨node, _ | ⟨step, way⟩, base⟩ := c
  · cases h
  · cases h
    simp [later]

end Cursor

/-- A node that a walk is inside of. -/
structure Frame (α : Type) where
  path : String
  /-- What the visitor kept for the node. -/
  data : Option α := none
  /-- What was kept below the node so far. -/
  collected : List (Entry α) := []
  /-- Index of the child that is taken next, among all children. -/
  nextIndex : Nat := 0

/-- Puts what a finished frame kept into the frame around it. -/
def Frame.absorb {α : Type} (outer inner : Frame α) : Frame α :=
  match inner.data with
  | some data =>
    { outer with collected := outer.collected ++ [⟨inner.path, data, inner.collected⟩] }
  | none => { outer with collected := outer.collected ++ inner.collected }

/-- A walk under way: where it is, and the frames around that place, the innermost apart. -/
structure Traversal (α : Type) where
  cursor : Cursor
  top : Frame α
  below : List (Frame α) := []

namespace Traversal

variable {α : Type}

/-- Moves on to the next sibling, or closes frames on the way up until there is one.  The walk is
over when the outermost frame has no sibling left. -/
def advance (cursor : Cursor) (top : Frame α) (below : List (Frame α)) :
    Traversal α ⊕ List (Entry α) :=
  match cursor.nextSibling? with
  | some next => .inl ⟨next, top, below⟩
  | none =>
    match below with
    | [] => .inr top.collected
    | outer :: rest =>
      match cursor.parent? with
      -- Only with more frames than steps down, which no walk comes to.
      | none => .inr top.collected
      | some up => advance up (outer.absorb top) rest

theorem ahead_advance_le {top : Frame α} {below : List (Frame α)} {t : Traversal α}
    {cursor : Cursor} (h : advance cursor top below = .inl t) :
    t.cursor.ahead ≤ Cursor.later cursor.way := by
  induction below generalizing cursor top with
  | nil =>
    rw [advance] at h
    split at h
    case h_1 next hnext =>
      cases h
      exact Nat.le_of_eq (Cursor.ahead_nextSibling? hnext)
    case h_2 => cases h
  | cons outer rest ih =>
    rw [advance] at h
    split at h
    case h_1 next hnext =>
      cases h
      exact Nat.le_of_eq (Cursor.ahead_nextSibling? hnext)
    case h_2 =>
      split at h
      case h_1 => cases h
      case h_2 up hup => exact Nat.le_trans (ih h) (Cursor.later_parent?_le hup)

/-- Address of the node under the cursor. -/
def path (t : Traversal α) : String := t.cursor.node.childPath t.top.path t.top.nextIndex

/-- Goes on from the node under the cursor.  There is an answer if the node was offered. -/
def next (t : Traversal α) (answer : Option (Signal α)) : Traversal α ⊕ List (Entry α) :=
  let top := { t.top with nextIndex := t.top.nextIndex + 1 }
  match answer with
  | none => advance t.cursor top t.below
  | some signal =>
    match signal.descend, t.cursor.firstChild? with
    | true, some first => .inl ⟨first, { path := t.path, data := signal.data }, top :: t.below⟩
    | _, _ =>
      advance t.cursor { top with collected := top.collected ++ signal.collect t.path [] } t.below

theorem ahead_next_lt {t later : Traversal α} {answer : Option (Signal α)}
    (h : t.next answer = .inl later) : later.cursor.ahead < t.cursor.ahead := by
  have hadvance : ∀ {top : Frame α}, advance t.cursor top t.below = .inl later →
      later.cursor.ahead < t.cursor.ahead := fun h =>
    Nat.lt_of_le_of_lt (ahead_advance_le h) (Nat.lt_add_of_pos_left t.cursor.node.size_pos)
  unfold next at h
  split at h
  · exact hadvance h
  · split at h
    case h_1 first _ hfirst =>
      cases h
      exact Cursor.ahead_firstChild?_lt hfirst
    case h_2 => exact hadvance h

variable {m : Type → Type} [Monad m]

/-- Offers the node under the cursor to the visitor, if it is significant. -/
def ask (visit : String → Site → m (Signal α)) (t : Traversal α) : m (Option (Signal α)) :=
  if t.cursor.node.isSignificant then some <$> visit t.path t.cursor.site else pure none

/-- Walks on to the end, which every turn of the loop brings nearer. -/
def loop (visit : String → Site → m (Signal α)) (t : Traversal α) : m (List (Entry α)) := do
  let answer ← t.ask visit
  match h : t.next answer with
  | .inl later =>
    have := ahead_next_lt h
    loop visit later
  | .inr forest => pure forest
termination_by t.cursor.ahead

end Traversal

/-- Walks what is below a root, as `Site.walk` does, in a loop. -/
def Site.traverse {m : Type → Type} [Monad m] {α : Type} (visit : String → Site → m (Signal α))
    (root : Site) : m (List (Entry α)) :=
  match (Cursor.mk root.node [] root.above).firstChild? with
  | none => pure []
  | some first => Traversal.loop visit ⟨first, { path := root.node.kind }, []⟩

end Fingerprint
