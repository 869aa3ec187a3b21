import Fingerprint.Proofs.Tree.Nodes
import Fingerprint.Tree.Traversal
/-!
# The loop and the recursion

The loop of a traversal passes a node just as the recursion does: put on a node, it comes to the
place behind the node with the frame around it grown by what the recursion finds there.  This holds
whatever the visitor does besides answering, so it is stated for every monad.
-/

namespace Fingerprint

namespace Frame

variable {α : Type}

def took (f : Frame α) (index : Nat) (found : List (Entry α)) : Frame α :=
  { f with collected := f.collected ++ found, nextIndex := index }

theorem absorb_eq (outer inner : Frame α) :
    outer.absorb inner = outer.took outer.nextIndex
      (Signal.collect ⟨inner.data, true⟩ inner.path inner.collected) := by
  unfold absorb
  cases h : inner.data <;> simp [took, Signal.collect]

theorem took_took (f : Frame α) (i j : Nat) (a b : List (Entry α)) :
    (f.took i a).took j b = f.took j (a ++ b) := by
  simp [took]

end Frame

namespace Traversal

variable {m : Type → Type} [Monad m] {α : Type}

def resume (visit : String → Site → m (Signal α)) :
    Traversal α ⊕ List (Entry α) → m (List (Entry α))
  | .inl t => loop visit t
  | .inr forest => pure forest

theorem loop_eq (visit : String → Site → m (Signal α)) (t : Traversal α) :
    loop visit t = t.ask visit >>= fun answer => resume visit (t.next answer) := by
  rw [loop]
  congr 1
  funext answer
  split
  case h_1 later h => exact (congrArg (resume visit) h).symm
  case h_2 forest h => exact (congrArg (resume visit) h).symm

def close (cursor : Cursor) (top : Frame α) : List (Frame α) → Traversal α ⊕ List (Entry α)
  | [] => .inr top.collected
  | outer :: rest => advance cursor (outer.absorb top) rest

theorem advance_of_last {c parent : Node} {index : Nat} {way base : List Step} {top : Frame α}
    {below : List (Frame α)} (h : parent.children[index + 1]? = none) :
    advance ⟨c, ⟨parent, index⟩ :: way, base⟩ top below = close ⟨parent, way, base⟩ top below := by
  unfold advance
  simp only [Cursor.nextSibling?, h, Option.map_none]
  cases below <;> rfl

theorem advance_of_sibling {c sibling parent : Node} {index : Nat} {way base : List Step}
    {top : Frame α} {below : List (Frame α)} (h : parent.children[index + 1]? = some sibling) :
    advance ⟨c, ⟨parent, index⟩ :: way, base⟩ top below =
      .inl ⟨⟨sibling, ⟨parent, index + 1⟩ :: way, base⟩, top, below⟩ := by
  unfold advance
  simp only [Cursor.nextSibling?, h, Option.map_some]

theorem close_took (cursor : Cursor) (top : Frame α) (i j : Nat) (found : List (Entry α))
    (below : List (Frame α)) :
    close cursor (top.took i found) below = close cursor (top.took j found) below := by
  cases below with
  | nil => rfl
  | cons outer rest => rfl

variable [LawfulMonad m] {visit : String → Site → m (Signal α)}

theorem loop_of_not_isSignificant {c : Cursor} {top : Frame α} {below : List (Frame α)}
    (h : c.node.isSignificant = false) :
    loop visit ⟨c, top, below⟩ =
      resume visit (advance c (top.took (top.nextIndex + 1) []) below) := by
  rw [loop_eq, ask, h]
  simp [next, Frame.took]

mutual

theorem loop_node (parent : Node) (way base : List Step) :
    ∀ (n : Node) (index : Nat) (top : Frame α) (below : List (Frame α)),
      n.isSignificant → top.nextIndex = index →
      loop visit ⟨⟨n, ⟨parent, index⟩ :: way, base⟩, top, below⟩ = do
        let found ← Node.walkAt visit (n.childPath top.path index)
          (⟨parent, index⟩ :: (way ++ base)) n
        resume visit (advance ⟨n, ⟨parent, index⟩ :: way, base⟩
          (top.took (index + 1) found) below)
  | ⟨label, children⟩, _, top, below, hsig, rfl => by
    rw [loop_eq, ask, if_pos hsig, Node.walkAt]
    simp only [map_eq_pure_bind, bind_assoc, pure_bind]
    refine congrArg _ (funext fun ⟨data, descend⟩ => ?_)
    cases descend with
    | false => simp [next, Frame.took, path]
    | true =>
      cases children with
      | nil => simp [next, Cursor.firstChild?, Node.walkAll, Frame.took, path]
      | cons c rest =>
        have hbelow := loop_children ⟨label, c :: rest⟩ (⟨parent, top.nextIndex⟩ :: way) base
          (c :: rest) 0 c
          { path := Node.childPath top.path top.nextIndex ⟨label, c :: rest⟩, data := data }
          ({ top with nextIndex := top.nextIndex + 1 } :: below) rfl rfl rfl
        simp only [next, Cursor.firstChild?, List.head?_cons, Option.map_some, resume, path,
          if_true, bind_assoc, pure_bind]
        rw [hbelow]
        refine congrArg _ (funext fun inner => ?_)
        rw [close, Frame.absorb_eq]
        rfl

theorem loop_children (parent : Node) (way base : List Step) :
    ∀ (children : List Node) (index : Nat) (c : Node) (top : Frame α) (below : List (Frame α)),
      children.head? = some c → parent.children.drop index = children → top.nextIndex = index →
      loop visit ⟨⟨c, ⟨parent, index⟩ :: way, base⟩, top, below⟩ = do
        let inner ← Node.walkAll visit top.path (way ++ base) parent index children
        resume visit (close ⟨parent, way, base⟩ (top.took index inner) below)
  | c :: rest, index, _, top, below, rfl, hdrop, hindex => by
    have hrest : parent.children.drop (index + 1) = rest := by
      rw [← List.tail_drop, hdrop, List.tail_cons]
    -- What happens behind `c`, once `found` was kept for it.
    have hbehind : ∀ found, resume visit (advance ⟨c, ⟨parent, index⟩ :: way, base⟩
        (top.took (index + 1) found) below) = (do
          let later ← Node.walkAll visit top.path (way ++ base) parent (index + 1) rest
          resume visit (close ⟨parent, way, base⟩ (top.took index (found ++ later)) below)) := by
      intro found
      cases rest with
      | nil =>
        have hlast : parent.children[index + 1]? = none := by
          rw [← List.head?_drop, hrest, List.head?_nil]
        rw [advance_of_last hlast, Node.walkAll, pure_bind, List.append_nil,
          close_took _ _ index]
      | cons d rest =>
        have hsibling : parent.children[index + 1]? = some d := by
          rw [← List.head?_drop, hrest, List.head?_cons]
        rw [advance_of_sibling hsibling, resume,
          loop_children parent way base (d :: rest) (index + 1) d _ _ rfl hrest rfl]
        refine congrArg _ (funext fun later => ?_)
        rw [Frame.took_took, close_took _ _ index]
    rw [Node.walkAll]
    split
    case isTrue hsig =>
      rw [loop_node parent way base c index top below hsig hindex]
      simp only [bind_assoc, pure_bind]
      exact congrArg _ (funext hbehind)
    case isFalse hsig =>
      rw [loop_of_not_isSignificant (eq_false_of_ne_true hsig), hindex, hbehind]
      rfl

end

end Traversal

theorem Site.traverse_eq_walk {m : Type → Type} [Monad m] [LawfulMonad m] {α : Type}
    (visit : String → Site → m (Signal α)) (root : Site) :
    root.traverse visit = root.walk visit := by
  obtain ⟨⟨label, children⟩, above⟩ := root
  cases children with
  | nil => rfl
  | cons c rest =>
    have hloop : Site.traverse visit ⟨⟨label, c :: rest⟩, above⟩ = _ :=
      Traversal.loop_children ⟨label, c :: rest⟩ [] above (c :: rest) 0 c { path := label.kind }
        [] rfl rfl rfl
    rw [hloop]
    simp only [Traversal.close, Frame.took, Traversal.resume, List.nil_append, bind_pure]
    rfl

end Fingerprint
