import Mathlib.Tactic.Common
import Fingerprint.Proofs.Tree.Alike
/-!
# Trees that differ in their literals

Two trees are compared node by node, from their roots down to the literals, which are not looked
into.  When the corresponding nodes agree in all but the texts that literals have a share in, they
are alike.
-/

namespace Fingerprint

namespace Node

/-! ## Literals -/

def isLiteral (n : Node) : Bool := n.named && literalKinds.contains n.kind

def hasLiteral (n : Node) : Bool := n.nodes.any isLiteral

mutual

/-- The corresponding nodes of two trees, as far down as to the literals. -/
def pairs : Node → Node → List (Node × Node)
  | n@⟨_, children⟩, n' => (n, n') :: if n.isLiteral then [] else pairsOf children n'.children

def pairsOf : List Node → List Node → List (Node × Node)
  | c :: rest, c' :: rest' => pairs c c' ++ pairsOf rest rest'
  | _, _ => []

end

theorem pairs_eq_cons (a b : Node) :
    pairs a b = (a, b) :: if a.isLiteral then [] else pairsOf a.children b.children := by
  cases a
  rfl

/-- Two trees that have the same nodes outside of literals.  A node keeps its text unless a literal
stands in it; of the literals themselves only directives keep it, big integers stay big, and the
nodes start in the same order. -/
structure SameButLiterals (t t' : Node) : Prop where
  alike : ∀ p ∈ pairs t t', p.1.kind = p.2.kind ∧ p.1.named = p.2.named ∧ p.1.field = p.2.field
  arity : ∀ p ∈ pairs t t', p.1.isLiteral = false → p.1.children.length = p.2.children.length
  text : ∀ p ∈ pairs t t', p.1.hasLiteral = false → p.1.text = p.2.text
  bigness : ∀ p ∈ pairs t t', p.1.kind = "number" → p.1.endsInN = p.2.endsInN
  directives : ∀ p ∈ pairs t t', p.1.isFunction = true → p.1.directiveTexts = p.2.directiveTexts
  order : ∀ p ∈ pairs t t', ∀ q ∈ pairs t t', p.1.start < q.1.start ↔ p.2.start < q.2.start

instance (t t' : Node) : Decidable (SameButLiterals t t') :=
  decidable_of_iff
    ((∀ p ∈ pairs t t', p.1.kind = p.2.kind ∧ p.1.named = p.2.named ∧ p.1.field = p.2.field) ∧
      (∀ p ∈ pairs t t', p.1.isLiteral = false → p.1.children.length = p.2.children.length) ∧
      (∀ p ∈ pairs t t', p.1.hasLiteral = false → p.1.text = p.2.text) ∧
      (∀ p ∈ pairs t t', p.1.kind = "number" → p.1.endsInN = p.2.endsInN) ∧
      (∀ p ∈ pairs t t', p.1.isFunction = true → p.1.directiveTexts = p.2.directiveTexts) ∧
      ∀ p ∈ pairs t t', ∀ q ∈ pairs t t', p.1.start < q.1.start ↔ p.2.start < q.2.start)
    ⟨fun ⟨halike, harity, htext, hbig, hdirectives, horder⟩ =>
      ⟨halike, harity, htext, hbig, hdirectives, horder⟩,
      fun h => ⟨h.alike, h.arity, h.text, h.bigness, h.directives, h.order⟩⟩

def Corresponds (t t' a b : Node) : Prop := (a, b) ∈ pairs t t'

theorem corresponds_self (t t' : Node) : Corresponds t t' t t' := by
  rw [Corresponds, pairs_eq_cons]
  exact List.mem_cons_self ..

mutual

theorem Corresponds.trans {a b c d : Node} (hcd : Corresponds a b c d) :
    ∀ t t' : Node, Corresponds t t' a b → Corresponds t t' c d
  | ⟨label, children⟩, t', hab => by
    rw [Corresponds, pairs, List.mem_cons] at hab ⊢
    rcases hab with hab | hab
    · cases hab
      rwa [Corresponds, pairs, List.mem_cons] at hcd
    · right
      split at hab
      · cases hab
      · rename_i hopen
        rw [if_neg hopen]
        exact mem_pairsOf_trans hcd children t'.children hab

theorem mem_pairsOf_trans {a b c d : Node} (hcd : Corresponds a b c d) :
    ∀ as bs : List Node, (a, b) ∈ pairsOf as bs → (c, d) ∈ pairsOf as bs
  | [], _, hab => by cases hab
  | _ :: _, [], hab => by cases hab
  | a' :: as, b' :: bs, hab => by
    rw [pairsOf, List.mem_append] at hab ⊢
    exact hab.imp (hcd.trans a' b') (mem_pairsOf_trans hcd as bs)

end

theorem forall₂_of_pairsOf_subset {s : List (Node × Node)} :
    ∀ {as bs : List Node}, as.length = bs.length → pairsOf as bs ⊆ s →
      List.Forall₂ (fun a b => (a, b) ∈ s) as bs
  | [], [], _, _ => .nil
  | a :: as, b :: bs, hlength, hsubset => by
    rw [pairsOf, List.append_subset] at hsubset
    exact .cons (hsubset.1 (corresponds_self a b))
      (forall₂_of_pairsOf_subset (Nat.succ.inj hlength) hsubset.2)

/-! ## Corresponding nodes are alike -/

section

variable {t t' : Node} (h : SameButLiterals t t')
include h

theorem SameButLiterals.restrict {a b : Node} (hab : Corresponds t t' a b) :
    SameButLiterals a b where
  alike p hp := h.alike p (Corresponds.trans hp t t' hab)
  arity p hp := h.arity p (Corresponds.trans hp t t' hab)
  text p hp := h.text p (Corresponds.trans hp t t' hab)
  bigness p hp := h.bigness p (Corresponds.trans hp t t' hab)
  directives p hp := h.directives p (Corresponds.trans hp t t' hab)
  order p hp q hq := h.order p (Corresponds.trans hp t t' hab) q (Corresponds.trans hq t t' hab)

theorem children_correspond {a b : Node} (hab : Corresponds t t' a b) (ha : a.isLiteral = false) :
    List.Forall₂ (Corresponds t t') a.children b.children := by
  refine forall₂_of_pairsOf_subset (h.arity _ hab ha) fun p hp => ?_
  refine Corresponds.trans ?_ t t' hab
  rw [Corresponds, pairs_eq_cons, ha]
  exact List.mem_cons_of_mem _ hp

omit h in
theorem kind_mem_of_isLiteral {n : Node} (hn : n.isLiteral = true) : n.kind ∈ literalKinds := by
  rw [isLiteral, Bool.and_eq_true, List.contains_iff_mem] at hn
  exact hn.2

theorem alike_corresponds : Alike False False isLiteral (Corresponds t t') where
  kind_eq hab := (h.alike _ hab).1
  named_eq hab := (h.alike _ hab).2.1
  kind_mem ha := List.mem_append_left _ (List.mem_append_left _ (kind_mem_of_isLiteral ha))
  children hab ha := .of_forall₂ ((children_correspond h hab ha).imp
    fun _ _ hcd => .of_rel hcd (h.alike _ hcd).2.2)
  statements {a b} _ ha hblock := by
    have hdisjoint : ∀ kind ∈ literalKinds, kind ∉ blockKinds := by decide
    exact absurd hblock (hdisjoint _ (kind_mem_of_isLiteral ha))
  hosted {a b} _ ha hhost := by
    have hdisjoint : ∀ kind ∈ literalKinds, kind ∉ hostKinds := by decide
    exact absurd hhost (hdisjoint _ (kind_mem_of_isLiteral ha))

end

end Node

end Fingerprint
