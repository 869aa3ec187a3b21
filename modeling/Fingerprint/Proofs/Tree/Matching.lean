import Mathlib.Tactic.Common
import Fingerprint.Proofs.Tree.Alike
/-!
# Trees that match

Two trees match if they have the same shape and a relation holds of any two nodes in the same place.
Children that are hidden from the comparison do not count, neither for the shape nor for the nodes.
-/

namespace Fingerprint

namespace Node

section Matching

variable (hidden : String → Node → Bool) (p : Node → Node → Prop)

mutual

/-- Whether a relation holds of two nodes and of all that is below them, but for the hidden children
of nodes of a kind. -/
def Matches : Node → Node → Prop
  | ⟨label, children⟩, b =>
    p ⟨label, children⟩ b ∧
      MatchesAmong label.kind children (b.children.filter (!hidden b.kind ·))

def MatchesAmong (kind : String) : List Node → List Node → Prop
  | [], bs => bs = []
  | c :: rest, bs =>
    if hidden kind c then MatchesAmong kind rest bs
    else
      match bs with
      | [] => False
      | d :: bs => Matches c d ∧ MatchesAmong kind rest bs

end

variable {hidden p}

theorem matchesAmong_iff {kind : String} {as bs : List Node} :
    MatchesAmong hidden p kind as bs ↔
      List.Forall₂ (Matches hidden p) (as.filter (!hidden kind ·)) bs := by
  induction as generalizing bs with
  | nil => rw [MatchesAmong, List.filter_nil, List.forall₂_nil_left_iff]
  | cons c rest ih =>
    rw [MatchesAmong.eq_def, List.filter_cons]
    cases hhidden : hidden kind c with
    | true => simpa [hhidden] using ih
    | false =>
      cases bs with
      | nil => simp [hhidden]
      | cons d bs => simp [hhidden, ih]

theorem matches_iff {a b : Node} :
    Matches hidden p a b ↔ p a b ∧ List.Forall₂ (Matches hidden p)
      (a.children.filter (!hidden a.kind ·)) (b.children.filter (!hidden b.kind ·)) := by
  cases a
  rw [Matches, matchesAmong_iff]
  rfl

mutual

instance decidableMatches [∀ a b, Decidable (p a b)] :
    ∀ a b : Node, Decidable (Matches hidden p a b)
  | ⟨label, children⟩, b =>
    have := decidableMatchesAmong label.kind children (b.children.filter (!hidden b.kind ·))
    inferInstanceAs (Decidable (p ⟨label, children⟩ b ∧
      MatchesAmong hidden p label.kind children (b.children.filter (!hidden b.kind ·))))

instance decidableMatchesAmong [∀ a b, Decidable (p a b)] (kind : String) :
    ∀ as bs : List Node, Decidable (MatchesAmong hidden p kind as bs)
  | [], bs => decidable_of_iff (bs.isEmpty = true) (by rw [MatchesAmong, List.isEmpty_iff])
  | c :: rest, [] =>
    have := decidableMatchesAmong kind rest []
    inferInstanceAs (Decidable (if hidden kind c then MatchesAmong hidden p kind rest [] else False))
  | c :: rest, d :: bs =>
    have := decidableMatches c d
    have := decidableMatchesAmong kind rest bs
    have := decidableMatchesAmong kind rest (d :: bs)
    inferInstanceAs (Decidable (if hidden kind c then MatchesAmong hidden p kind rest (d :: bs)
      else Matches hidden p c d ∧ MatchesAmong hidden p kind rest bs))

end

theorem Matches.and {q : Node → Prop} {a b : Node} (h : Matches hidden p a b)
    (hq : ∀ n ∈ a.nodes, q n) : Matches hidden (fun m n => p m n ∧ q m) a b := by
  induction a using Node.induction generalizing b with
  | node a ih =>
    rw [matches_iff] at h ⊢
    refine ⟨⟨h.1, hq a a.mem_nodes_self⟩, (forall₂_mem h.2).imp ?_⟩
    rintro c d ⟨hc, -, hcd⟩
    have hc := (List.mem_filter.1 hc).1
    exact ih c hc hcd fun n hn => hq n (mem_nodes_trans hn a (mem_nodes_of_mem_children hc))

section Shown

variable (hp : ∀ {a b : Node}, p a b → a.kind = b.kind ∧ a.named = b.named ∧ a.field = b.field)
  {a b : Node} (h : Matches hidden p a b)
include hp h

theorem Matches.filter {q : Node → Bool} (hq : ∀ c d, Matches hidden p c d → q c = q d)
    (hshown : ∀ c, q c = true → hidden a.kind c = false) :
    List.Forall₂ (Matches hidden p) (a.children.filter q) (b.children.filter q) := by
  have hall : ∀ children : List Node,
      (children.filter (!hidden a.kind ·)).filter q = children.filter q := by
    intro children
    rw [List.filter_filter]
    refine List.filter_congr fun c _ => ?_
    cases hc : q c with
    | true => rw [hshown c hc, Bool.not_false, Bool.and_true]
    | false => rw [Bool.false_and]
  obtain ⟨hab, hchildren⟩ := matches_iff.1 h
  rw [← (hp hab).1] at hchildren
  have hfound := forall₂_filter hq hchildren
  rw [hall, hall] at hfound
  exact hfound.imp fun _ _ => And.left

theorem Matches.child? {field : String}
    (hshown : ∀ c : Node, c.field = some field → hidden a.kind c = false) :
    Option.Rel (Matches hidden p) (a.child? field) (b.child? field) := by
  rw [Node.child?, Node.child?, ← List.head?_filter, ← List.head?_filter]
  refine rel_head?_of_forall₂ (Matches.filter hp h (fun c d hcd => ?_) fun c hc => ?_)
  · rw [(hp (matches_iff.1 hcd).1).2.2]
  · exact hshown c (eq_of_beq hc)

theorem Matches.parts_of_kind {kind : String}
    (hshown : ∀ c : Node, c.kind = kind → hidden a.kind c = false) :
    List.Forall₂ (Matches hidden p) (a.parts.filter (·.kind == kind))
      (b.parts.filter (·.kind == kind)) := by
  rw [parts, parts, List.filter_filter, List.filter_filter]
  refine Matches.filter hp h (fun c d hcd => ?_) fun c hc => ?_
  · obtain ⟨hkind, hnamed, -⟩ := hp (matches_iff.1 hcd).1
    rw [isSignificant, isSignificant, isComment, isComment, hkind, hnamed]
  · rw [Bool.and_eq_true, beq_iff_eq] at hc
    exact hshown c hc.1

end Shown

/-- Matching nodes are akin if those of which something is hidden are closed. -/
theorem akin_matches {closed : Node → Bool}
    (hp : ∀ {a b : Node}, p a b → a.kind = b.kind ∧ a.named = b.named ∧ a.field = b.field)
    (hclosed : ∀ {a : Node}, closed a = true → a.kind ∈ keepingKinds)
    (hopen : ∀ {a : Node}, closed a = false → ∀ c, hidden a.kind c = false) :
    Akin False False closed (Matches hidden p) where
  kind_eq h := (hp (matches_iff.1 h).1).1
  named_eq h := (hp (matches_iff.1 h).1).2.1
  kind_mem_or ha := .inr (hclosed ha)
  children {a b} h ha := by
    obtain ⟨hab, hchildren⟩ := matches_iff.1 h
    have hall : ∀ children : List Node, children.filter (!hidden a.kind ·) = children :=
      fun children => List.filter_eq_self.2 fun c _ => by rw [hopen ha c, Bool.not_false]
    rw [← (hp hab).1, hall, hall] at hchildren
    exact .of_forall₂ (hchildren.imp fun c d hcd => .of_rel hcd (hp (matches_iff.1 hcd).1).2.2)
  statements {a b} _ ha hblock := by
    have hdisjoint : ∀ kind ∈ keepingKinds, kind ∉ blockKinds := by decide
    exact absurd hblock (hdisjoint _ (hclosed ha))
  hosted {a b} _ ha hhost := by
    have hdisjoint : ∀ kind ∈ keepingKinds, kind ∉ hostKinds := by decide
    exact absurd hhost (hdisjoint _ (hclosed ha))

end Matching

end Node

end Fingerprint
