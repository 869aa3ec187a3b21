import Fingerprint.Tree.Prologue
import Fingerprint.Proofs.Tree.Walks
import Fingerprint.Proofs.Tree.WalksAlike
/-!
# Directive prologues

The directives are just the statements of the prologues: of the longest runs of string statements at
the start of programs and of function bodies.  The one exception are programs that begin with a
hash-bang line, which is not a string statement, so that no directive can follow it.
-/

namespace Fingerprint.Site

def IsBody (s : Site) : Prop :=
  s.node.kind = "program" ∨
    s.node.kind = "statement_block" ∧ ∃ owner ∈ s.parentNode?, owner.isFunction = true

def hasHashBang (s : Site) : Bool :=
  s.node.kind == "program" && s.node.parts.head?.any (·.kind == "hash_bang_line")

/-- The statements of a body.  The hash-bang line of a program is none of them. -/
def statements (s : Site) : List Site := if s.hasHashBang then s.parts.tail else s.parts

/-- The directive prologue of a body: the longest run of string statements at its start. -/
def prologue (s : Site) : List Site := s.statements.takeWhile (·.node.isStringStatement)

/-! ## Parts -/

theorem exists_partsFrom_eq {s : Site} {children : List Node} {i : Nat} {c : Node} (index : Nat)
    (hc : children[i]? = some c) (hsig : c.isSignificant = true) :
    ∃ before after, s.partsFrom index children = before ++ s.child (index + i) c :: after ∧
      before.map node = (children.take i).filter Node.isSignificant := by
  induction children generalizing i index with
  | nil => cases hc
  | cons d rest ih =>
    rw [partsFrom]
    cases i with
    | zero =>
      cases hc
      rw [if_pos hsig]
      exact ⟨[], _, rfl, rfl⟩
    | succ i =>
      obtain ⟨before, after, hparts, hbefore⟩ := ih (index + 1) hc
      rw [hparts, List.take_succ_cons, List.filter_cons, Nat.add_right_comm, Nat.add_assoc]
      split
      · exact ⟨_ :: before, after, rfl, congrArg (d :: ·) hbefore⟩
      · exact ⟨before, after, rfl, hbefore⟩

theorem exists_parts_eq {s : Site} {i : Nat} {c : Node} (hc : s.node.children[i]? = some c)
    (hsig : c.isSignificant = true) :
    ∃ before after, s.parts = before ++ s.child i c :: after ∧
      before.map node = (s.node.children.take i).filter Node.isSignificant := by
  obtain ⟨before, after, hparts, hbefore⟩ := exists_partsFrom_eq (s := s) 0 hc hsig
  rw [Nat.zero_add] at hparts
  exact ⟨before, after, hparts, hbefore⟩

theorem partsFrom_sublist (s : Site) (index : Nat) (children : List Node) :
    (s.partsFrom index children).Sublist (belowAll s.above s.node index children) := by
  induction children generalizing index with
  | nil => exact .slnil
  | cons c rest ih =>
    rw [partsFrom, belowAll, below_child]
    split
    · exact .cons_cons _ ((ih (index + 1)).trans (List.sublist_append_right _ _))
    · exact .cons _ ((ih (index + 1)).trans (List.sublist_append_right _ _))

theorem parts_sublist (s : Site) : s.parts.Sublist s.inside := partsFrom_sublist s 0 s.node.children

theorem nodup_parts (s : Site) : s.parts.Nodup :=
  s.parts_sublist.nodup s.nodup_inside

theorem exists_child_of_mem_partsFrom {s t : Site} {index : Nat} {children : List Node}
    (h : t ∈ s.partsFrom index children) :
    ∃ i c, children[i]? = some c ∧ c.isSignificant = true ∧ t = s.child (index + i) c := by
  induction children generalizing index with
  | nil => cases h
  | cons c rest ih =>
    have hlater (h : t ∈ s.partsFrom (index + 1) rest) :
        ∃ i d, (c :: rest)[i]? = some d ∧ d.isSignificant = true ∧ t = s.child (index + i) d := by
      obtain ⟨i, d, hd, hsig, rfl⟩ := ih h
      exact ⟨i + 1, d, hd, hsig, by rw [Nat.add_right_comm, Nat.add_assoc]⟩
    rw [partsFrom] at h
    split at h
    · rename_i hsig
      rcases List.mem_cons.1 h with rfl | h
      · exact ⟨0, c, rfl, hsig, rfl⟩
      · exact hlater h
    · exact hlater h

theorem mem_parts_iff {s t : Site} :
    t ∈ s.parts ↔
      ∃ i c, s.node.children[i]? = some c ∧ c.isSignificant = true ∧ t = s.child i c := by
  constructor
  · intro h
    obtain ⟨i, c, hc, hsig, ht⟩ := exists_child_of_mem_partsFrom h
    rw [Nat.zero_add] at ht
    exact ⟨i, c, hc, hsig, ht⟩
  · rintro ⟨i, c, hc, hsig, rfl⟩
    obtain ⟨before, after, hparts, -⟩ := exists_parts_eq hc hsig
    rw [hparts]
    exact List.mem_append_right _ List.mem_cons_self

/-! ## Directives -/

theorem isDirective_child (s : Site) (index : Nat) (c : Node) :
    (s.child index c).isDirective =
      (c.isStringStatement && (s.opensPrologue &&
        ((s.node.children.take index).filter Node.isSignificant).all Node.isStringStatement)) := rfl

theorem isDirective_eq_of_beside {r : Node → Node → Prop} {s s' x x' : Site}
    (hx : Beside r s s' x x')
    (hsig : ∀ {c d : Node}, r c d → c.isSignificant = d.isSignificant)
    (hstring : ∀ {c d : Node}, r c d → c.isStringStatement = d.isStringStatement)
    (hopens : s.opensPrologue = s'.opensPrologue) : x.isDirective = x'.isDirective := by
  obtain ⟨hchildren, hchildren', hfront, hc⟩ := hx
  have hearlier := hfront.filter (fun _ => Node.isSignificant_of_isLoose) fun _ _ => hsig
  have hstrings := map_eq_of_forall₂ (fun _ _ hcd => hstring hcd) hearlier
  have hall := congrArg (List.all · id) hstrings
  simp only [List.all_map, Function.id_comp] at hall
  rw [isDirective_child, isDirective_child, hchildren, hchildren', List.take_left',
    List.take_left', hstring hc, hopens, hall] <;> rfl

theorem opensPrologue_child (s : Site) (index : Nat) (c : Node) :
    (s.child index c).opensPrologue =
      if c.kind = "program" then true
      else if c.kind = "statement_block" then s.node.isFunction
      else false := rfl

theorem opensPrologue_iff {s : Site} : s.opensPrologue = true ↔ s.IsBody := by
  rw [opensPrologue, IsBody]
  split
  · rename_i hkind
    exact iff_of_true rfl (.inl hkind)
  · rename_i hprogram
    rw [or_iff_right hprogram]
    split
    · rename_i hkind
      rw [and_iff_right hkind]
      cases s.parentNode? with
      | none => exact iff_of_false Bool.false_ne_true fun ⟨_, howner, _⟩ => nomatch howner
      | some owner => simp
    · rename_i hkind
      exact iff_of_false Bool.false_ne_true fun h => hkind h.1

theorem mem_takeWhile_iff {α : Type} {p : α → Bool} {before after : List α} {a : α}
    (hnodup : (before ++ a :: after).Nodup) :
    a ∈ (before ++ a :: after).takeWhile p ↔ p a = true ∧ before.all p = true := by
  induction before with
  | nil =>
    rw [List.nil_append, List.takeWhile_cons, List.all_nil, and_iff_left rfl]
    cases p a <;> simp
  | cons b rest ih =>
    rw [List.cons_append, List.nodup_cons] at hnodup
    have hne : a ≠ b := fun heq => hnodup.1 (by simp [heq])
    rw [List.cons_append, List.takeWhile_cons, List.all_cons]
    cases p b with
    | false => simp
    | true => rw [if_pos rfl, List.mem_cons, or_iff_right hne, ih hnodup.2, Bool.true_and]

theorem isStringStatement_head_of_hasHashBang {s first : Site} {rest : List Site}
    (hbang : s.hasHashBang = true) (hparts : s.parts = first :: rest) :
    first.node.isStringStatement = false := by
  rw [hasHashBang, ← map_node_parts, hparts, Bool.and_eq_true] at hbang
  apply Node.isStringStatement_of_ne
  rw [eq_of_beq (b := "hash_bang_line") hbang.2]
  decide

theorem isDirective_iff_mem_prologue {s t : Site} (ht : t ∈ s.parts) :
    t.isDirective = true ↔ s.IsBody ∧ s.hasHashBang = false ∧ t ∈ s.prologue := by
  have hnodup := s.nodup_parts
  obtain ⟨i, c, hc, hsig, rfl⟩ := mem_parts_iff.1 ht
  obtain ⟨before, after, hparts, hbefore⟩ := exists_parts_eq hc hsig
  rw [hparts] at hnodup
  rw [isDirective_child, ← hbefore, List.all_map, Bool.and_eq_true, Bool.and_eq_true,
    opensPrologue_iff, prologue, statements, and_left_comm]
  refine and_congr_right fun _ => ?_
  cases hbang : s.hasHashBang with
  | false =>
    rw [if_neg Bool.false_ne_true, and_iff_right rfl, hparts, mem_takeWhile_iff hnodup]
    rfl
  | true =>
    refine iff_of_false (fun h => ?_) fun h => Bool.false_ne_true h.1.symm
    cases before with
    | nil =>
      have hfirst := isStringStatement_head_of_hasHashBang hbang hparts
      exact Bool.false_ne_true (hfirst.symm.trans h.1)
    | cons first rest =>
      have hfirst := isStringStatement_head_of_hasHashBang hbang hparts
      rw [List.all_cons, Bool.and_eq_true] at h
      exact Bool.false_ne_true (hfirst.symm.trans h.2.1)

theorem mem_parts_of_mem_prologue {s t : Site} (h : t ∈ s.prologue) : t ∈ s.parts := by
  have hstatement : t ∈ s.statements := (List.takeWhile_sublist _).subset h
  rw [statements] at hstatement
  split at hstatement
  · exact List.mem_of_mem_tail hstatement
  · exact hstatement

theorem exists_parent_of_mem_inside {s t : Site} (h : t ∈ s.inside) :
    ∃ p, (p = s ∨ p ∈ s.inside) ∧ ∃ i c, p.node.children[i]? = some c ∧ t = p.child i c := by
  obtain ⟨n, above⟩ := s
  induction n using Node.induction generalizing above with
  | node n ih =>
    obtain ⟨i, c, hc, rfl | hbelow⟩ := mem_inside_iff.1 h
    · exact ⟨_, .inl rfl, i, c, hc, rfl⟩
    · have hchild : (Site.mk n above).child i c ∈ (Site.mk n above).inside := child_mem_inside hc
      obtain ⟨p, hp, hparent⟩ := ih c (List.mem_of_getElem? hc) _ hbelow
      refine ⟨p, .inr ?_, hparent⟩
      rcases hp with rfl | hp
      · exact hchild
      · exact mem_inside_trans hp hchild

theorem mem_all_iff {root : Node} {s : Site} :
    s ∈ all root ↔ s = ⟨root, []⟩ ∨ s ∈ inside ⟨root, []⟩ := by
  have hcons : all root = ⟨root, []⟩ :: inside ⟨root, []⟩ := below_eq_cons ⟨root, []⟩
  rw [hcons, List.mem_cons]

/-- **The directives of a tree are the statements of its prologues**, but for programs with a
hash-bang line. -/
theorem isDirective_iff {root : Node} {t : Site} (ht : t ∈ all root)
    (hsig : t.node.isSignificant = true) :
    t.isDirective = true ↔
      ∃ s ∈ all root, s.IsBody ∧ s.hasHashBang = false ∧ t ∈ s.prologue := by
  constructor
  · intro hdirective
    rcases mem_all_iff.1 ht with rfl | hinside
    · rw [isDirective, Bool.and_eq_true] at hdirective
      exact absurd hdirective.2 Bool.false_ne_true
    · obtain ⟨s, hs, i, c, hc, rfl⟩ := exists_parent_of_mem_inside hinside
      exact ⟨s, mem_all_iff.2 hs,
        (isDirective_iff_mem_prologue (mem_parts_iff.2 ⟨i, c, hc, hsig, rfl⟩)).1 hdirective⟩
  · rintro ⟨s, -, h⟩
    exact (isDirective_iff_mem_prologue (mem_parts_of_mem_prologue h.2.2)).2 h

end Fingerprint.Site
