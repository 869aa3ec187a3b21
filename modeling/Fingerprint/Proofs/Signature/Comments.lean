import Mathlib.Tactic.Common
import Fingerprint.Proofs.Function.NamesAlike
import Fingerprint.Proofs.Signature.Alike
import Fingerprint.Proofs.Token.Abstraction
/-!
# Comments are ignored

Two trees that differ in the comments between their nodes have the same signature, if no comment
stands in a node that is known by its text.  The nodes of such trees are alike, with comments passed
over, and their statements have one order.
-/

namespace Fingerprint

namespace Node

/-! ## Trees that differ in their comments -/

mutual

/-- The corresponding nodes of two trees, where loose comments are passed over. -/
def aligned : Node → Node → List (Node × Node)
  | n@⟨_, children⟩, n' => (n, n') :: alignedOf children n'.children

def alignedOf : List Node → List Node → List (Node × Node)
  | [], _ => []
  | c :: rest, others =>
    if c.isLoose then alignedOf rest others
    else
      match others.dropWhile isLoose with
      | [] => []
      | c' :: rest' => aligned c c' ++ alignedOf rest rest'

end

theorem aligned_eq_cons (a b : Node) : aligned a b = (a, b) :: alignedOf a.children b.children := by
  cases a
  rfl

def solid (n : Node) : List Node := n.children.filter (!·.isLoose)

def hasComment (n : Node) : Bool := n.descendants.any isComment

/-- Whether no comment stands in the texts that a node is known by. -/
def hidesComments (n : Node) : Bool := n.spelledBy.all (!·.hasComment)

/-- Two trees that have the same nodes but for loose comments.  In the second a node keeps its text
unless a comment stands in it, and the nodes start in the same order. -/
structure SameButComments (t t' : Node) : Prop where
  alike : ∀ p ∈ aligned t t', p.1.kind = p.2.kind ∧ p.1.named = p.2.named ∧ p.1.field = p.2.field
  arity : ∀ p ∈ aligned t t', p.1.solid.length = p.2.solid.length
  text : ∀ p ∈ aligned t t', p.2.hasComment = false → p.1.text = p.2.text
  order : ∀ p ∈ aligned t t', ∀ q ∈ aligned t t', p.1.start < q.1.start ↔ p.2.start < q.2.start

instance (t t' : Node) : Decidable (SameButComments t t') :=
  decidable_of_iff
    ((∀ p ∈ aligned t t', p.1.kind = p.2.kind ∧ p.1.named = p.2.named ∧ p.1.field = p.2.field) ∧
      (∀ p ∈ aligned t t', p.1.solid.length = p.2.solid.length) ∧
      (∀ p ∈ aligned t t', p.2.hasComment = false → p.1.text = p.2.text) ∧
      ∀ p ∈ aligned t t', ∀ q ∈ aligned t t', p.1.start < q.1.start ↔ p.2.start < q.2.start)
    ⟨fun ⟨halike, harity, htext, horder⟩ => ⟨halike, harity, htext, horder⟩,
      fun h => ⟨h.alike, h.arity, h.text, h.order⟩⟩

mutual

theorem aligned_subset {a b : Node} :
    ∀ t t' : Node, (a, b) ∈ aligned t t' → aligned a b ⊆ aligned t t'
  | ⟨label, children⟩, t', hab => by
    rw [aligned, List.mem_cons] at hab
    rcases hab with hab | hab
    · cases hab
      exact List.Subset.refl _
    · rw [aligned]
      exact List.subset_cons_of_subset _ (aligned_subset_alignedOf children t'.children hab)

theorem aligned_subset_alignedOf {a b : Node} :
    ∀ as bs : List Node, (a, b) ∈ alignedOf as bs → aligned a b ⊆ alignedOf as bs
  | [], _, hab => by cases hab
  | c :: rest, others, hab => by
    rw [alignedOf] at hab ⊢
    split at hab
    · rw [if_pos ‹_›]
      exact aligned_subset_alignedOf rest others hab
    · rw [if_neg ‹_›]
      split at hab
      · cases hab
      · rename_i c' rest' hothers
        rcases List.mem_append.1 hab with hab | hab
        · exact List.subset_append_of_subset_left _ (aligned_subset c c' hab)
        · exact List.subset_append_of_subset_right _ (aligned_subset_alignedOf rest rest' hab)

end

theorem interleaved_append_right {r : Node → Node → Prop} {as bs front : List Node}
    (hfront : ∀ b ∈ front, b.isLoose = true) (h : Interleaved r as bs) :
    Interleaved r as (front ++ bs) := by
  induction front with
  | nil => exact h
  | cons b front ih =>
    obtain ⟨hb, hrest⟩ := List.forall_mem_cons.1 hfront
    exact .right hb (ih hrest)

theorem interleaved_of_dropWhile {r : Node → Node → Prop} {as bs : List Node}
    (h : Interleaved r as (bs.dropWhile isLoose)) : Interleaved r as bs := by
  rw [← List.takeWhile_append_dropWhile (p := isLoose) (l := bs)]
  exact interleaved_append_right (List.all_eq_true.1 List.all_takeWhile) h

theorem filter_dropWhile_isLoose (bs : List Node) :
    (bs.dropWhile isLoose).filter (!·.isLoose) = bs.filter (!·.isLoose) := by
  induction bs with
  | nil => rfl
  | cons b rest ih =>
    rw [List.dropWhile_cons]
    split
    · rw [ih, List.filter_cons_of_neg (by simp [‹b.isLoose = true›])]
    · rfl

theorem interleaved_of_alignedOf_subset {s : List (Node × Node)} : ∀ {as bs : List Node},
    (as.filter (!·.isLoose)).length = (bs.filter (!·.isLoose)).length → alignedOf as bs ⊆ s →
      Interleaved (fun a b => (a, b) ∈ s) as bs
  | [], bs, hlength, _ => by
    have hloose : ∀ b ∈ bs, b.isLoose = true := by
      simpa using List.eq_nil_of_length_eq_zero hlength.symm
    rw [← List.append_nil bs]
    exact interleaved_append_right hloose .nil
  | a :: as, bs, hlength, hsubset => by
    rw [alignedOf] at hsubset
    cases ha : a.isLoose with
    | true =>
      rw [if_pos ha] at hsubset
      rw [List.filter_cons_of_neg (by simp [ha])] at hlength
      exact .left ha (interleaved_of_alignedOf_subset hlength hsubset)
    | false =>
      rw [if_neg (by simp [ha])] at hsubset
      rw [List.filter_cons_of_pos (by simp [ha]), ← filter_dropWhile_isLoose bs] at hlength
      refine interleaved_of_dropWhile ?_
      cases hbs : bs.dropWhile isLoose with
      | nil =>
        rw [hbs] at hlength
        cases hlength
      | cons b rest =>
        have hb : b.isLoose = false := by
          have hhead := List.head?_dropWhile_not isLoose bs
          rw [hbs] at hhead
          simpa using hhead
        rw [hbs, List.filter_cons_of_pos (by simp [hb])] at hlength
        rw [hbs] at hsubset
        obtain ⟨hhere, hlater⟩ := List.append_subset.1 hsubset
        refine .both (hhere ?_)
          (interleaved_of_alignedOf_subset (Nat.succ.inj hlength) hlater)
        rw [aligned_eq_cons]
        exact List.mem_cons_self ..

/-! ## Aligned nodes are alike -/

section

variable {t t' : Node} (h : SameButComments t t')
include h

theorem children_aligned {a b : Node} (hab : (a, b) ∈ aligned t t') :
    Interleaved (fun c d => (c, d) ∈ aligned t t') a.children b.children := by
  refine interleaved_of_alignedOf_subset (h.arity _ hab) fun p hp => ?_
  refine aligned_subset t t' hab ?_
  rw [aligned_eq_cons]
  exact List.mem_cons_of_mem _ hp

theorem alike_aligned : Alike False False (fun _ => false) (fun a b => (a, b) ∈ aligned t t') where
  kind_eq hab := (h.alike _ hab).1
  named_eq hab := (h.alike _ hab).2.1
  kind_mem ha := nomatch ha
  children hab _ := (children_aligned h hab).imp fun _ _ hcd => .of_rel hcd (h.alike _ hcd).2.2
  statements _ ha := nomatch ha
  hosted _ ha := nomatch ha

variable (hides : ∀ p ∈ aligned t t', p.2.hidesComments = true)
include hides

theorem spelled_of_sameButComments :
    Spelled False False (fun _ => false) (fun a b => (a, b) ∈ aligned t t') := by
  have hlike := alike_aligned h
  refine .of_spelledBy hlike nofun (fun hab _ hd hcd => h.text _ hcd ?_)
    (hlike.order_of_start_lt_iff not_false fun hab hcd => h.order _ hab _ hcd) (fun _ _ => rfl)
    False.elim False.elim
  simpa using List.all_eq_true.1 (hides _ hab) _ hd

end

end Node

/-! ## Signatures -/

/-- **Comments are ignored.**  If two trees are the same but for loose comments, none of which
stands in a text that a node is known by, then below roots that correspond the same signature is
extracted, or none from either. -/
theorem Signature.extract_sameButComments {t t' : Node} (h : Node.SameButComments t t')
    (hides : ∀ p ∈ Node.aligned t t', p.2.hidesComments = true) {root root' : Site}
    (hroot : (root.node, root'.node) ∈ Node.aligned t t')
    (hparent : root.parentNode?.map Node.kind = root'.parentNode?.map Node.kind)
    (options : TokenOptions) :
    (extract options root).toOption = (extract options root').toOption :=
  Site.extract_alike (Node.spelled_of_sameButComments h hides) hroot hparent not_false options
    fun _ _ _ hlike => Located.flatten_eq_of_like (hlike.forall₂ not_false)

/-- The rows of a function that returns `a + 7`, where the number starts at a byte and some rows
stand in front of it. -/
def Node.returningSum (start : Nat) (between : List Row) : List Row :=
  returning (start - 21)
    ([⟨"binary_expression", true, none, 22, start + 1, 3 + between.length⟩,
      ⟨"identifier", true, some "left", 22, 23, 0⟩,
      ⟨"+", false, some "operator", 24, 25, 0⟩] ++ between ++
      [⟨"number", true, some "right", start, start + 1, 0⟩])

theorem Signature.extract_sameButComments_returnedSum :
    ∃ t t', Node.ofRows? "function f() \x7b return a + 7; \x7d" (Node.returningSum 26 []) = some t ∧
      Node.ofRows? "function f() \x7b return a + /* c */ 7; \x7d"
        (Node.returningSum 34 [⟨"comment", true, none, 26, 33, 0⟩]) = some t' ∧
      Node.SameButComments t t' ∧ (∀ p ∈ Node.aligned t t', p.2.hidesComments = true) ∧
      (extract {} ⟨t, []⟩).toOption.map Signature.functions = some [
        { name := "f"
          index := 0
          statementTypes := ["STATEMENT:Return"]
          statementTokens := ["STATEMENT:Return[EXPRESSION:Binary[EXPRESSION:Identifier[a],+," ++
            "LITERAL:Numeric]]"] }] ∧
      (extract {} ⟨t, []⟩).toOption = (extract {} ⟨t', []⟩).toOption := by
  obtain ⟨t, t', ht, ht', hsame, hides, hfunctions⟩ :
      ∃ t t', Node.ofRows? "function f() \x7b return a + 7; \x7d" (Node.returningSum 26 []) =
          some t ∧
        Node.ofRows? "function f() \x7b return a + /* c */ 7; \x7d"
          (Node.returningSum 34 [⟨"comment", true, none, 26, 33, 0⟩]) = some t' ∧
        Node.SameButComments t t' ∧ (∀ p ∈ Node.aligned t t', p.2.hidesComments = true) ∧
        (extract {} ⟨t, []⟩).toOption.map Signature.functions = some [
          { name := "f"
            index := 0
            statementTypes := ["STATEMENT:Return"]
            statementTokens := ["STATEMENT:Return[EXPRESSION:Binary[EXPRESSION:Identifier[a],+," ++
              "LITERAL:Numeric]]"] }] :=
    Node.exists_trees (by decide +kernel)
  have hroot : ((⟨t, []⟩ : Site).node, (⟨t', []⟩ : Site).node) ∈ Node.aligned t t' := by
    rw [Node.aligned_eq_cons]
    exact List.mem_cons_self ..
  exact ⟨t, t', ht, ht', hsame, hides, hfunctions,
    extract_sameButComments hsame hides hroot rfl {}⟩

/-- A comment inside of `new.target` is a part of the text that the token of the meta property
shows. -/
theorem Signature.extract_commentedMetaProperty :
    ∃ t t', Node.ofRows? "function f() \x7b return new.target; \x7d" (Node.returning 10
        [⟨"meta_property", true, none, 22, 32, 3⟩,
          ⟨"new", false, none, 22, 25, 0⟩,
          ⟨".", false, none, 25, 26, 0⟩,
          ⟨"target", false, none, 26, 32, 0⟩]) = some t ∧
      Node.ofRows? "function f() \x7b return new /* c */ .target; \x7d" (Node.returning 19
        [⟨"meta_property", true, none, 22, 41, 4⟩,
          ⟨"new", false, none, 22, 25, 0⟩,
          ⟨"comment", true, none, 26, 33, 0⟩,
          ⟨".", false, none, 34, 35, 0⟩,
          ⟨"target", false, none, 35, 41, 0⟩]) = some t' ∧
      Node.SameButComments t t' ∧
      ((extract {} ⟨t, []⟩).toOption.map fun s => s.functions.map (·.statementTokens)) =
        some [["STATEMENT:Return[EXPRESSION:MetaProperty[new.target]]"]] ∧
      ((extract {} ⟨t', []⟩).toOption.map fun s => s.functions.map (·.statementTokens)) =
        some [["STATEMENT:Return[EXPRESSION:MetaProperty[new /* c */ .target]]"]] :=
  Node.exists_trees (by decide +kernel)

end Fingerprint
