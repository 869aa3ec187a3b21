import Mathlib.Data.List.Pairwise
import Mathlib.Data.List.Perm.Basic
import Mathlib.Logic.Relation
import Mathlib.Tactic.Common
import Fingerprint.Proofs.Ascending
import Fingerprint.Proofs.Token.Abstraction
import Fingerprint.Token.Sequence
/-!
# Sequences

The loop over a sequence and the sequences nested in it gathers each operand once, and sorting puts
them in the order of the source.  So they are read from left to right, as a recursion that opens
each nested sequence in its place reads them.
-/

namespace Fingerprint

namespace Node

/-! ## From left to right -/

mutual

/-- The operands of a sequence, those of a nested one in its place. -/
def flattened : Node → List Node
  | ⟨_, children⟩ => flattenedOf children

def flattenedOf : List Node → List Node
  | [] => []
  | c :: rest =>
    if !c.isSignificant then flattenedOf rest
    else if c.kind = "sequence_expression" then flattened c ++ flattenedOf rest
    else c :: flattenedOf rest

end

theorem flattened_eq (n : Node) :
    n.flattened =
      n.parts.flatMap fun c => if c.kind = "sequence_expression" then c.flattened else [c] := by
  have hparts (children : List Node) : flattenedOf children =
      (children.filter isSignificant).flatMap
        fun c => if c.kind = "sequence_expression" then c.flattened else [c] := by
    induction children with
    | nil => rfl
    | cons c rest ih =>
      rw [flattenedOf, ih, List.filter_cons]
      cases c.isSignificant with
      | false => rfl
      | true =>
        simp only [Bool.not_true, Bool.false_eq_true, if_false, if_true, List.flatMap_cons]
        split <;> rfl
  cases n
  rw [flattened, hparts]
  rfl

/-- The sequences that a sequence is made of: itself, and each that is a part of one of them. -/
inductive Nests (n : Node) : Node → Prop where
  | self : Nests n n
  | part {s c : Node} (hs : Nests n s) (hc : c ∈ s.parts) (hkind : c.kind = "sequence_expression") :
    Nests n c

theorem Nests.trans {l m n : Node} (hm : n.Nests m) (hl : m.Nests l) : n.Nests l := by
  induction hl with
  | self => exact hm
  | part _ hc hkind ih => exact .part ih hc hkind

/-- Opening a nested sequence only brings operands of the outermost one to light. -/
theorem Nests.flattened_subset {n s : Node} (h : n.Nests s) : s.flattened ⊆ n.flattened := by
  induction h with
  | self => exact List.Subset.refl _
  | @part s c _ hc hkind ih =>
    refine List.Subset.trans (fun operand hoperand => ?_) ih
    rw [flattened_eq s, List.mem_flatMap]
    exact ⟨c, hc, by rwa [if_pos hkind]⟩

theorem mem_flattened {n c : Node} :
    c ∈ n.flattened ↔ ∃ s, n.Nests s ∧ c ∈ s.parts ∧ c.kind ≠ "sequence_expression" := by
  constructor
  · induction n using Node.induction with
    | node n ih =>
      rw [flattened_eq, List.mem_flatMap]
      rintro ⟨part, hpart, hc⟩
      split at hc
      · rename_i hkind
        obtain ⟨s, hs, hparts, hother⟩ := ih part (mem_children_of_mem_parts hpart) hc
        exact ⟨s, (Nests.self.part hpart hkind).trans hs, hparts, hother⟩
      · rename_i hother
        rw [List.mem_singleton] at hc
        subst hc
        exact ⟨n, .self, hpart, hother⟩
  · rintro ⟨s, hs, hc, hother⟩
    refine hs.flattened_subset ?_
    rw [flattened_eq, List.mem_flatMap]
    exact ⟨c, hc, by rw [if_neg hother]; exact List.mem_singleton_self c⟩

/-! ## Operands in the order of the source -/

mutual

theorem gathered_perm : ∀ n : Node, n.gathered.Perm n.flattened
  | ⟨_, children⟩ => gatheredOf_perm children

theorem gatheredOf_perm : ∀ children : List Node,
    ((gatheredOf children).1 ++ (gatheredOf children).2).Perm (flattenedOf children)
  | [] => .refl _
  | c :: rest => by
    have hrest := gatheredOf_perm rest
    simp only [gatheredOf, flattenedOf]
    split
    · exact hrest
    · split
      · have hlater := hrest.append (gathered_perm c)
        rw [List.append_assoc] at hlater
        exact hlater.trans List.perm_append_comm
      · exact hrest.cons c

end

theorem operands_eq_flattened {n : Node} (h : (n.flattened.map start).Pairwise (· < ·)) :
    n.operands = n.flattened := by
  have hinjective : ∀ a ∈ n.flattened, ∀ b ∈ n.flattened, a.start = b.start → a = b :=
    fun _ ha _ hb => List.inj_on_of_nodup_map (h.imp Nat.ne_of_lt) ha hb
  have hsame : n.operands = n.flattened.mergeSort fun a b => decide (a.start ≤ b.start) := by
    refine Ascending.mergeSort_eq_of_perm (fun a b c hab hbc => ?_) (fun a b => ?_) n.gathered_perm
      (fun a ha b hb hab hba => ?_)
    · exact decide_eq_true ((of_decide_eq_true hab).trans (of_decide_eq_true hbc))
    · simpa using Nat.le_total a.start b.start
    · exact hinjective a (n.gathered_perm.mem_iff.1 ha) b (n.gathered_perm.mem_iff.1 hb)
        (Nat.le_antisymm (of_decide_eq_true hab) (of_decide_eq_true hba))
  rw [hsame, List.mergeSort_of_pairwise]
  exact (List.pairwise_map.1 h).imp fun hlt => decide_eq_true (Nat.le_of_lt hlt)

/-- A sequence's own operands come first, and the nested sequences from the last one on. -/
theorem gathered_eq (n : Node) :
    n.gathered = n.parts.filter (·.kind ≠ "sequence_expression") ++
      (n.parts.filter (·.kind = "sequence_expression")).reverse.flatMap gathered := by
  have hparts (children : List Node) : gatheredOf children =
      ((children.filter isSignificant).filter (·.kind ≠ "sequence_expression"),
        ((children.filter isSignificant).filter
          (·.kind = "sequence_expression")).reverse.flatMap gathered) := by
    induction children with
    | nil => rfl
    | cons c rest ih =>
      rw [gatheredOf, ih, List.filter_cons]
      cases c.isSignificant with
      | false => rfl
      | true => by_cases hkind : c.kind = "sequence_expression" <;> simp [hkind]
  cases n
  rw [gathered, hparts]
  rfl

end Node

/-! ## The loop -/

namespace Gathering

theorem foldl_take (g : Gathering) (parts : List Node) :
    parts.foldl take g =
      ⟨(parts.filter (·.kind = "sequence_expression")).reverse ++ g.pending,
        g.operands ++ parts.filter (·.kind ≠ "sequence_expression")⟩ := by
  induction parts generalizing g with
  | nil => simp
  | cons part rest ih =>
    rw [List.foldl_cons, ih, take]
    split <;> simp_all

theorem gathered_step? {g next : Gathering} (h : g.step? = some next) :
    next.operands ++ next.pending.flatMap Node.gathered =
      g.operands ++ g.pending.flatMap Node.gathered := by
  obtain ⟨_ | ⟨current, rest⟩, operands⟩ := g
  · cases h
  · simp only [step?, Option.some.injEq] at h
    subst h
    rw [foldl_take, List.flatMap_cons, Node.gathered_eq current, List.flatMap_append]
    simp only [List.append_assoc]

theorem pending_of_step?_eq_none {g : Gathering} (h : g.step? = none) : g.pending = [] := by
  rw [step?] at h
  split at h
  · assumption
  · cases h

theorem run_eq (g : Gathering) : g.run = g.operands ++ g.pending.flatMap Node.gathered := by
  rw [run]
  split
  case h_1 hdone => rw [pending_of_step?_eq_none hdone, List.flatMap_nil, List.append_nil]
  case h_2 next hnext =>
    have := sizeOf_step?_lt hnext
    rw [run_eq next, gathered_step? hnext]
termination_by sizeOf g.pending

theorem run_start (n : Node) : (start n).run = n.gathered := by
  rw [run_eq, start, List.flatMap_singleton, List.nil_append]

/-- The loop comes to an end, with an empty stack. -/
theorem steps_to_run (g : Gathering) :
    Relation.ReflTransGen (fun g next => step? g = some next) g ⟨[], g.run⟩ := by
  rw [run]
  split
  case h_1 hdone => rw [← pending_of_step?_eq_none hdone]
  case h_2 next hnext =>
    have := sizeOf_step?_lt hnext
    exact (steps_to_run next).head hnext
termination_by sizeOf g.pending

end Gathering

/-! ## Tokens of sequences -/

namespace Node

theorem sequence_eq_operands (read : Reading) (n : Node) :
    n.sequence read = n.operands.map read := by
  rw [sequence, Gathering.run_start, operands]

end Node

theorem Expression.token_of_sequence {n : Node} (budget : Nat)
    (hn : n.bare.kind = "sequence_expression") :
    token (budget + 1) n = .shaped .expression "Sequence" (n.bare.sequence (text budget)) := by
  have hform : Form.expressions.lookup "sequence_expression" =
      some ⟨.expression, .fixed "Sequence", [.sequence]⟩ := by decide
  rw [token_succ, Node.expressionShape, hn, hform, Node.sequence_eq_operands]
  exact congrArg (Token.shaped .expression "Sequence") (List.append_nil _)

namespace Node

/-- **Sequences are read from left to right.**  The loop ends with an empty stack, and the texts of
the operands are those that the recursion gives, each operand once and all at the level below the
outermost sequence.  The operands are the parts of all nested sequences that are no sequences
themselves.  One of them is a sequence in parentheses, with a token of its own. -/
theorem sequence_eq_flattened {n : Node} (hn : n.kind = "sequence_expression")
    (hstarts : (n.flattened.map start).Pairwise (· < ·)) (maxDepth depth : Nat) :
    let read := Expression.text (maxDepth - depth)
    Relation.ReflTransGen (fun g next => Gathering.step? g = some next) (.start n)
        ⟨[], (Gathering.start n).run⟩ ∧
      n.sequence read = n.flattened.map read ∧
      n.flattened.Nodup ∧
      (∀ c, c ∈ n.flattened ↔
        ∃ s, n.Nests s ∧ c ∈ s.parts ∧ c.kind ≠ "sequence_expression") ∧
      (depth ≤ maxDepth → Expression.token (maxDepth + 1 - depth) n =
        .shaped .expression "Sequence" (n.flattened.map read)) ∧
      ∀ s, n.Nests s → ∀ c ∈ s.parts, c.kind = "parenthesized_expression" →
        c.bare.kind = "sequence_expression" →
          c ∈ n.flattened ∧ (depth < maxDepth → read c =
            (Token.shaped .expression "Sequence"
              (c.bare.sequence (Expression.text (maxDepth - (depth + 1))))).text) := by
  intro read
  have hsequence : n.sequence read = n.flattened.map read := by
    rw [sequence_eq_operands, operands_eq_flattened hstarts]
  have hnodup : n.flattened.Nodup := .of_map start (hstarts.imp Nat.ne_of_lt)
  refine ⟨Gathering.steps_to_run _, hsequence, hnodup, fun c => mem_flattened, fun hdepth => ?_,
    fun s hs c hc hparentheses hinner => ⟨?_, fun hdepth => ?_⟩⟩
  · have hbare : n.bare = n := bare_of_ne (by rw [hn]; decide)
    have htoken := Expression.token_of_sequence (n := n) (maxDepth - depth) (by rw [hbare, hn])
    rwa [hbare, hsequence, show maxDepth - depth + 1 = maxDepth + 1 - depth by omega] at htoken
  · exact mem_flattened.2 ⟨s, hs, hc, by rw [hparentheses]; decide⟩
  · have htoken := Expression.token_of_sequence (maxDepth - (depth + 1)) hinner
    rw [show maxDepth - (depth + 1) + 1 = maxDepth - depth by omega] at htoken
    exact congrArg Token.text htoken

/-- A sequence of two sequences, the second of which ends in a third one in parentheses. -/
def mixedSequence : List Row :=
  [⟨"program", true, none, 0, 16, 1⟩,
    ⟨"expression_statement", true, none, 0, 16, 2⟩,
    ⟨"sequence_expression", true, none, 0, 15, 3⟩,
    ⟨"sequence_expression", true, some "left", 0, 4, 3⟩,
    ⟨"identifier", true, some "left", 0, 1, 0⟩,
    ⟨",", false, none, 1, 2, 0⟩,
    ⟨"identifier", true, some "right", 3, 4, 0⟩,
    ⟨",", false, none, 4, 5, 0⟩,
    ⟨"sequence_expression", true, some "right", 6, 15, 3⟩,
    ⟨"identifier", true, some "left", 6, 7, 0⟩,
    ⟨",", false, none, 7, 8, 0⟩,
    ⟨"parenthesized_expression", true, some "right", 9, 15, 3⟩,
    ⟨"(", false, none, 9, 10, 0⟩,
    ⟨"sequence_expression", true, none, 10, 14, 3⟩,
    ⟨"identifier", true, some "left", 10, 11, 0⟩,
    ⟨",", false, none, 11, 12, 0⟩,
    ⟨"identifier", true, some "right", 13, 14, 0⟩,
    ⟨")", false, none, 14, 15, 0⟩,
    ⟨";", false, none, 15, 16, 0⟩]

/-- The loop comes to the second sequence first. -/
theorem sequence_eq_flattened_mixed :
    ∃ t, ofRows? "a, b, c, (d, e);" mixedSequence = some t ∧
      ∃ n ∈ t.nodes, n.kind = "sequence_expression" ∧ n.gathered.map start = [6, 9, 0, 3] ∧
        (n.flattened.map start).Pairwise (· < ·) ∧
        n.sequence (Expression.text (2 - 0)) =
          ["EXPRESSION:Identifier[a]", "EXPRESSION:Identifier[b]", "EXPRESSION:Identifier[c]",
            "EXPRESSION:Sequence[EXPRESSION:Identifier[d],EXPRESSION:Identifier[e]]"] := by
  obtain ⟨t, _, ht, -, n, hn, hkind, hloop, hstarts, hnames, hlength, c, hc, hparentheses, hinner,
      hinnerStarts, hinnerNames⟩ :
      ∃ t t', ofRows? "a, b, c, (d, e);" mixedSequence = some t ∧
        ofRows? "a, b, c, (d, e);" mixedSequence = some t' ∧
        ∃ n ∈ t.nodes, n.kind = "sequence_expression" ∧ n.gathered.map start = [6, 9, 0, 3] ∧
          (n.flattened.map start).Pairwise (· < ·) ∧
          (n.flattened.take 3).map (Expression.text (2 - 0)) =
            ["EXPRESSION:Identifier[a]", "EXPRESSION:Identifier[b]", "EXPRESSION:Identifier[c]"] ∧
          (n.flattened.drop 3).length = 1 ∧
          ∃ c ∈ n.flattened.drop 3, c.kind = "parenthesized_expression" ∧
            c.bare.kind = "sequence_expression" ∧
            (c.bare.flattened.map start).Pairwise (· < ·) ∧
            c.bare.flattened.map (Expression.text (2 - 1)) =
              ["EXPRESSION:Identifier[d]", "EXPRESSION:Identifier[e]"] :=
    exists_trees (by decide +kernel)
  obtain ⟨-, hsequence, -, hmem, -, hoperand⟩ := sequence_eq_flattened hkind hstarts 2 0
  obtain ⟨-, hinnerSequence, -⟩ := sequence_eq_flattened hinner hinnerStarts 2 1
  obtain ⟨s, hs, hparts, -⟩ := (hmem c).1 (List.mem_of_mem_drop hc)
  have htext := (hoperand s hs c hparts hparentheses hinner).2 (by decide)
  rw [hinnerSequence, hinnerNames] at htext
  obtain ⟨last, hlast⟩ := List.length_eq_one_iff.1 hlength
  obtain rfl : c = last := List.mem_singleton.1 (hlast ▸ hc)
  refine ⟨t, ht, n, hn, hkind, hloop, hstarts, ?_⟩
  rw [hsequence, ← List.take_append_drop 3 n.flattened, List.map_append, hnames, hlast,
    List.map_singleton, htext]
  rfl

end Node

end Fingerprint
