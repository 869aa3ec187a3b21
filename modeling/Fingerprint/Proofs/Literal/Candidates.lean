import Fingerprint.Literal.Index
import Fingerprint.Proofs.Literal.Order
/-!
# Candidates of the index of literals

The index of a list of libraries says of every literal which libraries hold it.  Its candidates are
therefore the libraries that share a literal, in their order.
-/

namespace Fingerprint

namespace Literal

def share (unknown known : List Literal) : Bool := unknown.any fun l => known.any (l == ·)

end Literal

namespace LiteralIndex

def numbers (libraries : List (List Literal)) (p : List Literal → Bool) : List Nat :=
  (List.range libraries.length).filter fun i => libraries[i]?.any p

theorem mem_numbers {libraries : List (List Literal)} {p : List Literal → Bool} {i : Nat} :
    i ∈ numbers libraries p ↔ ∃ known, libraries[i]? = some known ∧ p known = true := by
  rw [numbers, List.mem_filter, List.mem_range, Option.any_eq_true]
  constructor
  · exact fun h => h.2
  · rintro ⟨known, hknown, hp⟩
    exact ⟨(List.getElem?_eq_some_iff.1 hknown).1, known, hknown, hp⟩

theorem numbers_concat (libraries : List (List Literal)) (known : List Literal)
    (p : List Literal → Bool) :
    numbers (libraries ++ [known]) p =
      numbers libraries p ++ if p known then [libraries.length] else [] := by
  rw [numbers, List.length_append, List.length_singleton, List.range_succ, List.filter_append]
  congr 1
  · apply List.filter_congr
    intro i hi
    rw [List.getElem?_append_left (List.mem_range.1 hi)]
  · simp [List.filter_cons]

/-- An index knows its libraries: their number, and for every literal those that hold it. -/
structure Knows (index : LiteralIndex) (libraries : List (List Literal)) : Prop where
  count : index.libraryCount = libraries.length
  holders : ∀ l,
    index.holders.getD l [] = (numbers libraries fun known => known.any (l == ·)).reverse

theorem knows_empty : Knows {} [] where
  count := rfl
  holders := fun _ => rfl

theorem post_append (number : Nat) (posted : Bool) {before : List Nat}
    (hnew : before.head? ≠ some number) :
    post number ((if posted then [number] else []) ++ before) = number :: before := by
  cases posted with
  | true => exact if_pos rfl
  | false => exact if_neg hnew

/-- Posting the literals of one library puts its number in front for each of them, once. -/
theorem getD_foldl_post {number : Nat} {before : Literal → List Nat}
    (hnew : ∀ l, (before l).head? ≠ some number) (literals : List Literal) :
    ∀ (posted : List Literal) (holders : Std.TreeMap Literal (List Nat)),
      (∀ l, holders.getD l [] = (if posted.any (l == ·) then [number] else []) ++ before l) →
      ∀ l, (literals.foldl (fun holders l => holders.insert l (post number (holders.getD l [])))
          holders).getD l [] =
        (if (posted ++ literals).any (l == ·) then [number] else []) ++ before l := by
  induction literals with
  | nil =>
    intro posted holders hholders l
    rw [List.append_nil]
    exact hholders l
  | cons x rest ih =>
    intro posted holders hholders
    rw [show posted ++ x :: rest = (posted ++ [x]) ++ rest by simp]
    refine ih (posted ++ [x]) _ fun l => ?_
    rw [Std.TreeMap.getD_insert, List.any_append, List.any_cons, List.any_nil, Bool.or_false]
    by_cases hx : compare x l = .eq
    · have hlx : (l == x) = true := by
        rw [← Std.LawfulBEqOrd.compare_eq_iff_beq, Std.OrientedCmp.eq_comm]
        exact hx
      rw [if_pos hx, Std.TreeMap.getD_congr hx, hholders l, post_append number _ (hnew l), hlx,
        Bool.or_true]
      rfl
    · have hlx : (l == x) = false := by
        rw [← Std.LawfulBEqOrd.not_compare_eq_iff_beq_eq_false, Std.OrientedCmp.eq_comm]
        exact hx
      rw [if_neg hx, hholders l, hlx, Bool.or_false]

theorem Knows.add {index : LiteralIndex} {libraries : List (List Literal)}
    (h : index.Knows libraries) (literals : List Literal) :
    (index.add literals).Knows (libraries ++ [literals]) where
  count := by
    rw [List.length_append, List.length_singleton, ← h.count]
    rfl
  holders := by
    intro l
    have hnew : ∀ l, ((numbers libraries fun known => known.any (l == ·)).reverse).head? ≠
        some index.libraryCount := by
      intro l hhead
      obtain ⟨known, hknown, -⟩ := mem_numbers.1 (List.mem_reverse.1 (List.mem_of_head? hhead))
      have hlt := (List.getElem?_eq_some_iff.1 hknown).1
      rw [h.count] at hlt
      exact lt_irrefl _ hlt
    rw [LiteralIndex.add, getD_foldl_post hnew literals [] index.holders (fun l => ?_) l,
      numbers_concat, List.nil_append, List.reverse_append, h.count]
    · split <;> rfl
    · rw [h.holders l]
      rfl

theorem Knows.librariesWith_eq {index : LiteralIndex} {libraries : List (List Literal)}
    (h : index.Knows libraries) (l : Literal) :
    (index.librariesWith? l).getD [] = numbers libraries fun known => known.any (l == ·) := by
  have hholders := h.holders l
  rw [Std.TreeMap.getD_eq_getD_getElem?] at hholders
  rw [← List.reverse_reverse (numbers libraries _), ← hholders, librariesWith?]
  cases index.holders[l]? <;> rfl

theorem numbers_true (libraries : List (List Literal)) :
    numbers libraries (fun _ => true) = List.range libraries.length := by
  rw [numbers, List.filter_eq_self]
  intro i hi
  rw [List.getElem?_eq_getElem (List.mem_range.1 hi)]
  rfl

theorem pairwise_lt_numbers (libraries : List (List Literal)) (p : List Literal → Bool) :
    (numbers libraries p).Pairwise (· < ·) :=
  List.pairwise_lt_range.sublist List.filter_sublist

theorem Knows.candidates_eq {index : LiteralIndex} {libraries : List (List Literal)}
    (h : index.Knows libraries) (unknown : List Literal) :
    index.candidates unknown =
      numbers libraries fun known => unknown.isEmpty || Literal.share unknown known := by
  rw [candidates]
  by_cases hempty : unknown.isEmpty = true
  · simp only [hempty, Bool.true_or]
    rw [if_pos trivial, numbers_true, h.count]
  · rw [if_neg hempty]
    set found := (unknown.flatMap fun l => (index.librariesWith? l).getD []).mergeSort with hfound
    have hsorted : found.Pairwise (· ≤ ·) := by
      have hpair : found.Pairwise fun a b => decide (a ≤ b) = true :=
        List.pairwise_mergeSort (fun a b c => by simpa using le_trans)
          (fun a b => by simpa using le_total a b) _
      exact hpair.imp fun hle => by simpa using hle
    have hlt := Ascending.pairwise_lt_dropRepeats hsorted
    have hlt' := pairwise_lt_numbers libraries fun known =>
      unknown.isEmpty || Literal.share unknown known
    refine List.Perm.eq_of_pairwise (fun a b _ _ hab hba => absurd hab hba.asymm) hlt hlt' ?_
    rw [List.perm_ext_iff_of_nodup (hlt.imp fun hab => ne_of_lt hab)
      (hlt'.imp fun hab => ne_of_lt hab)]
    intro i
    rw [Ascending.mem_dropRepeats, hfound, List.mem_mergeSort, List.mem_flatMap, mem_numbers]
    simp only [h.librariesWith_eq, mem_numbers, hempty, Bool.false_or, Literal.share,
      List.any_eq_true]
    constructor
    · rintro ⟨l, hl, known, hknown, hany⟩
      exact ⟨known, hknown, l, hl, hany⟩
    · rintro ⟨known, hknown, l, hl, hany⟩
      exact ⟨l, hl, known, hknown, hany⟩

end LiteralIndex

end Fingerprint
