import Fingerprint.Proofs.Corpus.CandidateFilter
/-!
# Corpora in use

A corpus keeps its libraries twice, as a list of entries and by number in its index.  Adding a
library keeps the two in step, so what is asked of a corpus between additions is answered from the
libraries that were added before.
-/

namespace Fingerprint

namespace LibraryEntry

def holds (l : Literal) (e : LibraryEntry) : Bool := e.signature.literals.any (l == ·)

end LibraryEntry

/-! ## The literals of an index -/

namespace LiteralIndex

theorem mem_foldl_post {number : Nat} {l : Literal} (literals : List Literal) :
    ∀ holders : Std.TreeMap Literal (List Nat),
      l ∈ literals.foldl
          (fun holders l => holders.insert l (post number (holders.getD l []))) holders ↔
        l ∈ holders ∨ literals.any (l == ·) = true := by
  induction literals with
  | nil =>
    intro holders
    rw [List.foldl_nil, List.any_nil, or_iff_left Bool.false_ne_true]
  | cons x rest ih =>
    intro holders
    rw [List.foldl_cons, ih, Std.TreeMap.mem_insert, List.any_cons, Bool.or_eq_true,
      ← Std.LawfulBEqOrd.compare_eq_iff_beq, Std.OrientedCmp.eq_comm (a := l)]
    tauto

theorem mem_holders_add {index : LiteralIndex} {literals : List Literal} {l : Literal} :
    l ∈ (index.add literals).holders ↔ l ∈ index.holders ∨ literals.any (l == ·) = true :=
  mem_foldl_post literals index.holders

/-- The literals of an index, told apart as the program compares them. -/
theorem exists_distinct (index : LiteralIndex) :
    ∃ distinct : List Literal, distinct.Pairwise (fun a b => (a == b) = false) ∧
      (∀ l, distinct.any (l == ·) = true ↔ l ∈ index.holders) ∧
      index.literalCount = distinct.length := by
  refine ⟨index.holders.keys, ?_, fun l => ?_, Std.TreeMap.length_keys.symm⟩
  · refine Std.TreeMap.distinct_keys.imp fun {a b} h => ?_
    rwa [← Std.LawfulBEqOrd.not_compare_eq_iff_beq_eq_false]
  · rw [← List.contains_eq_any_beq, Std.TreeMap.contains_keys, Std.TreeMap.mem_iff_contains]

end LiteralIndex

namespace Corpus

/-! ## Entries and index in step -/

theorem add_ofEntries (added : List (LibraryId × Signature)) (id : LibraryId)
    (signature : Signature) :
    (ofEntries added).add id signature = ofEntries (added ++ [(id, signature)]) := by
  rw [ofEntries, ofEntries, List.foldl_append]
  rfl

theorem mem_holders_ofEntries (added : List (LibraryId × Signature)) (l : Literal) :
    l ∈ (ofEntries added).index.holders ↔
      (ofEntries added).entries.any (·.holds l) = true := by
  induction added using List.reverseRecOn with
  | nil => exact iff_of_false Std.TreeMap.not_mem_emptyc (by simp [ofEntries])
  | append_singleton added entry ih =>
    obtain ⟨id, signature⟩ := entry
    rw [← add_ofEntries, add, LiteralIndex.mem_holders_add, ih, Array.any_push, Bool.or_eq_true]
    rfl

theorem candidateIds_eq {corpus : Corpus} (h : corpus.index.Knows corpus.literals)
    (unknown : Signature) :
    corpus.candidateIds unknown =
      (corpus.entries.toList.filter fun e =>
        unknown.literals.isEmpty || e.shares unknown).map (·.id) := by
  have hfound := filterMap_numbers corpus.entries.toList
    fun known => unknown.literals.isEmpty || Literal.share unknown.literals known
  simp only [Array.getElem?_toList] at hfound
  rw [candidateIds, ← List.map_filterMap, h.candidates_eq, literals, hfound]
  rfl

theorem mem_librariesWith?_iff {corpus : Corpus} (h : corpus.index.Knows corpus.literals)
    (l : Literal) (i : Nat) :
    (∃ found ∈ corpus.index.librariesWith? l, i ∈ found) ↔
      ∃ e, corpus.entries[i]? = some e ∧ e.holds l = true := by
  have hgetD : (∃ found ∈ corpus.index.librariesWith? l, i ∈ found) ↔
      i ∈ (corpus.index.librariesWith? l).getD [] := by
    cases corpus.index.librariesWith? l <;> simp
  rw [hgetD, h.librariesWith_eq, LiteralIndex.mem_numbers]
  simp only [literals, List.getElem?_map, Array.getElem?_toList, Option.map_eq_some_iff]
  constructor
  · rintro ⟨known, ⟨e, he, rfl⟩, hholds⟩
    exact ⟨e, he, hholds⟩
  · rintro ⟨e, he, hholds⟩
    exact ⟨e.signature.literals, ⟨e, he, rfl⟩, hholds⟩

/-! ## Runs of requests -/

inductive Request where
  | add (id : LibraryId) (signature : Signature)
  | candidates (unknown : Signature)

def after (corpus : Corpus) : List Request → Corpus
  | [] => corpus
  | .add id signature :: rest => (corpus.add id signature).after rest
  | .candidates _ :: rest => corpus.after rest

def answers (corpus : Corpus) : List Request → List (List LibraryId)
  | [] => []
  | .add id signature :: rest => (corpus.add id signature).answers rest
  | .candidates unknown :: rest => corpus.candidateIds unknown :: corpus.answers rest

def Request.added : List Request → List (LibraryId × Signature)
  | [] => []
  | .add id signature :: rest => (id, signature) :: added rest
  | .candidates _ :: rest => added rest

/-- The libraries that share a literal with an unknown signature; all of them if it has none. -/
def sharing (added : List (LibraryId × Signature)) (unknown : Signature) : List LibraryId :=
  (added.filter fun (_, signature) =>
    unknown.literals.isEmpty || Literal.share unknown.literals signature.literals).map (·.1)

/-- What the queries among some requests are answered if all that counts are the libraries added
before each of them. -/
def Request.answersFrom (before : List (LibraryId × Signature)) :
    List Request → List (List LibraryId)
  | [] => []
  | .add id signature :: rest => answersFrom (before ++ [(id, signature)]) rest
  | .candidates unknown :: rest => sharing before unknown :: answersFrom before rest

theorem candidateIds_ofEntries (added : List (LibraryId × Signature)) (unknown : Signature) :
    (ofEntries added).candidateIds unknown = sharing added unknown := by
  obtain ⟨hentries, hknows⟩ := knows_ofEntries added
  rw [candidateIds_eq hknows, hentries, List.filter_map, List.map_map]
  rfl

theorem after_ofEntries (before : List (LibraryId × Signature)) (requests : List Request) :
    (ofEntries before).after requests = ofEntries (before ++ Request.added requests) := by
  induction requests generalizing before with
  | nil => rw [after, Request.added, List.append_nil]
  | cons request rest ih =>
    cases request with
    | add id signature =>
      rw [after, add_ofEntries, ih, Request.added, List.append_assoc]
      rfl
    | candidates unknown => exact ih before

theorem answers_ofEntries (before : List (LibraryId × Signature)) (requests : List Request) :
    (ofEntries before).answers requests = Request.answersFrom before requests := by
  induction requests generalizing before with
  | nil => rfl
  | cons request rest ih =>
    cases request with
    | add id signature =>
      rw [answers, add_ofEntries, ih]
      rfl
    | candidates unknown =>
      rw [answers, candidateIds_ofEntries, ih]
      rfl

/-- However a corpus was built, its index numbers its libraries as they were added and knows of
every literal the libraries that hold it, it counts the distinct literals, and its candidates are
the libraries added so far that share a literal. -/
theorem index_after (before : List (LibraryId × Signature)) (requests : List Request) :
    let corpus := (ofEntries before).after requests
    corpus.entries.toList =
      (before ++ Request.added requests).map (fun (id, signature) => ⟨id, signature⟩) ∧
    corpus.index.libraryCount = corpus.entries.size ∧
    (∀ l i, (∃ found ∈ corpus.index.librariesWith? l, i ∈ found) ↔
      ∃ e, corpus.entries[i]? = some e ∧ e.holds l = true) ∧
    (∃ distinct : List Literal, distinct.Pairwise (fun a b => (a == b) = false) ∧
      (∀ l, distinct.any (l == ·) = corpus.entries.any (·.holds l)) ∧
      corpus.index.literalCount = distinct.length) ∧
    (∀ unknown, ∀ i ∈ corpus.index.candidates unknown, i < corpus.entries.size) ∧
    (∀ unknown, corpus.candidateIds unknown =
      sharing (before ++ Request.added requests) unknown) ∧
    (ofEntries before).answers requests = Request.answersFrom before requests := by
  intro corpus
  have hcorpus : corpus = ofEntries (before ++ Request.added requests) :=
    after_ofEntries before requests
  obtain ⟨hentries, hknows⟩ := knows_ofEntries (before ++ Request.added requests)
  rw [← hcorpus] at hentries hknows
  have hlength : corpus.literals.length = corpus.entries.size := by
    rw [literals, List.length_map, Array.length_toList]
  refine ⟨hentries, hknows.count.trans hlength, mem_librariesWith?_iff hknows, ?_, ?_,
    fun unknown => ?_, answers_ofEntries before requests⟩
  · obtain ⟨distinct, hpairwise, hany, hcount⟩ := corpus.index.exists_distinct
    refine ⟨distinct, hpairwise, fun l => ?_, hcount⟩
    rw [Bool.eq_iff_iff, hany, hcorpus]
    exact mem_holders_ofEntries _ l
  · intro unknown i hi
    rw [hknows.candidates_eq, LiteralIndex.mem_numbers] at hi
    obtain ⟨known, hknown, -⟩ := hi
    rw [← hlength]
    exact (List.getElem?_eq_some_iff.1 hknown).1
  · rw [hcorpus]
    exact candidateIds_ofEntries _ unknown

end Corpus

end Fingerprint
