import Fingerprint.Proofs.Corpus.LibraryIds
import Fingerprint.Proofs.Corpus.Ranking
import Fingerprint.Proofs.Matching.Reread
/-!
# Rankings that are read back

A ranking is written as JSON and read from it.  Its libraries, its counts and its matches come back
as long as the counts fit 64 bits.  What can be lost are the last bits of a value, so the ranking
comes back just when its values do.
-/

namespace Fingerprint

open Document

theorem map_eq_self_iff {α : Type} {f : α → α} {items : List α} :
    items.map f = items ↔ ∀ a ∈ items, f a = a := by
  conv_lhs => rhs; rw [← List.map_id items]
  exact List.map_inj_left

/-! ## What is written -/

theorem MatchMap.eq_or_mem_of_mem_insert {map : MatchMap} {index : Nat} {m found : FunctionMatch}
    (h : m ∈ entries (map.insert index found)) : m = found ∨ m ∈ map.entries := by
  obtain ⟨entry, hentry, rfl⟩ := List.mem_map.1 h
  rw [Std.TreeMap.toList_insert_perm.mem_iff, List.mem_cons, List.mem_filter] at hentry
  rcases hentry with rfl | ⟨hentry, -⟩
  · exact .inl rfl
  · exact .inr (List.mem_map_of_mem hentry)

theorem Alignment.isProper_of_mem_entries (order : Confidence → Confidence → Ordering)
    (strictness : Strictness) (unknown library : Signature) :
    ∀ m ∈ (ofSignatures order strictness unknown library).map.entries, m.prob.IsProper := by
  refine List.foldlRecOn
    (motive := fun total : Alignment => ∀ m ∈ total.map.entries, m.prob.IsProper)
    unknown.functions _ (List.forall_mem_nil _) ?_
  intro total htotal f _
  rw [add_eq]
  cases hmatch : matchOf? order strictness library f with
  | none => exact htotal
  | some found =>
    obtain ⟨g, -, rfl, -⟩ := exists_of_matchOf? order strictness library hmatch
    intro m hm
    rcases MatchMap.eq_or_mem_of_mem_insert hm with rfl | hm
    · exact f.isProper_overlap strictness g
    · exact htotal m hm

namespace Comparison

structure IsProper (c : Comparison) : Prop where
  confidence : c.confidence.IsProper
  matched : ∀ m ∈ c.matched, m.prob.IsProper

/-- Whether all counts and indices fit 64 bits. -/
def Fits (c : Comparison) : Prop := c.confidence.Fits ∧ ∀ m ∈ c.matched, m.Fits

instance (c : Comparison) : Decidable c.Fits := inferInstanceAs (Decidable (_ ∧ _))

/-- A comparison with the values that are read from its text. -/
def reread (c : Comparison) : Comparison :=
  ⟨c.confidence.reread, c.matched.map FunctionMatch.reread⟩

def vals (c : Comparison) : List Double := c.confidence.val :: c.matched.map (·.prob.val)

end Comparison

theorem Strategy.isProper_compare (strategy : Strategy) (unknown library : Signature) :
    (strategy.compare unknown library).IsProper where
  confidence := strategy.isProper_compareBy Confidence.byValue unknown library
  matched := by
    intro m hm
    cases strategy with
    | functionTokens strictness =>
      apply Alignment.isProper_of_mem_entries Confidence.byValue strictness unknown library
      exact (List.mergeSort_perm _ _).mem_iff.1 hm
    | _ => cases hm

theorem Comparison.IsProper.reread_eq_self_iff {c : Comparison} (hc : c.IsProper)
    (hfits : c.Fits) : c.reread = c ↔ ∀ x ∈ c.vals, x.readsBack = true := by
  have hmatched : c.matched.map FunctionMatch.reread = c.matched ↔
      ∀ m ∈ c.matched, m.prob.val.readsBack = true := by
    rw [map_eq_self_iff]
    exact forall₂_congr fun m hm =>
      FunctionMatch.reread_eq_self_iff (hc.matched m hm) (hfits.2 m hm)
  rw [vals, List.forall_mem_cons, List.forall_mem_map, ← hmatched,
    ← hc.confidence.reread_eq_self_iff hfits.1]
  constructor
  · intro h
    exact ⟨congrArg Comparison.confidence h, congrArg Comparison.matched h⟩
  · rintro ⟨hconfidence, hsame⟩
    rw [reread, hconfidence, hsame]

/-! ## What is read -/

namespace RankedLibrary

def reread (r : RankedLibrary) : RankedLibrary := { r with comparison := r.comparison.reread }

variable {r : RankedLibrary}

theorem reread_eq_self_iff : r.reread = r ↔ r.comparison.reread = r.comparison :=
  ⟨congrArg comparison, congrArg fun c => { r with comparison := c }⟩

theorem toJson_document (r : RankedLibrary) :
    r.toJson.document = fieldsOf ([("library", .text (unitsOf r.library.text)),
        ("val", r.comparison.confidence.val.document),
        ("num", .number (.ofInteger r.comparison.confidence.num)),
        ("den", .number (.ofInteger r.comparison.confidence.den))] ++
      if r.comparison.matched.isEmpty then []
      else [("matches", .array (r.comparison.matched.map fun m => m.toJson.document))]) := by
  rw [toJson, Comparison.fields]
  split
  · rfl
  · rw [Json.document, Json.fieldDocuments_eq_map, fieldsOf]
    simp only [Confidence.fields, List.map_cons, List.map_nil, List.cons_append, List.nil_append,
      Json.document, Json.documents_eq_map, List.map_map]
    rfl

theorem record?_document (r : RankedLibrary) :
    record? ["library", "val", "num", "den", "matches"] r.toJson.document =
      some [some (.text (unitsOf r.library.text)), some r.comparison.confidence.val.document,
        some (.number (.ofInteger r.comparison.confidence.num)),
        some (.number (.ofInteger r.comparison.confidence.den)),
        if r.comparison.matched.isEmpty then none
        else some (.array (r.comparison.matched.map fun m => m.toJson.document))] := by
  rw [toJson_document]
  split
  · rw [record?, fields?_fieldsOf]
    · rfl
    · intro items heq
      cases heq
  · rw [record?_fieldsOf (by rfl) (by decide)]
    rfl

theorem isReadable_toJson (hr : r.comparison.IsProper) (hfits : r.comparison.Fits) (depth : Nat) :
    r.toJson.document.isReadable (depth + 4) = true := by
  obtain ⟨hval, hnum, hden⟩ := hr.confidence.isReadable_fields hfits.1 (depth + 3)
  have hmatched : (Document.array (r.comparison.matched.map fun m => m.toJson.document)).isReadable
      (depth + 3) = true := by
    rw [isReadable_array_map, List.all_eq_true]
    intro m hm
    exact FunctionMatch.isReadable_toJson (hr.matched m hm) (hfits.2 m hm) depth
  rw [toJson_document, isReadable_fieldsOf, List.all_append]
  split <;> simp [isReadable_unitsOf, hval, hnum, hden, hmatched]

theorem ofDocument?_toJson (hr : r.comparison.IsProper)
    (hid : LibraryId.ofText? r.library.text = some r.library) :
    ofDocument? r.toJson.document = if r.comparison.Fits then some r.reread else none := by
  have hlibrary : libraryOf? (.text (unitsOf r.library.text)) = some r.library := by
    rw [libraryOf?, text?, string?_unitsOf]
    exact hid
  have hmatched : optional? [] (list? FunctionMatch.ofDocument?)
      (if r.comparison.matched.isEmpty then none
        else some (.array (r.comparison.matched.map fun m => m.toJson.document))) =
      if ∀ m ∈ r.comparison.matched, m.Fits then
        some (r.comparison.matched.map FunctionMatch.reread) else none := by
    split
    · rename_i hempty
      rw [List.isEmpty_iff.1 hempty]
      rfl
    · exact list?_map_ite fun m hm => FunctionMatch.ofDocument?_toJson (hr.matched m hm)
  obtain ⟨fields, hfields⟩ : ∃ fields, r.toJson.document = .object fields :=
    ⟨_, toJson_document r⟩
  have hrecord := record?_document r
  have hreadable hfits := isReadable_toJson hr hfits 122
  rw [hfields] at hrecord hreadable ⊢
  simp only [ofDocument?, hrecord, Option.bind_eq_bind, Option.bind_some, required?, hlibrary,
    hr.confidence.ofFields?_written, hmatched]
  by_cases hfits : r.comparison.Fits
  · have hfields : fieldsReadable (nestingLimit - 2) fields = true := by
      have hall := hreadable hfits
      rw [isReadable, Bool.and_eq_true] at hall
      exact hall.2
    rw [if_pos hfits, if_pos hfits.1, if_pos hfits.2, hfields]
    rfl
  · rw [if_neg hfits]
    rcases not_and_or.1 hfits with hlarge | hlarge <;>
      cases fieldsReadable (nestingLimit - 2) fields <;> simp [hlarge]

/-- A ranking is read back with the values that are read from their texts, if the counts fit. -/
theorem ofText?_compact {ranking : List RankedLibrary}
    (h : ∀ r ∈ ranking, r.comparison.IsProper ∧ LibraryId.ofText? r.library.text = some r.library) :
    ofText? (rankingToJson ranking).compact =
      if ∀ r ∈ ranking, r.comparison.Fits then some (ranking.map reread) else none := by
  rw [ofText?, Json.ofText?_compact, Option.bind_some, rankingToJson, Json.document,
    Json.documents_eq_map, List.map_map]
  exact list?_map_ite fun r hr => ofDocument?_toJson (h r hr).1 (h r hr).2

end RankedLibrary

namespace Corpus

theorem exists_of_mem_rank {corpus : Corpus} {strategy : Strategy} {options : RankOptions}
    {unknown : Signature} {r : RankedLibrary} (h : r ∈ corpus.rank strategy options unknown) :
    ∃ e ∈ corpus.entries, r = e.ranked strategy unknown := by
  have hcompared := (List.mergeSort_perm _ _).mem_iff.1 (List.mem_of_mem_take h)
  obtain ⟨e, he, rfl⟩ := List.mem_map.1 hcompared
  obtain ⟨i, -, hi⟩ := List.mem_filterMap.1 he
  exact ⟨e, Array.mem_of_getElem? hi, rfl⟩

/-- **Rankings are read back but for rounding.**  If the ids of a corpus were read from texts, its
ranking is read back with the same libraries, counts and matches as long as all counts fit 64 bits,
and each value is the one that is read from its shortest digits.  So the ranking comes back as it was
just when every value in it does. -/
theorem ofText?_compact_rank_iff (corpus : Corpus) (strategy : Strategy) (options : RankOptions)
    (unknown : Signature)
    (hids : ∀ e ∈ corpus.entries, ∃ text, LibraryId.ofText? text = some e.id) :
    let ranking := corpus.rank strategy options unknown
    let read := RankedLibrary.ofText? (rankingToJson ranking).compact
    (read = if ∀ r ∈ ranking, r.comparison.Fits then some (ranking.map RankedLibrary.reread)
        else none) ∧
      (read = some ranking ↔ (∀ r ∈ ranking, r.comparison.Fits) ∧
        ∀ r ∈ ranking, ∀ x ∈ r.comparison.vals, x.readsBack = true) := by
  intro ranking read
  have hproper : ∀ r ∈ ranking, r.comparison.IsProper ∧
      LibraryId.ofText? r.library.text = some r.library := by
    intro r hr
    obtain ⟨e, he, rfl⟩ := exists_of_mem_rank hr
    obtain ⟨text, htext⟩ := hids e he
    obtain ⟨rfl, -⟩ := LibraryId.ofText?_eq_some_iff.1 htext
    exact ⟨strategy.isProper_compare unknown e.signature, htext⟩
  have hread : read = _ := RankedLibrary.ofText?_compact hproper
  refine ⟨hread, ?_⟩
  rw [hread]
  split
  · rename_i hfits
    rw [Option.some_inj, map_eq_self_iff, and_iff_right hfits]
    exact forall₂_congr fun r hr =>
      RankedLibrary.reread_eq_self_iff.trans ((hproper r hr).1.reread_eq_self_iff (hfits r hr))
  · rename_i hlarge
    exact iff_of_false (Option.some_ne_none ranking).symm fun h => hlarge h.1

def functionsNamed (characters : String) : Signature :=
  ⟨characters.toList.map fun c => { name := c.toString, index := 0 }, []⟩

def oneFunction : Corpus := ofEntries [(⟨"lib", "1"⟩, functionsNamed "a")]

theorem exists_ofText?_oneFunction :
    ∀ e ∈ oneFunction.entries, ∃ text, LibraryId.ofText? text = some e.id := by
  intro e he
  have hentries : oneFunction.entries = #[⟨⟨"lib", "1"⟩, functionsNamed "a"⟩] := rfl
  rw [hentries, Array.mem_singleton] at he
  subst he
  exact ⟨"lib@1", by decide⟩

theorem names_functionsNamed {characters : String}
    (h : (characters.toList.map Char.toString).Pairwise fun a b => textLe a b = true) :
    (functionsNamed characters).names =
      Ascending.dropRepeats (characters.toList.map Char.toString) := by
  rw [Signature.names, functionsNamed, List.map_map, textSet, sortTexts]
  exact congrArg Ascending.dropRepeats (List.mergeSort_of_pairwise h)

theorem rank_oneFunction (characters : String)
    (h : (characters.toList.map Char.toString).Pairwise fun a b => textLe a b = true) :
    oneFunction.rank (.functionNames .coverage) {} (functionsNamed characters) =
      [⟨⟨"lib", "1"⟩, ⟨Overlap.coverage.confidence textLt
        (Ascending.dropRepeats (characters.toList.map Char.toString)) ["a"], []⟩⟩] := by
  have hrank : oneFunction.rank (.functionNames .coverage) {} (functionsNamed characters) =
      [⟨⟨"lib", "1"⟩, ⟨Overlap.coverage.confidence textLt (functionsNamed characters).names
        (functionsNamed "a").names, []⟩⟩] := by
    have hcompared : oneFunction.compared {} (functionsNamed characters) =
        [⟨⟨"lib", "1"⟩, functionsNamed "a"⟩] := rfl
    rw [rank_eq_take, ranking, hcompared, List.map_singleton, List.mergeSort_singleton]
    rfl
  rw [hrank, names_functionsNamed h, names_functionsNamed (by decide)]
  rfl

/-- A third has sixteen digits that make an integer below `2 ^ 53`. -/
theorem ofText?_compact_rank_third :
    (∀ e ∈ oneFunction.entries, ∃ text, LibraryId.ofText? text = some e.id) ∧
      let ranking := oneFunction.rank (.functionNames .coverage) {} (functionsNamed "abc")
      (ranking.map (·.comparison.confidence.den)) = [3] ∧
        RankedLibrary.ofText? (rankingToJson ranking).compact = some ranking := by
  have hrank := rank_oneFunction "abc" (by decide)
  refine ⟨exists_ofText?_oneFunction, by rw [hrank]; decide +kernel, ?_⟩
  refine (ofText?_compact_rank_iff oneFunction (.functionNames .coverage) {} (functionsNamed "abc")
    exists_ofText?_oneFunction).2.2 ?_
  rw [hrank]
  decide +kernel

/-- The digits of an eleventh make an integer between `2 ^ 53` and `2 ^ 54` that is odd.  Rounding
it first makes the quotient end in another value. -/
theorem ofText?_compact_rank_eleventh :
    (∀ e ∈ oneFunction.entries, ∃ text, LibraryId.ofText? text = some e.id) ∧
      let ranking := oneFunction.rank (.functionNames .coverage) {} (functionsNamed "abcdefghijk")
      (rankingToJson ranking).compact = "[\x7b\"library\":\"lib@1\",\"val\":0.09090909090909091," ++
        "\"num\":1,\"den\":11\x7d]" ∧
      ∃ back, RankedLibrary.ofText? (rankingToJson ranking).compact = some back ∧
        back ≠ ranking := by
  rw [rank_oneFunction "abcdefghijk" (by decide)]
  refine ⟨exists_ofText?_oneFunction, by decide +kernel, ?_⟩
  exact ⟨[⟨⟨"lib", "1"⟩, ⟨⟨.ranked false 4591215111030249287 (by decide), 1, 11⟩, []⟩⟩],
    by decide +kernel, by decide +kernel⟩

end Corpus

end Fingerprint
