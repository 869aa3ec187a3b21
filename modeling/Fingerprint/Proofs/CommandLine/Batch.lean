import Mathlib.Data.List.Perm.Basic
import Mathlib.Data.String.Basic
import Mathlib.Order.Compare
import Mathlib.Tactic.Common
import Std.Data.TreeMap.Lemmas
import Fingerprint.Proofs.CommandLine.Junk
/-!
# Batches

The candidates of several files are listed by the path of each file.  What fails for one file
leaves that file out and nothing else, so a batch lists what its files give one by one.
-/

namespace Fingerprint

variable {corpus : Corpus}

/-- Of units with the same name the last counts. -/
theorem getElem?_foldl_insert {β : Type} (f : β → List LibraryId) (units : List (String × β))
    (map : Std.TreeMap String (List LibraryId)) (name : String) :
    (units.foldl (fun map unit => map.insert unit.1 (f unit.2)) map)[name]? =
      ((units.reverse.lookup name).map f).or map[name]? := by
  induction units generalizing map with
  | nil => rfl
  | cons unit rest ih =>
    obtain ⟨own, b⟩ := unit
    rw [List.foldl_cons, ih, List.reverse_cons, List.lookup_append, Std.TreeMap.getElem?_insert]
    cases rest.reverse.lookup name with
    | some found => rfl
    | none =>
      by_cases h : own = name
      · subst h
        simp
      · rw [if_neg (by simpa using h), List.lookup_cons, beq_false_of_ne (Ne.symm h)]
        rfl

theorem mem_candidateMap {units : List (String × Signature)} {name : String}
    {ids : List LibraryId} : (name, ids) ∈ candidateMap corpus units ↔
      ∃ signature, units.reverse.lookup name = some signature ∧
        corpus.candidateIds signature = ids := by
  rw [candidateMap, Std.TreeMap.mem_toList_iff_getElem?_eq_some,
    getElem?_foldl_insert corpus.candidateIds units ∅ name]
  simp [Option.or_none]

theorem pairwise_candidateMap (corpus : Corpus) (units : List (String × Signature)) :
    (candidateMap corpus units).Pairwise fun a b => a.1 < b.1 :=
  Std.TreeMap.ordered_keys_toList.imp fun h => compare_lt_iff_lt.1 h

namespace CommandLine

variable {files : Files} {options : TokenOptions} {settings : Settings} {paths : List String}

/-- Whether the signature of a file breaks off the run. -/
def Tears (files : Files) (options : TokenOptions) (path : String) : Prop :=
  ∃ kind, signatureOf files options path = .error (.fault (.torn kind))

def unitsOf (files : Files) (options : TokenOptions) (paths : List String) :
    List (String × Signature) :=
  paths.filterMap fun path => (signatureOf files options path).toOption.map (path, ·)

theorem mapM_unitOf (h : ∀ path ∈ paths, ¬ Tears files options path) :
    ∃ units, paths.mapM (unitOf files options) = .ok units ∧
      units.filterMap id = unitsOf files options paths := by
  induction paths with
  | nil => exact ⟨[], rfl, rfl⟩
  | cons path rest ih =>
    obtain ⟨units, hunits, heq⟩ := ih fun p hp => h p (List.mem_cons_of_mem _ hp)
    have hpath : unitOf files options path =
        .ok ((signatureOf files options path).toOption.map (path, ·)) := by
      rw [unitOf]
      split
      case h_1 signature hsignature => rw [hsignature]; rfl
      case h_2 kind htorn => exact absurd ⟨kind, htorn⟩ (h path List.mem_cons_self)
      case h_3 e _ herror => rw [herror]; rfl
    refine ⟨(signatureOf files options path).toOption.map (path, ·) :: units, ?_, ?_⟩
    · rw [List.mapM_cons, hpath, hunits]
      rfl
    · rw [unitsOf, List.filterMap_cons, List.filterMap_cons, ← unitsOf, ← heq]
      rfl

theorem mem_unitsOf {path : String} {signature : Signature} :
    (path, signature) ∈ unitsOf files options paths ↔
      path ∈ paths ∧ signatureOf files options path = .ok signature := by
  rw [unitsOf, List.mem_filterMap]
  constructor
  · rintro ⟨own, hown, hunit⟩
    obtain ⟨found, hfound, heq⟩ := Option.map_eq_some_iff.1 hunit
    cases heq
    exact ⟨hown, toOption_eq_some.1 hfound⟩
  · rintro ⟨hpath, hsignature⟩
    exact ⟨path, hpath, by rw [hsignature]; rfl⟩

theorem lookup_unitsOf {path : String} {signature : Signature} :
    (unitsOf files options paths).reverse.lookup path = some signature ↔
      path ∈ paths ∧ signatureOf files options path = .ok signature := by
  rw [← mem_unitsOf]
  have hfound : ∀ {found}, (unitsOf files options paths).reverse.lookup path = some found →
      (path, found) ∈ unitsOf files options paths := by
    intro found h
    obtain ⟨before, after, hunits, -⟩ := List.lookup_eq_some_iff.1 h
    rw [← List.mem_reverse, hunits]
    exact List.mem_append_right _ List.mem_cons_self
  refine ⟨hfound, fun hmem => ?_⟩
  cases hlookup : (unitsOf files options paths).reverse.lookup path with
  | none =>
    have hnone := List.lookup_eq_none_iff.1 hlookup _ (List.mem_reverse.2 hmem)
    simp at hnone
  | some found =>
    have hsame := (mem_unitsOf.1 (hfound hlookup)).2.symm.trans (mem_unitsOf.1 hmem).2
    rw [Except.ok.inj hsame]

def candidatesOf (files : Files) (options : TokenOptions) (corpus : Corpus)
    (paths : List String) : List (String × List LibraryId) :=
  candidateMap corpus (unitsOf files options paths)

theorem mem_candidatesOf {path : String} {ids : List LibraryId} :
    (path, ids) ∈ candidatesOf files options corpus paths ↔ path ∈ paths ∧
      ∃ signature, signatureOf files options path = .ok signature ∧
        ids = corpus.candidateIds signature := by
  rw [candidatesOf, mem_candidateMap]
  simp only [lookup_unitsOf, and_assoc, exists_and_left, eq_comm (a := ids)]

theorem pairwise_candidatesOf (files : Files) (options : TokenOptions) (corpus : Corpus)
    (paths : List String) :
    (candidatesOf files options corpus paths).Pairwise fun a b => a.1 < b.1 :=
  pairwise_candidateMap corpus _

theorem candidatesOf_congr {paths' : List String}
    (h : ∀ path signature, signatureOf files options path = .ok signature →
      (path ∈ paths ↔ path ∈ paths')) :
    candidatesOf files options corpus paths = candidatesOf files options corpus paths' := by
  have hpair := pairwise_candidatesOf files options corpus paths
  have hpair' := pairwise_candidatesOf files options corpus paths'
  have hne : ∀ {a b : String × List LibraryId}, a.1 < b.1 → a ≠ b := by
    rintro a b hlt rfl
    exact lt_irrefl _ hlt
  have hperm : (candidatesOf files options corpus paths).Perm
      (candidatesOf files options corpus paths') := by
    rw [List.perm_ext_iff_of_nodup (hpair.imp hne) (hpair'.imp hne)]
    rintro ⟨path, ids⟩
    rw [mem_candidatesOf, mem_candidatesOf]
    constructor
    · rintro ⟨hpath, signature, hsignature, hids⟩
      exact ⟨(h path signature hsignature).1 hpath, signature, hsignature, hids⟩
    · rintro ⟨hpath, signature, hsignature, hids⟩
      exact ⟨(h path signature hsignature).2 hpath, signature, hsignature, hids⟩
  exact hperm.eq_of_pairwise (fun a b _ _ hab hba => absurd hab (lt_asymm hba)) hpair hpair'

def candidateFields (files : Files) (options : TokenOptions) (corpus : Corpus)
    (paths : List String) : List (String × Json) :=
  (candidatesOf files options corpus paths).map fun (path, ids) =>
    (path, .array (ids.map LibraryId.toJson))

theorem mem_candidateFields {path : String} {json : Json} :
    (path, json) ∈ candidateFields files options corpus paths ↔ path ∈ paths ∧
      ∃ signature, signatureOf files options path = .ok signature ∧
        json = .array ((corpus.candidateIds signature).map LibraryId.toJson) := by
  rw [candidateFields, List.mem_map]
  constructor
  · rintro ⟨⟨own, ids⟩, hmem, heq⟩
    obtain ⟨hown, signature, hsignature, rfl⟩ := mem_candidatesOf.1 hmem
    cases heq
    exact ⟨hown, signature, hsignature, rfl⟩
  · rintro ⟨hpath, signature, hsignature, rfl⟩
    exact ⟨_, mem_candidatesOf.2 ⟨hpath, signature, hsignature, rfl⟩, rfl⟩

theorem pairwise_candidateFields (files : Files) (options : TokenOptions) (corpus : Corpus)
    (paths : List String) :
    (candidateFields files options corpus paths).Pairwise fun a b => a.1 < b.1 :=
  List.pairwise_map.2 (pairwise_candidatesOf files options corpus paths)

theorem runCandidates_eq {r : CandidatesRequest} (hload : loadCorpus files r.corpus = .ok corpus)
    (htears : ∀ path ∈ r.files, ¬ Tears files settings.extract path) :
    runCandidates files settings r =
      .ok (.object (candidateFields files settings.extract corpus r.files)) := by
  obtain ⟨units, hunits, heq⟩ := mapM_unitOf htears
  simp only [runCandidates, hload, hunits]
  rw [candidateFields, candidatesOf, ← heq]
  rfl

theorem run_of_runCandidates {config : Option String} {r : CandidatesRequest} {json : Json}
    (hsettings : settingsOf files config = .ok settings)
    (h : runCandidates files settings r = .ok json) (verbose : Bool) :
    run files ⟨config, verbose, .candidates r⟩ =
      .ok (if r.pretty then json.pretty else json.compact) := by
  rw [run, bind_eq_ok]
  exact ⟨settings, hsettings, bind_eq_ok.2 ⟨json, h, rfl⟩⟩

/-- With a corpus that loads, and if no signature breaks off the run, the candidates of a list of
files are printed.  There is a field for each file that has a signature, with the candidates for
it, and no other.  So a batch prints what its files give one by one, and files without a signature,
the order and repetitions do not show. -/
theorem run_candidates_isolated (config : Option String) (verbose : Bool) (r : CandidatesRequest)
    (hsettings : settingsOf files config = .ok settings)
    (hload : loadCorpus files r.corpus = .ok corpus)
    (htears : ∀ path ∈ r.files, ¬ Tears files settings.extract path) :
    ∃ fields : List (String × Json),
      run files ⟨config, verbose, .candidates r⟩ =
        .ok (if r.pretty then (Json.object fields).pretty else (Json.object fields).compact) ∧
      runCandidates files settings r = .ok (.object fields) ∧
      fields.Pairwise (fun a b => a.1 < b.1) ∧
      (∀ path json, (path, json) ∈ fields ↔ path ∈ r.files ∧
        ∃ signature, signatureOf files settings.extract path = .ok signature ∧
          json = .array ((corpus.candidateIds signature).map LibraryId.toJson)) ∧
      (∀ field, field ∈ fields ↔ ∃ path ∈ r.files, ∃ own,
        runCandidates files settings { r with files := [path] } = .ok (.object own) ∧
          field ∈ own) ∧
      ∀ others : List String,
        (∀ path ∈ others, ¬ Tears files settings.extract path) →
        (∀ path signature, signatureOf files settings.extract path = .ok signature →
          (path ∈ others ↔ path ∈ r.files)) →
        run files ⟨config, verbose, .candidates { r with files := others }⟩ =
          run files ⟨config, verbose, .candidates r⟩ := by
  have hrun := runCandidates_eq hload htears
  have hprint := run_of_runCandidates hsettings hrun verbose
  refine ⟨candidateFields files settings.extract corpus r.files, hprint, hrun,
    pairwise_candidateFields .., fun path json => mem_candidateFields, ?union, ?others⟩
  case union =>
    rintro ⟨path, json⟩
    have hone : ∀ own ∈ r.files, runCandidates files settings { r with files := [own] } =
        .ok (.object (candidateFields files settings.extract corpus [own])) := by
      intro own hown
      refine runCandidates_eq hload fun p hp => ?_
      rw [List.mem_singleton.1 hp]
      exact htears own hown
    rw [mem_candidateFields]
    constructor
    · rintro ⟨hpath, hsignature⟩
      exact ⟨path, hpath, _, hone path hpath,
        mem_candidateFields.2 ⟨List.mem_singleton_self _, hsignature⟩⟩
    · rintro ⟨own, hown, fields, hfields, hmem⟩
      rw [hone own hown] at hfields
      cases hfields
      obtain ⟨hpath, hsignature⟩ := mem_candidateFields.1 hmem
      exact ⟨List.mem_singleton.1 hpath ▸ hown, hsignature⟩
  case others =>
    intro others htorn hsame
    have hother : runCandidates files settings { r with files := others } =
        .ok (.object (candidateFields files settings.extract corpus others)) :=
      runCandidates_eq hload htorn
    have hfields : candidateFields files settings.extract corpus others =
        candidateFields files settings.extract corpus r.files := by
      rw [candidateFields, candidatesOf_congr hsame, candidateFields]
    rw [hprint, run_of_runCandidates hsettings hother, hfields]

/-! ## A batch of four -/

theorem ofPath_eq {path extension : String} (hextension : Path.extension? path = some extension)
    (hlower : extension.toLower = extension) :
    Language.ofPath path =
      match Language.extensions.lookup extension with
      | some language => .ok language
      | none => .error extension := by
  cases hlanguage : Language.extensions.lookup extension <;>
    simp only [Language.ofPath, hextension, Language.ofExtension?, hlower, hlanguage]

theorem signatureOf_shelf_source : ∃ signature, signatureOf shelf {} "x.js" = .ok signature ∧
    signature.literals = [.text "/abc/"] := by
  have hcontent : ((shelf.content? "x.js").bind fun content =>
      match content with
      | .source _ t => (Signature.extract {} ⟨t, []⟩).toOption.map (·.literals)
      | _ => none) = some [.text "/abc/"] := by
    rw [Files.content?, Files.locate?_eq]
    decide +kernel
  have hextension : Path.extension? "x.js" = some "js" := by
    rw [Path.extension?, Path.fileName?, Path.splitOn_eq]
    decide
  have hlanguage : Language.ofPath "x.js" = .ok .javaScript :=
    ofPath_eq hextension (String.toList_injective (String.toList_map.trans rfl))
  obtain ⟨content, hx, hliterals⟩ := Option.bind_eq_some_iff.1 hcontent
  split at hliterals
  case h_1 source t =>
    obtain ⟨signature, hsignature, hliterals⟩ := Option.map_eq_some_iff.1 hliterals
    rw [toOption_eq_some] at hsignature
    refine ⟨signature, ?_, hliterals⟩
    simp only [signatureOf, hx, hlanguage, hsignature]
    rfl
  case h_2 => cases hliterals

theorem signatureOf_shelf_missing :
    signatureOf shelf {} "y.js" = .error (.fileNotFound "y.js") := by
  have hcontent : (shelf.content? "y.js").isNone = true := by
    rw [Files.content?, Files.locate?_eq]
    decide
  rw [signatureOf, Option.isNone_iff_eq_none.1 hcontent]

theorem signatureOf_shelf_unsupported :
    signatureOf shelf {} "notes.txt" = .error (.unsupportedLanguage "txt") := by
  have hcontent : (shelf.content? "notes.txt").isSome = true := by
    rw [Files.content?, Files.locate?_eq]
    decide
  have hextension : Path.extension? "notes.txt" = some "txt" := by
    rw [Path.extension?, Path.fileName?, Path.splitOn_eq]
    decide
  have hlanguage : Language.ofPath "notes.txt" = .error "txt" :=
    ofPath_eq hextension (String.toList_injective (String.toList_map.trans rfl))
  obtain ⟨content, hnotes⟩ := Option.isSome_iff_exists.1 hcontent
  simp only [signatureOf, hnotes, hlanguage]

/-- A missing file and one in another language are left out, and the repetition does not show. -/
theorem run_candidates_isolated_shelf :
    ∃ fields : List (String × Json),
      run shelf ⟨none, false, .candidates
        ⟨["y.js", "x.js", "notes.txt", "x.js"], "corpus", false⟩⟩ =
          .ok (Json.object fields).compact ∧
      ("x.js", Json.array [LibraryId.toJson ⟨"a", "1"⟩]) ∈ fields ∧
      ∀ field ∈ fields, field.1 = "x.js" := by
  obtain ⟨library, hlibrary, hload⟩ := loadCorpus_shelf
  obtain ⟨signature, hx, hliterals⟩ := signatureOf_shelf_source
  have hpaths : ∀ path ∈ ["y.js", "x.js", "notes.txt", "x.js"],
      path = "x.js" ∨ signatureOf shelf {} path = .error (.fileNotFound path) ∨
        signatureOf shelf {} path = .error (.unsupportedLanguage "txt") := by
    simp [signatureOf_shelf_missing, signatureOf_shelf_unsupported]
  have htears : ∀ path ∈ ["y.js", "x.js", "notes.txt", "x.js"], ¬ Tears shelf {} path := by
    rintro path hpath ⟨kind, htorn⟩
    rcases hpaths path hpath with rfl | h | h
    · cases hx.symm.trans htorn
    · cases h.symm.trans htorn
    · cases h.symm.trans htorn
  obtain ⟨fields, hrun, -, -, hfields, -⟩ := run_candidates_isolated none false
    ⟨["y.js", "x.js", "notes.txt", "x.js"], "corpus", false⟩ rfl hload htears
  refine ⟨fields, hrun, (hfields _ _).2 ⟨by simp, signature, hx, ?_⟩, ?_⟩
  · have hids : ((Signature.ofText? libraryText).map fun library =>
        (Corpus.ofEntries [(⟨"a", "1"⟩, library)]).candidateIds ⟨[], [.text "/abc/"]⟩) =
          some [⟨"a", "1"⟩] := by
      decide +kernel
    rw [hlibrary] at hids
    have hunknown : (Corpus.ofEntries [(⟨"a", "1"⟩, library)]).candidateIds signature =
        [⟨"a", "1"⟩] := by
      rw [Corpus.candidateIds, hliterals]
      exact Option.some.inj hids
    rw [hunknown]
    rfl
  · rintro ⟨path, json⟩ hfield
    obtain ⟨hpath, own, hown, -⟩ := (hfields path json).1 hfield
    rcases hpaths path hpath with h | h | h
    · exact h
    · cases h.symm.trans hown
    · cases h.symm.trans hown

end CommandLine

end Fingerprint
