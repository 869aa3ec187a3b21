import Fingerprint.CommandLine.Run
import Fingerprint.Proofs.Files.Directories
import Fingerprint.Proofs.Tree.Nodes
import Fingerprint.Tree.Rows
/-!
# Junk in a corpus

A corpus is loaded from all entries of a directory.  An entry that is no library is skipped, just as
if it were not there, but for one kind: under the name of a library, what cannot be read as a text
stops the run.
-/

namespace Fingerprint

/-! ## Lists with one element more -/

section MapM

variable {ε α β : Type} [DecidableEq α] {f g : α → Except ε (Option β)} {a : α} {items : List α}
  {kept : List (Option β)}

theorem exists_mapM_eq_ok (hskip : f a = .ok none) (hsame : ∀ b ∈ items, b ≠ a → f b = g b)
    (h : (items.filter (· ≠ a)).mapM g = .ok kept) :
    ∃ all, items.mapM f = .ok all ∧ all.filterMap id = kept.filterMap id := by
  induction items generalizing kept with
  | nil => exact ⟨kept, h, rfl⟩
  | cons b rest ih =>
    have hrest : ∀ b ∈ rest, b ≠ a → f b = g b := fun b hb => hsame b (List.mem_cons_of_mem _ hb)
    by_cases hb : b = a
    · subst hb
      rw [List.filter_cons_of_neg (by simp)] at h
      obtain ⟨all, hall, heq⟩ := ih hrest h
      exact ⟨none :: all, by rw [List.mapM_cons, hskip, hall]; rfl, heq⟩
    · rw [List.filter_cons_of_pos (by simpa using hb), List.mapM_cons, bind_eq_ok] at h
      obtain ⟨found, hfound, h⟩ := h
      rw [bind_eq_ok] at h
      obtain ⟨later, hlater, h⟩ := h
      cases h
      obtain ⟨all, hall, heq⟩ := ih hrest hlater
      refine ⟨found :: all, ?_, by cases found <;> simpa using heq⟩
      rw [List.mapM_cons, hsame b List.mem_cons_self hb, hfound, hall]
      rfl

theorem mapM_eq_error {e : ε} (hfail : f a = .error e) (ha : a ∈ items)
    (hsame : ∀ b ∈ items, b ≠ a → f b = g b)
    (h : (items.filter (· ≠ a)).mapM g = .ok kept) : items.mapM f = .error e := by
  induction items generalizing kept with
  | nil => cases ha
  | cons b rest ih =>
    by_cases hb : b = a
    · rw [List.mapM_cons, hb, hfail]
      rfl
    · rw [List.filter_cons_of_pos (by simpa using hb), List.mapM_cons, bind_eq_ok] at h
      obtain ⟨found, hfound, h⟩ := h
      rw [bind_eq_ok] at h
      obtain ⟨later, hlater, -⟩ := h
      have hmem : a ∈ rest := (List.mem_cons.1 ha).resolve_left (Ne.symm hb)
      have hrest := ih hmem (fun b hb => hsame b (List.mem_cons_of_mem _ hb)) hlater
      rw [List.mapM_cons, hsame b List.mem_cons_self hb, hfound, hrest]
      rfl

end MapM

/-! ## What a command line reads -/

namespace CommandLine

/-- The files that a command line names, but for the corpus. -/
def reads (line : CommandLine) : List String :=
  line.config.toList ++
    match line.command with
    | .extract r => [r.file]
    | .matching r => [r.file]
    | .candidates r => r.files

def corpus? (line : CommandLine) : Option String :=
  match line.command with
  | .extract _ => none
  | .matching r => some r.corpus
  | .candidates r => some r.corpus

variable {files other : Files}

theorem settingsOf_congr {config : Option String}
    (h : ∀ path ∈ config, files.content? path = other.content? path) :
    settingsOf files config = settingsOf other config := by
  cases config with
  | none => rfl
  | some path =>
    have hpath := h path rfl
    have hhas : files.hasPath path = other.hasPath path := by
      rw [Files.hasPath, Files.hasPath, hpath]
    simp only [settingsOf, hhas, Files.read_eq hpath]

theorem signatureOf_congr {options : TokenOptions} {path : String}
    (h : files.content? path = other.content? path) :
    signatureOf files options path = signatureOf other options path := by
  rw [signatureOf, signatureOf, h]

theorem mapM_unitOf_congr {options : TokenOptions} {paths : List String}
    (h : ∀ path ∈ paths, files.content? path = other.content? path) :
    paths.mapM (unitOf files options) = paths.mapM (unitOf other options) := by
  induction paths with
  | nil => rfl
  | cons path rest ih =>
    have hpath : unitOf files options path = unitOf other options path := by
      rw [unitOf, unitOf, signatureOf_congr (h path List.mem_cons_self)]
    rw [List.mapM_cons, List.mapM_cons, hpath, ih fun p hp => h p (List.mem_cons_of_mem _ hp)]

/-- A run depends on the files that its command line names and on the corpus that is loaded. -/
theorem run_congr {line : CommandLine}
    (hreads : ∀ path ∈ line.reads, files.content? path = other.content? path)
    (hcorpus : ∀ path ∈ line.corpus?, loadCorpus files path = loadCorpus other path) :
    run files line = run other line := by
  obtain ⟨config, verbose, command⟩ := line
  have hconfig : ∀ path ∈ config, files.content? path = other.content? path := fun path hpath =>
    hreads path (List.mem_append_left _ (Option.mem_toList.2 hpath))
  have hfiles := fun path hpath => hreads path (List.mem_append_right _ hpath)
  rw [run, run, settingsOf_congr hconfig]
  cases command with
  | extract r =>
    simp only [runExtract, signatureOf_congr (hfiles r.file List.mem_cons_self)]
  | matching r =>
    simp only [runMatch, signatureOf_congr (hfiles r.file List.mem_cons_self),
      hcorpus r.corpus rfl]
  | candidates r =>
    simp only [runCandidates, mapM_unitOf_congr hfiles, hcorpus r.corpus rfl]

theorem run_ne_ok {line : CommandLine} {directory : String} {e : RunError}
    (hline : line.corpus? = some directory) (hload : loadCorpus files directory = .error e)
    (out : String) : run files line ≠ .ok out := by
  obtain ⟨config, verbose, command⟩ := line
  intro h
  rw [run, bind_eq_ok] at h
  obtain ⟨settings, -, h⟩ := h
  cases command with
  | extract r => cases hline
  | matching r =>
    cases hline
    rw [bind_eq_ok] at h
    obtain ⟨json, hjson, -⟩ := h
    rw [runMatch, bind_eq_ok] at hjson
    obtain ⟨unknown, -, hjson⟩ := hjson
    rw [hload] at hjson
    cases hjson
  | candidates r =>
    cases hline
    rw [bind_eq_ok] at h
    obtain ⟨json, hjson, -⟩ := h
    rw [runCandidates, hload] at hjson
    cases hjson

/-! ## A corpus with an entry more -/

variable {directory name : String} {location : List String} {corpus : Corpus}

theorem name_ne_of_libraryOfName? {id : LibraryId} (h : libraryOfName? name = some id) :
    name ≠ "" ∧ name ≠ "." ∧ name ≠ ".." := by
  have hnone : ∀ other ∈ ["", ".", ".."], libraryOfName? other = none := by decide
  have hnot : name ∉ ["", ".", ".."] := by
    intro hname
    rw [hnone name hname] at h
    cases h
  simpa using hnot

theorem loadLibrary_without {b : String} (hplain : files.HasPlainNames)
    (hlocation : (files.without (location ++ [name])).locate? directory = some location)
    (hdirectory : (files.without (location ++ [name])).isDirectory location = true)
    (hb : b ∈ files.namesIn directory) (hne : b ≠ name) :
    loadLibrary files directory b =
      loadLibrary (files.without (location ++ [name])) directory b := by
  cases hid : libraryOfName? b with
  | none => rw [loadLibrary, loadLibrary, hid]
  | some id =>
    obtain ⟨hempty, hdot, hdots⟩ := name_ne_of_libraryOfName? hid
    have hseparator := hplain.not_mem_of_mem_namesIn (Files.locate?_of_without hlocation) hb
    have hjoin := Files.locate?_join hlocation hdirectory hseparator hempty hdot hdots
    have hapart : ∀ {x y : String}, location ++ [x] <+: location ++ [y] → x = y := by
      intro x y h
      have hlist := h.eq_of_length (by simp)
      simpa using hlist
    have hcontent := Files.content?_eq hjoin (fun h => hne (hapart h))
      (fun h => hne (hapart h).symm)
    simp only [loadLibrary, Files.read_eq hcontent]

theorem loadCorpus_eq_ok :
    loadCorpus files directory = .ok corpus ↔ files.isDirectoryPath directory = true ∧
      ∃ loaded, (files.namesIn directory).mapM (loadLibrary files directory) = .ok loaded ∧
        Corpus.ofEntries (loaded.filterMap id) = corpus := by
  rw [loadCorpus]
  cases files.isDirectoryPath directory with
  | false => simp
  | true =>
    rw [if_neg (by simp), bind_eq_ok]
    simp only [true_and]
    exact exists_congr fun loaded => and_congr_right fun _ => ⟨Except.ok.inj, congrArg _⟩

/-- What is loaded with an entry more, by what the entry gives. -/
theorem loadCorpus_of_without (hplain : files.HasPlainNames)
    (hlocation : files.locate? directory = some location)
    (hentry : name ∈ files.namesIn directory)
    (hload : loadCorpus (files.without (location ++ [name])) directory = .ok corpus) :
    (loadLibrary files directory name = .ok none → loadCorpus files directory = .ok corpus) ∧
      ∀ e, loadLibrary files directory name = .error e →
        loadCorpus files directory = .error e := by
  obtain ⟨hdirectory, loaded, hloaded, rfl⟩ := loadCorpus_eq_ok.1 hload
  obtain ⟨l, hl, hdirectory⟩ := Files.isDirectoryPath_iff.1 hdirectory
  obtain rfl : l = location :=
    Option.some.inj ((Files.locate?_of_without hl).symm.trans hlocation)
  have hthere : files.isDirectoryPath directory = true :=
    Files.isDirectoryPath_iff.2 ⟨l, hlocation, Files.isDirectory_of_without hdirectory⟩
  have hsame : ∀ b ∈ files.namesIn directory, b ≠ name → loadLibrary files directory b =
      loadLibrary (files.without (l ++ [name])) directory b :=
    fun b hb hne => loadLibrary_without hplain hl hdirectory hb hne
  rw [Files.namesIn_without hl] at hloaded
  constructor
  · intro hskip
    obtain ⟨all, hall, heq⟩ := exists_mapM_eq_ok hskip hsame hloaded
    exact loadCorpus_eq_ok.2 ⟨hthere, all, hall, congrArg _ heq⟩
  · intro e hfail
    have herror := mapM_eq_error hfail hentry hsame hloaded
    rw [loadCorpus, hthere, herror]
    rfl

/-- What a command line names is the same with an entry more, unless only the entry gives it. -/
theorem content?_of_hasPath {path : String}
    (hdirectory : (files.without (location ++ [name])).isDirectory location = true)
    (h : files.hasPath path → (files.without (location ++ [name])).hasPath path) :
    files.content? path = (files.without (location ++ [name])).content? path := by
  cases hwithout : (files.without (location ++ [name])).content? path with
  | some content => exact Files.content?_of_without hdirectory hwithout
  | none =>
    by_contra hne
    have hhas := h (Option.isSome_iff_ne_none.2 hne)
    rw [Files.hasPath, hwithout] at hhas
    cases hhas

/-- An entry more that is no library leaves the corpus and what is printed as they are, unless it
has the name of a library and cannot be read as a text, being a directory or not in UTF-8: then
nothing is loaded or printed. -/
theorem loadCorpus_junk (hplain : files.HasPlainNames)
    (hlocation : files.locate? directory = some location)
    (hentry : name ∈ files.namesIn directory)
    (hload : loadCorpus (files.without (location ++ [name])) directory = .ok corpus)
    (hjunk : ∀ id text, libraryOfName? name = some id →
      files.read (Path.join directory name) = .ok text → Signature.ofText? text = none) :
    ((∀ id e, libraryOfName? name = some id →
        files.read (Path.join directory name) ≠ .error e) →
      loadCorpus files directory = .ok corpus ∧
      ∀ line : CommandLine, line.corpus? = some directory →
        (∀ path ∈ line.reads,
          files.hasPath path → (files.without (location ++ [name])).hasPath path) →
        run files line = run (files.without (location ++ [name])) line) ∧
    ∀ id e, libraryOfName? name = some id →
      files.read (Path.join directory name) = .error e →
      loadCorpus files directory = .error (.unreadableLibrary (Path.join directory name) e) ∧
      ∀ line : CommandLine, line.corpus? = some directory → ∀ out, run files line ≠ .ok out := by
  obtain ⟨hskipped, hstopped⟩ := loadCorpus_of_without hplain hlocation hentry hload
  constructor
  case left =>
    intro hreadable
    have hskip : loadLibrary files directory name = .ok none := by
      rw [loadLibrary]
      cases hid : libraryOfName? name with
      | none => rfl
      | some id =>
        cases hread : files.read (Path.join directory name) with
        | error e => exact absurd hread (hreadable id e hid)
        | ok text => simp only [hread, hjunk id text hid hread, Option.map_none]
    refine ⟨hskipped hskip, fun line hline hreads => run_congr (fun path hpath => ?_) ?_⟩
    · obtain ⟨l, hl, hdirectory⟩ := Files.isDirectoryPath_iff.1 (loadCorpus_eq_ok.1 hload).1
      obtain rfl : l = location :=
        Option.some.inj ((Files.locate?_of_without hl).symm.trans hlocation)
      exact content?_of_hasPath hdirectory (hreads path hpath)
    · rintro path hpath
      obtain rfl : directory = path := Option.some.inj (hline.symm.trans hpath)
      rw [hskipped hskip, hload]
  case right =>
    intro id e hid hread
    have hfail : loadLibrary files directory name =
        .error (.unreadableLibrary (Path.join directory name) e) := by
      simp only [loadLibrary, hid, hread]
    exact ⟨hstopped _ hfail, fun line hline out => run_ne_ok hline (hstopped _ hfail) out⟩

/-! ## A corpus with one library -/

/-- The flat form of `/abc/;`. -/
def loneRegex : List Row :=
  [⟨"program", true, none, 0, 6, 1⟩,
    ⟨"expression_statement", true, none, 0, 6, 2⟩,
    ⟨"regex", true, none, 0, 5, 3⟩,
    ⟨"/", false, none, 0, 1, 0⟩,
    ⟨"regex_pattern", true, some "pattern", 1, 4, 0⟩,
    ⟨"/", false, none, 4, 5, 0⟩,
    ⟨";", false, none, 5, 6, 0⟩]

def libraryText : String := "\x7b\"functionSignature\":[],\"literalSignature\":[\"/abc/\"]\x7d"

/-- A corpus with one library, a source that shares its literal and a text that is no source. -/
def shelf : Files :=
  (["corpus", "a@1.json"], .text libraryText) :: (["notes.txt"], .text "") ::
    (Node.ofRows? "/abc/;" loneRegex).toList.map fun t => (["x.js"], .source "/abc/;" t)

def shelfWith (content : FileContent) : Files := (["corpus", "b@1.json"], content) :: shelf

theorem shelf_locate? : shelf.locate? "corpus" = some ["corpus"] := by
  rw [Files.locate?_eq]
  decide

theorem join_corpus (name : String) : Path.join "corpus" name = "corpus/" ++ name :=
  if_neg (by decide +kernel)

theorem loadCorpus_shelf : ∃ signature, Signature.ofText? libraryText = some signature ∧
    loadCorpus shelf "corpus" = .ok (Corpus.ofEntries [(⟨"a", "1"⟩, signature)]) := by
  have hsome : (Signature.ofText? libraryText).isSome = true := by decide
  obtain ⟨signature, hsignature⟩ := Option.isSome_iff_exists.1 hsome
  refine ⟨signature, hsignature, loadCorpus_eq_ok.2 ⟨?_, [some (⟨"a", "1"⟩, signature)], ?_, rfl⟩⟩
  · exact Files.isDirectoryPath_iff.2 ⟨_, shelf_locate?, by decide⟩
  · have hnames : shelf.namesIn "corpus" = ["a@1.json"] := by
      rw [Files.namesIn_eq shelf_locate?]
      decide +kernel
    have hid : libraryOfName? "a@1.json" = some ⟨"a", "1"⟩ := by decide
    have hlocate : shelf.locate? ("corpus/" ++ "a@1.json") = some ["corpus", "a@1.json"] := by
      rw [Files.locate?_eq]
      decide
    have hread : shelf.read ("corpus/" ++ "a@1.json") = .ok libraryText := by
      rw [Files.read, Files.content?, hlocate]
      rfl
    rw [hnames, List.mapM_cons, List.mapM_nil]
    simp only [loadLibrary, hid, join_corpus, hread, hsignature]
    rfl

theorem shelfWith_without (content : FileContent) :
    (shelfWith content).without ["corpus", "b@1.json"] = shelf := by
  rw [shelfWith, Files.without, List.filter_cons_of_neg (by simp), List.filter_eq_self]
  decide

theorem shelfWith_hasPlainNames (content : FileContent) : (shelfWith content).HasPlainNames := by
  have hshelf : ∀ row ∈ shelf, ∀ name ∈ row.1, '/' ∉ name.toList := by decide
  have hentry : ∀ name ∈ ["corpus", "b@1.json"], '/' ∉ name.toList := by decide
  exact List.forall_mem_cons.2 ⟨hentry, hshelf⟩

theorem shelfWith_locate? (content : FileContent) :
    (shelfWith content).locate? "corpus" = some ["corpus"] :=
  Files.locate?_of_without (shelfWith_without content ▸ shelf_locate?)

theorem mem_namesIn_shelfWith (content : FileContent) :
    "b@1.json" ∈ (shelfWith content).namesIn "corpus" :=
  (Files.mem_namesIn (shelfWith_locate? content)).2
    ⟨_, List.mem_cons_self, List.prefix_rfl⟩

/-- A text that is no signature is skipped. -/
theorem loadCorpus_junk_brokenText :
    libraryOfName? "b@1.json" = some ⟨"b", "1"⟩ ∧
    (shelfWith (.text "not json")).read (Path.join "corpus" "b@1.json") = .ok "not json" ∧
    ∃ corpus, loadCorpus shelf "corpus" = .ok corpus ∧
      loadCorpus (shelfWith (.text "not json")) "corpus" = .ok corpus ∧
      run (shelfWith (.text "not json")) ⟨none, false, .matching ⟨"x.js", "corpus", none, none,
        false, false, false⟩⟩ =
        run shelf ⟨none, false, .matching ⟨"x.js", "corpus", none, none, false, false, false⟩⟩ := by
  have hid : libraryOfName? "b@1.json" = some ⟨"b", "1"⟩ := by decide
  have hread : (shelfWith (.text "not json")).read (Path.join "corpus" "b@1.json") =
      .ok "not json" := by
    have hlocate : (shelfWith (.text "not json")).locate? (Path.join "corpus" "b@1.json") =
        some ["corpus", "b@1.json"] := by
      rw [join_corpus, Files.locate?_eq]
      decide
    rw [Files.read, Files.content?, hlocate]
    rfl
  have hpath : shelf.hasPath "x.js" = true := by
    rw [Files.hasPath, Files.content?, Files.locate?_eq]
    decide
  obtain ⟨signature, -, hload⟩ := loadCorpus_shelf
  have hjunk := (loadCorpus_junk (shelfWith_hasPlainNames (.text "not json"))
    (shelfWith_locate? _) (mem_namesIn_shelfWith _)
    (by rwa [List.singleton_append, shelfWith_without])
    (fun id text _ htext => by
      obtain rfl : "not json" = text := Except.ok.inj (hread.symm.trans htext)
      decide)).1 (fun id e _ herror => by rw [hread] at herror; cases herror)
  rw [List.singleton_append, shelfWith_without] at hjunk
  refine ⟨hid, hread, _, hload, hjunk.1, hjunk.2 _ rfl fun path hreads _ => ?_⟩
  obtain rfl : path = "x.js" := List.mem_singleton.1 hreads
  exact hpath

/-- A directory under the name of a library keeps the corpus around it from being loaded. -/
theorem loadCorpus_folder :
    (∃ corpus, loadCorpus shelf "corpus" = .ok corpus) ∧
      loadCorpus (shelfWith .directory) "corpus" =
        .error (.unreadableLibrary "corpus/b@1.json" .isDirectory) := by
  obtain ⟨signature, -, hload⟩ := loadCorpus_shelf
  refine ⟨⟨_, hload⟩, ?_⟩
  refine (loadCorpus_of_without (shelfWith_hasPlainNames .directory) (shelfWith_locate? _)
    (mem_namesIn_shelfWith _) (by rwa [List.singleton_append, shelfWith_without])).2 _ ?_
  have hid : libraryOfName? "b@1.json" = some ⟨"b", "1"⟩ := by decide
  have hlocate : (shelfWith .directory).locate? "corpus/b@1.json" =
      some ["corpus", "b@1.json"] := by
    rw [Files.locate?_eq]
    decide
  have hread : (shelfWith .directory).read "corpus/b@1.json" = .error .isDirectory := by
    rw [Files.read, Files.content?, hlocate]
    rfl
  have hjoin : Path.join "corpus" "b@1.json" = "corpus/b@1.json" := join_corpus "b@1.json"
  simp only [loadLibrary, hid, hjoin, hread]

end CommandLine

end Fingerprint
