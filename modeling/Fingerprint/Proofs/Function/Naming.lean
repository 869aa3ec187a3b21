import Mathlib.Data.List.Nodup
import Std.Data.String.ToNat
import Fingerprint.Proofs.Function.Once
import Fingerprint.Proofs.TextOrder
import Fingerprint.Proofs.Tree.Entries
/-!
# Names of functions

Full names are given out one after the other, and what has been given out is never given again: a
repeated name gets the first number that makes it free.  `Records` is what the bookkeeping knows at
any time.  It holds at the start and is kept by every name that is given, so it holds after a whole
forest; that names are distinct and that each extends the name of the entry around it follows.
-/

namespace Fingerprint

namespace GivenNames

variable {taken : Std.TreeSet String} {base : String}

/-! ## The search for a free number -/

theorem numbered_injective (base : String) : Function.Injective (numbered base) := by
  intro i j h
  unfold numbered at h
  rw [String.append_right_inj] at h
  exact Nat.repr_inj.1 h

theorem numbered_ne (base : String) (k : Nat) : numbered base k ≠ base := by
  intro h
  have hlength := congrArg String.length h
  simp only [numbered, String.length_append] at hlength
  have hmark : "#".length = 1 := rfl
  omega

/-- The search passes over taken names only, and what it stops at before its end is free. -/
theorem firstFree_spec (taken : Std.TreeSet String) (base : String) (k fuel : Nat) :
    k ≤ firstFree taken base k fuel ∧ firstFree taken base k fuel ≤ k + fuel ∧
      (∀ i, k ≤ i → i < firstFree taken base k fuel → numbered base i ∈ taken) ∧
      (firstFree taken base k fuel < k + fuel →
        numbered base (firstFree taken base k fuel) ∉ taken) := by
  induction fuel generalizing k with
  | zero =>
    rw [firstFree]
    exact ⟨le_rfl, le_rfl, fun i hle hlt => by omega, fun hlt => by omega⟩
  | succ fuel ih =>
    rw [firstFree]
    by_cases htaken : taken.contains (numbered base k) = true
    · obtain ⟨hle, hbound, hpassed, hfree⟩ := ih (k + 1)
      rw [if_pos htaken]
      refine ⟨by omega, by omega, fun i hki hlt => ?_, fun hlt => hfree (by omega)⟩
      rcases Nat.eq_or_lt_of_le hki with rfl | hki
      · exact Std.TreeSet.mem_iff_contains.2 htaken
      · exact hpassed i hki hlt
    · rw [if_neg htaken]
      refine ⟨le_rfl, by omega, fun i hle hlt => by omega, fun _ hmem => ?_⟩
      exact htaken (Std.TreeSet.mem_iff_contains.1 hmem)

/-- There are more numbered names than taken names, so the search stops before its end. -/
theorem firstFree_lt {fuel : Nat} (hfuel : taken.size < fuel) (k : Nat) :
    firstFree taken base k fuel < k + fuel := by
  obtain ⟨-, hbound, hpassed, -⟩ := firstFree_spec taken base k fuel
  by_contra hend
  have hall : firstFree taken base k fuel = k + fuel := by omega
  let tried := (List.range fuel).map fun i => numbered base (k + i)
  have hnodup : tried.Nodup := by
    refine List.nodup_range.map fun i j hij => ?_
    exact Nat.add_left_cancel (numbered_injective base hij)
  have hsubset : tried ⊆ taken.toList := by
    intro name hname
    obtain ⟨i, hi, rfl⟩ := List.mem_map.1 hname
    have hlt : i < fuel := List.mem_range.1 hi
    exact Std.TreeSet.mem_toList.2 (hpassed _ (by omega) (by omega))
  have hlength := (List.subperm_of_subset hnodup hsubset).length_le
  rw [List.length_map, List.length_range, Std.TreeSet.length_toList] at hlength
  omega

/-- The search ends, at the first number from `k` on that makes a free name. -/
theorem exists_firstFree (taken : Std.TreeSet String) (base : String) (k : Nat) :
    ∃ tries ≤ taken.size, firstFree taken base k (taken.size + 1) = k + tries ∧
      (∀ i < tries, numbered base (k + i) ∈ taken) ∧ numbered base (k + tries) ∉ taken := by
  obtain ⟨hle, -, hpassed, hfree⟩ := firstFree_spec taken base k (taken.size + 1)
  have hlt : firstFree taken base k (taken.size + 1) < k + (taken.size + 1) :=
    firstFree_lt (Nat.lt_add_one taken.size) k
  have hsum : firstFree taken base k (taken.size + 1) =
      k + (firstFree taken base k (taken.size + 1) - k) := by omega
  refine ⟨_, by omega, hsum, fun i hi => hpassed _ (by omega) (by omega), ?_⟩
  rw [← hsum]
  exact hfree hlt

/-! ## One name -/

/-- What the bookkeeping knows when the names in `given` have been given: which these are, and for
a repeated one that all numbers below the next are spent. -/
structure Records (names : GivenNames) (given : List String) : Prop where
  nodup : given.Nodup
  mem_taken : ∀ name, name ∈ names.taken ↔ name ∈ given
  next_pos : ∀ base, 1 ≤ names.next.getD base 1
  spent : ∀ base i, 1 ≤ i → i < names.next.getD base 1 → numbered base i ∈ given

/-- The name due to `base` when others have been given: `base` itself if it is free, and otherwise
`base` with the least positive number that makes a free name. -/
def IsDue (given : List String) (base name : String) : Prop :=
  base ∉ given ∧ name = base ∨
    base ∈ given ∧ ∃ k, 1 ≤ k ∧ name = numbered base k ∧ name ∉ given ∧
      ∀ i, 1 ≤ i → i < k → numbered base i ∈ given

theorem IsDue.not_mem {given : List String} {base name : String} (h : IsDue given base name) :
    name ∉ given := by
  rcases h with ⟨hfree, rfl⟩ | ⟨-, k, -, -, hfree, -⟩
  · exact hfree
  · exact hfree

theorem records_empty : Records {} [] where
  nodup := .nil
  mem_taken name := by simp
  next_pos base := by simp
  spent base i hi hlt := by
    simp only [Std.TreeMap.getD_emptyc] at hlt
    omega

theorem isDue_give {names : GivenNames} {given : List String} (h : names.Records given)
    (base : String) : IsDue given base (names.give base).1 := by
  unfold give
  by_cases htaken : names.taken.contains base = true
  · rw [if_pos htaken]
    refine .inr ⟨(h.mem_taken base).1 (Std.TreeSet.mem_iff_contains.2 htaken), _, ?_, rfl, ?_, ?_⟩
    all_goals
      obtain ⟨tries, -, hfirst, hpassed, hfree⟩ :=
        exists_firstFree names.taken base (names.next.getD base 1)
      rw [hfirst]
    · exact (h.next_pos base).trans (Nat.le_add_right _ _)
    · exact fun hmem => hfree ((h.mem_taken _).2 hmem)
    · intro i hi hlt
      by_cases hspent : i < names.next.getD base 1
      · exact h.spent base i hi hspent
      · have hpass := hpassed (i - names.next.getD base 1) (by omega)
        rw [Nat.add_sub_cancel' (by omega)] at hpass
        exact (h.mem_taken _).1 hpass
  · rw [if_neg htaken]
    refine .inl ⟨fun hmem => htaken ?_, rfl⟩
    exact Std.TreeSet.mem_iff_contains.1 ((h.mem_taken base).2 hmem)

theorem taken_give (names : GivenNames) (base : String) :
    (names.give base).2.taken = names.taken.insert (names.give base).1 := by
  unfold give
  split <;> rfl

theorem next_give (names : GivenNames) (base other : String) :
    (names.give base).2.next.getD other 1 = names.next.getD other 1 ∨
      other = base ∧ ∃ k, (names.give base).1 = numbered base k ∧
        (names.give base).2.next.getD other 1 = k + 1 := by
  unfold give
  by_cases htaken : names.taken.contains base = true
  · rw [if_pos htaken]
    simp only [Std.TreeMap.getD_insert, compare_eq_iff_eq]
    by_cases hother : base = other
    · exact .inr ⟨hother.symm, _, rfl, if_pos hother⟩
    · exact .inl (if_neg hother)
  · rw [if_neg htaken]
    exact .inl rfl

theorem Records.give {names : GivenNames} {given : List String} (h : names.Records given)
    (base : String) : (names.give base).2.Records (given ++ [(names.give base).1]) := by
  have hdue := isDue_give h base
  constructor
  · exact List.nodup_append.2 ⟨h.nodup, List.nodup_singleton _, fun a ha b hb hab =>
      hdue.not_mem (by rwa [← List.mem_singleton.1 hb, ← hab])⟩
  · intro name
    rw [taken_give, Std.TreeSet.mem_insert, compare_eq_iff_eq, h.mem_taken, List.mem_append,
      List.mem_singleton, or_comm, eq_comm]
  · intro other
    rcases next_give names base other with hsame | ⟨-, k, -, hnext⟩
    · rw [hsame]
      exact h.next_pos other
    · omega
  · intro other i hi hlt
    rw [List.mem_append, List.mem_singleton]
    rcases next_give names base other with hsame | ⟨rfl, k, hname, hnext⟩
    · exact .inl (h.spent other i hi (by omega))
    · rcases Nat.lt_or_eq_of_le (show i ≤ k by omega) with hik | rfl
      · rcases hdue with ⟨hfree, hbase⟩ | ⟨-, k', -, hname', -, hleast⟩
        · exact absurd (hname.symm.trans hbase) (numbered_ne other k)
        · rw [hname] at hname'
          exact .inl (hleast i hi (by rwa [← numbered_injective other hname']))
      · exact .inr hname.symm

end GivenNames

/-! ## Forests with names -/

namespace Located

open GivenNames

mutual

def titleEntry (parent : String) (names : GivenNames) :
    Entry Located → Entry (String × Located) × GivenNames
  | ⟨path, function, children⟩ =>
    let (name, names) := names.give (under parent function.name)
    let (below, names) := titleAll name names children
    (⟨path, (name, function), below⟩, names)

def titleAll (parent : String) (names : GivenNames) :
    List (Entry Located) → List (Entry (String × Located)) × GivenNames
  | [] => ([], names)
  | e :: rest =>
    let (here, names) := titleEntry parent names e
    let (later, names) := titleAll parent names rest
    (here :: later, names)

end

def titled (forest : List (Entry Located)) : List (Entry (String × Located)) :=
  (titleAll "" {} forest).1

mutual

theorem map_titleEntry (parent : String) (names : GivenNames) :
    ∀ e : Entry Located, Entry.map Prod.snd (titleEntry parent names e).1 = e
  | ⟨path, function, children⟩ => by
    simp only [titleEntry, Entry.map]
    rw [map_titleAll]

theorem map_titleAll (parent : String) (names : GivenNames) :
    ∀ forest : List (Entry Located), Entry.mapAll Prod.snd (titleAll parent names forest).1 = forest
  | [] => rfl
  | e :: rest => by
    simp only [titleAll, Entry.mapAll]
    rw [map_titleEntry, map_titleAll]

end

mutual

theorem nameEntry_eq (parent : String) (names : GivenNames) :
    ∀ e : Entry Located, nameEntry parent names e =
      ((Entry.toList (titleEntry parent names e).1).map fun t => (t.1, t.2.tokens),
        (titleEntry parent names e).2)
  | ⟨path, function, children⟩ => by
    simp only [nameEntry, titleEntry, Entry.toList, List.map_cons]
    rw [nameAll_eq]

theorem nameAll_eq (parent : String) (names : GivenNames) :
    ∀ forest : List (Entry Located), nameAll parent names forest =
      ((Entry.toListAll (titleAll parent names forest).1).map fun t => (t.1, t.2.tokens),
        (titleAll parent names forest).2)
  | [] => rfl
  | e :: rest => by
    simp only [nameAll, titleAll, Entry.toListAll, List.map_append]
    rw [nameEntry_eq, nameAll_eq]

end

/-- The name of an entry under a parent, which a number may follow. -/
def Extends (parent : String) (t : String × Located) : Prop :=
  t.1 = under parent t.2.name ∨ ∃ k, 1 ≤ k ∧ t.1 = numbered (under parent t.2.name) k

theorem extends_of_isDue {given : List String} {parent name : String} {function : Located}
    (h : IsDue given (under parent function.name) name) : Extends parent (name, function) := by
  rcases h with ⟨-, hname⟩ | ⟨-, k, hk, hname, -⟩
  · exact .inl hname
  · exact .inr ⟨k, hk, hname⟩

/-- What is known after some entries under a parent have been named: all names are recorded, and
every name extends the one above it. -/
structure Titles (parent : String) (given : List String) (entries : List (Entry (String × Located)))
    (names : GivenNames) : Prop where
  records : names.Records (given ++ (Entry.toListAll entries).map Prod.fst)
  top : ∀ e ∈ entries, Extends parent e.data
  links : ∀ link ∈ Entry.linksAll entries, Extends link.1.1 link.2

mutual

theorem titles_titleEntry (parent : String) {names : GivenNames} {given : List String}
    (h : names.Records given) : ∀ e : Entry Located,
      Titles parent given [(titleEntry parent names e).1] (titleEntry parent names e).2
  | ⟨path, function, children⟩ => by
    have hname := extends_of_isDue (isDue_give h (under parent function.name))
    have hbelow := titles_titleAll (names.give (under parent function.name)).1
      (h.give (under parent function.name)) children
    simp only [titleEntry]
    generalize names.give (under parent function.name) = result at hname hbelow
    obtain ⟨name, names⟩ := result
    constructor
    · have hrecords := hbelow.records
      simp only [Entry.toListAll, Entry.toList, List.append_nil, List.map_cons]
      rwa [List.append_assoc, List.singleton_append] at hrecords
    · rintro e he
      rw [List.mem_singleton.1 he]
      exact hname
    · intro link hlink
      simp only [Entry.linksAll, Entry.links, List.append_nil, List.mem_append, List.mem_map]
        at hlink
      rcases hlink with ⟨e, he, rfl⟩ | hlink
      · exact hbelow.top e he
      · exact hbelow.links link hlink

theorem titles_titleAll (parent : String) {names : GivenNames} {given : List String}
    (h : names.Records given) : ∀ forest : List (Entry Located),
      Titles parent given (titleAll parent names forest).1 (titleAll parent names forest).2
  | [] => by
    refine ⟨?_, ?_, ?_⟩
    · simpa [titleAll, Entry.toListAll] using h
    · intro e he
      cases he
    · intro link hlink
      cases hlink
  | e :: rest => by
    have hhere := titles_titleEntry parent h e
    have hlater := titles_titleAll parent hhere.records rest
    simp only [titleAll]
    generalize titleEntry parent names e = here at hhere hlater
    obtain ⟨here, names⟩ := here
    constructor
    · have hrecords := hlater.records
      simpa only [Entry.toListAll, List.append_nil, List.map_append, List.append_assoc]
        using hrecords
    · rintro x hx
      rcases List.mem_cons.1 hx with rfl | hx
      · exact hhere.top x (List.mem_singleton_self x)
      · exact hlater.top x hx
    · intro link hlink
      rcases List.mem_append.1 hlink with hlink | hlink
      · exact hhere.links link (by simpa [Entry.linksAll] using hlink)
      · exact hlater.links link hlink

end

theorem titles_titled (forest : List (Entry Located)) :
    Titles "" [] (titled forest) (titleAll "" {} forest).2 :=
  titles_titleAll "" records_empty forest

theorem nodup_titled (forest : List (Entry Located)) :
    ((Entry.toListAll (titled forest)).map Prod.fst).Nodup := by
  have hnodup := (titles_titled forest).records.nodup
  rwa [List.nil_append] at hnodup

theorem named_eq_titled (forest : List (Entry Located)) :
    named forest = (Entry.toListAll (titled forest)).map fun t => (t.1, t.2.tokens) :=
  congrArg Prod.fst (nameAll_eq "" {} forest)

theorem nodup_named (forest : List (Entry Located)) : ((named forest).map Prod.fst).Nodup := by
  rw [named_eq_titled, List.map_map]
  exact nodup_titled forest

/-! ## Signatures -/

theorem map_flatten (forest : List (Entry Located)) :
    (flatten forest).map (fun f => (f.name, f.statementTokens)) =
      ((Entry.toListAll (titled forest)).map fun t => (t.1, t.2.tokens)).mergeSort
        fun a b => textLe a.1 b.1 := by
  rw [flatten, named_eq_titled]
  apply List.ext_getElem?
  intro i
  rw [List.getElem?_map, List.getElem?_mapIdx, Option.map_map]
  exact Option.map_id'

theorem map_flatten_perm (forest : List (Entry Located)) :
    ((flatten forest).map fun f => (f.name, f.statementTokens)).Perm
      ((Entry.toListAll (titled forest)).map fun t => (t.1, t.2.tokens)) := by
  rw [map_flatten]
  exact List.mergeSort_perm _ _

theorem nodup_name_flatten (forest : List (Entry Located)) :
    ((flatten forest).map FunctionSignature.name).Nodup := by
  have hperm := (map_flatten_perm forest).map Prod.fst
  rw [List.map_map, List.map_map] at hperm
  exact hperm.nodup_iff.2 (nodup_titled forest)

theorem pairwise_name_flatten (forest : List (Entry Located)) :
    (flatten forest).Pairwise fun f g => f.name < g.name := by
  have hle : (flatten forest).Pairwise fun f g => f.name ≤ g.name := by
    have htrans : ∀ a b c : String × List String, textLe a.1 b.1 = true → textLe b.1 c.1 = true →
        textLe a.1 c.1 = true := fun a b c => by simpa [textLe] using le_trans
    have htotal : ∀ a b : String × List String, (textLe a.1 b.1 || textLe b.1 a.1) = true :=
      fun a b => by simpa [textLe] using le_total _ _
    have hsorted := List.pairwise_mergeSort htrans htotal
      ((Entry.toListAll (titled forest)).map fun t => (t.1, t.2.tokens))
    rw [← map_flatten, List.pairwise_map] at hsorted
    exact hsorted.imp fun h => by simpa [textLe] using h
  have hne : (flatten forest).Pairwise fun f g => f.name ≠ g.name :=
    List.pairwise_map.1 (nodup_name_flatten forest)
  exact (hle.and hne).imp fun h => lt_of_le_of_ne h.1 h.2

theorem index_of_mem_flatten {forest : List (Entry Located)} {i : Nat} {f : FunctionSignature}
    (h : (flatten forest)[i]? = some f) : f.index = i := by
  rw [flatten, List.getElem?_mapIdx, Option.map_eq_some_iff] at h
  obtain ⟨_, -, rfl⟩ := h
  rfl

theorem statementTypes_of_mem_flatten {forest : List (Entry Located)} {f : FunctionSignature}
    (h : f ∈ flatten forest) : f.statementTypes = statementTypes f.statementTokens := by
  obtain ⟨i, hi, rfl⟩ := List.mem_mapIdx.1 h
  rfl

/-- **Flattening lists each function of a forest once, under a name of its own.**  Every search for
a number comes to an end, so names are always found; they ascend strictly in byte order, places are
counted from zero, and tokens and their kinds are those of the functions. -/
theorem flatten_lists (forest : List (Entry Located)) :
    (∀ (taken : Std.TreeSet String) (base : String) (k : Nat), ∃ tries ≤ taken.size,
      firstFree taken base k (taken.size + 1) = k + tries ∧
        (∀ i < tries, numbered base (k + i) ∈ taken) ∧ numbered base (k + tries) ∉ taken) ∧
    (flatten forest).length = Entry.sizes forest ∧
    ((flatten forest).map FunctionSignature.name).Nodup ∧
    (flatten forest).Pairwise (fun f g => Text.bytes f.name < Text.bytes g.name) ∧
    (∀ (i : Nat) (f : FunctionSignature), (flatten forest)[i]? = some f → f.index = i) ∧
    ((flatten forest).map FunctionSignature.statementTokens).Perm
      ((Entry.toListAll forest).map tokens) ∧
    ∀ f ∈ flatten forest, f.statementTypes.Perm (f.statementTokens.map tokenKind) ∧
      f.statementTypes.Pairwise fun a b => Text.bytes a ≤ Text.bytes b := by
  refine ⟨exists_firstFree, ?_, nodup_name_flatten forest, ?_, fun i f => index_of_mem_flatten,
    flatten_tokens_perm forest, ?_⟩
  · have hlength := (flatten_tokens_perm forest).length_eq
    rwa [List.length_map, List.length_map, Entry.length_toListAll] at hlength
  · exact (pairwise_name_flatten forest).imp Text.bytes_lt_bytes_iff.2
  · intro f hf
    rw [statementTypes_of_mem_flatten hf]
    exact ⟨List.mergeSort_perm _ _, (pairwise_sortTexts _).imp Text.bytes_le_bytes_iff.2⟩

theorem Extends.ne_empty {parent : String} {t : String × Located} (h : Extends parent t)
    (hne : parent ≠ "" ∨ t.2.name ≠ "") : t.1 ≠ "" := by
  have hunder : under parent t.2.name ≠ "" := by
    unfold under
    by_cases hparent : parent = ""
    · simpa [hparent] using hne
    · simp [hparent]
  rcases h with hname | ⟨k, -, hname⟩
  · rwa [hname]
  · rw [hname, numbered]
    simp

/-- **Full names are hierarchical, but for functions without any name.**  The forest can be read
together with the names that it gets.  A name on top is the local one, any other is the name above,
two colons and the local name; a positive number may follow.  Only below a function whose full name
is empty the colons are missing, and there is none if all functions on top have names. -/
theorem flatten_hierarchical (forest : List (Entry Located)) :
    Entry.mapAll Prod.snd (titled forest) = forest ∧
    ((flatten forest).map fun f => (f.name, f.statementTokens)).Perm
      ((Entry.toListAll (titled forest)).map fun t => (t.1, t.2.tokens)) ∧
    (∀ e ∈ titled forest, e.data.1 = e.data.2.name ∨
      ∃ k, 1 ≤ k ∧ e.data.1 = numbered e.data.2.name k) ∧
    (∀ above below, (above, below) ∈ Entry.linksAll (titled forest) → above.1 ≠ "" →
      below.1 = above.1 ++ "::" ++ below.2.name ∨
        ∃ k, 1 ≤ k ∧ below.1 = numbered (above.1 ++ "::" ++ below.2.name) k) ∧
    (∀ above below, (above, below) ∈ Entry.linksAll (titled forest) → above.1 = "" →
      below.1 = below.2.name ∨ ∃ k, 1 ≤ k ∧ below.1 = numbered below.2.name k) ∧
    ((∀ e ∈ forest, e.data.name ≠ "") →
      ∀ above below, (above, below) ∈ Entry.linksAll (titled forest) → above.1 ≠ "") := by
  obtain ⟨-, htop, hlinks⟩ := titles_titled forest
  have hforest : Entry.mapAll Prod.snd (titled forest) = forest := map_titleAll "" {} forest
  refine ⟨hforest, map_flatten_perm forest, htop, ?_, ?_, ?_⟩
  · intro above below hlink hne
    have hextends := hlinks _ hlink
    rwa [Extends, under, if_neg (by simpa using hne)] at hextends
  · intro above below hlink hempty
    have hextends := hlinks _ hlink
    rwa [Extends, under, if_pos (by simpa using hempty)] at hextends
  · intro hnames above below hlink
    refine Entry.forall_linksAll (p := fun t => t.1 ≠ "") (titled forest) ?_ ?_ _ hlink
    · intro e he
      have hmem : Entry.map Prod.snd e ∈ forest := by
        rw [← hforest, Entry.mapAll_eq]
        exact List.mem_map_of_mem he
      have hname := hnames _ hmem
      rw [Entry.data_map] at hname
      exact (htop e he).ne_empty (.inr hname)
    · intro link hl hne
      exact (hlinks link hl).ne_empty (.inl hne)

/-- A function `f` inside a function that is stored under an empty key is named as if it stood on
top. -/
theorem flatten_belowEmptyKey :
    ∃ above below : String × Located,
      (above, below) ∈ Entry.linksAll (titled [⟨"", ⟨"", []⟩, [⟨"", ⟨"f", []⟩, []⟩]⟩]) ∧
      ¬(below.1 = above.1 ++ "::" ++ below.2.name ∨
        ∃ k, 1 ≤ k ∧ below.1 = numbered (above.1 ++ "::" ++ below.2.name) k) := by
  refine ⟨("", ⟨"", []⟩), ("f", ⟨"f", []⟩), by decide +kernel, ?_⟩
  rintro (hname | ⟨k, -, hname⟩)
  · exact absurd hname (by decide)
  · have hlength := congrArg String.length hname
    simp only [numbered, String.length_append] at hlength
    have hf : "f".length = 1 := rfl
    have hcolons : "::".length = 2 := rfl
    omega

end Located

end Fingerprint
