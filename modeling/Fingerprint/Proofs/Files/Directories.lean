import Mathlib.Data.List.Infix
import Mathlib.Data.String.Basic
import Mathlib.Tactic.Common
import Fingerprint.Files
import Fingerprint.Proofs.TextOrder
/-!
# Entries of a directory

A path is followed name by name.  A name joined to the path of a directory leads to the entry of
that name, and taking an entry out of a directory, with all that is below it, leaves every other
file where it was.
-/

namespace Fingerprint

/-! ## Names of a path -/

namespace Path

open String

/-- The search for separators from a place on, where `m` is what was read since the last one. -/
theorem splitOnAux_of_valid (l m r : List Char) (acc : List String) :
    (String.ofList (l ++ m ++ r)).splitOnAux "/" ⟨utf8Len l⟩ ⟨utf8Len l + utf8Len m⟩ 0 acc =
      acc.reverse ++ (List.splitOnPPrepend (· == '/') r m.reverse).map String.ofList := by
  have hseparator : Pos.Raw.get "/" 0 = '/' := by decide
  have hnext : Pos.Raw.next "/" 0 = ⟨1⟩ := by decide
  have hend : Pos.Raw.atEnd "/" ⟨1⟩ = true := by decide
  induction r generalizing l m acc with
  | nil =>
    have hatEnd := atEnd_of_valid (l ++ m) []
    rw [utf8Len_append] at hatEnd
    rw [splitOnAux, if_pos (hatEnd.2 rfl), extract_of_valid]
    simp
  | cons c r ih =>
    have hatEnd := atEnd_of_valid (l ++ m) (c :: r)
    have hget := get_of_valid (l ++ m) (c :: r)
    have hafter := next_of_valid (l ++ m) c r
    have hword := extract_of_valid l m (c :: r)
    rw [utf8Len_append] at hatEnd hget hafter
    rw [splitOnAux, if_neg (mt hatEnd.1 (List.cons_ne_nil c r)), hget, List.headD_cons, hseparator,
      List.splitOnPPrepend_cons_eq_if]
    by_cases hc : c = '/'
    · subst hc
      have hlist : l ++ m ++ '/' :: r = (l ++ m ++ ['/']) ++ [] ++ r := by simp
      have hstart : utf8Len l + utf8Len m + '/'.utf8Size = utf8Len (l ++ m ++ ['/']) := by
        simp [Nat.add_assoc]
      have hback : (⟨utf8Len (l ++ m ++ ['/'])⟩ : Pos.Raw).unoffsetBy ⟨1⟩ =
          ⟨utf8Len l + utf8Len m⟩ := by
        rw [← hstart]
        rfl
      have h := ih (l ++ m ++ ['/']) [] (String.ofList m :: acc)
      rw [← hlist] at h
      simp only [beq_self_eq_true, if_true, hafter, hnext, hend, hstart, hback, hword]
      refine h.trans ?_
      rw [List.splitOnP_eq_splitOnPPrepend, List.reverse_cons, List.reverse_reverse,
        List.append_assoc]
      rfl
    · have hlist : l ++ m ++ c :: r = l ++ (m ++ [c]) ++ r := by simp
      have hstart : utf8Len l + utf8Len m + c.utf8Size = utf8Len l + utf8Len (m ++ [c]) := by
        simp [Nat.add_assoc]
      have hback : (⟨utf8Len l + utf8Len m⟩ : Pos.Raw).unoffsetBy 0 = ⟨utf8Len l + utf8Len m⟩ := rfl
      rw [if_neg (by simpa using hc), if_neg (by simpa using hc), hback, hafter, hstart, hlist,
        ih, List.reverse_append]
      rfl

theorem splitOn_eq (path : String) :
    path.splitOn "/" = (path.toList.splitOn '/').map String.ofList := by
  have h := splitOnAux_of_valid [] [] path.toList []
  simp only [List.nil_append, String.ofList_toList, List.reverse_nil] at h
  exact h.trans (congrArg _ List.splitOnP_eq_splitOnPPrepend.symm)

theorem splitOn_append (a b : String) :
    (a ++ "/" ++ b).splitOn "/" = a.splitOn "/" ++ b.splitOn "/" := by
  have hlist : (a ++ "/" ++ b).toList = a.toList ++ '/' :: b.toList := by
    rw [String.toList_append, String.toList_append, List.append_assoc]
    rfl
  rw [splitOn_eq, splitOn_eq, splitOn_eq, hlist, List.splitOn_append_cons_self, List.map_append]

theorem splitOn_name {name : String} (h : '/' ∉ name.toList) : name.splitOn "/" = [name] := by
  rw [splitOn_eq, List.splitOn_eq_singleton h, List.map_singleton, String.ofList_toList]

theorem endsWith_separator {s : String} (h : s.endsWith "/" = true) :
    ∃ front, s = front ++ "/" := by
  rw [← String.endsWith_toSlice, String.Slice.endsWith_string_iff, String.copy_toSlice] at h
  obtain ⟨front, hfront⟩ := h
  refine ⟨String.ofList front, String.toList_injective ?_⟩
  rw [String.toList_append, String.toList_ofList, hfront]

theorem startsWith_append {a : String} (h : a ≠ "") (b : String) :
    (a ++ b).startsWith "/" = a.startsWith "/" := by
  rw [Bool.eq_iff_iff, String.startsWith_string_iff, String.startsWith_string_iff,
    String.toList_append]
  cases ha : a.toList with
  | nil => exact absurd (String.toList_injective ha) h
  | cons c rest => simp [show "/".toList = ['/'] from rfl]

theorem join_ne_empty {directory : String} (h : directory ≠ "") (name : String) :
    join directory name ≠ "" := by
  unfold join
  split <;> simp [h]

theorem startsWith_join {directory : String} (h : directory ≠ "") (name : String) :
    (join directory name).startsWith "/" = directory.startsWith "/" := by
  unfold join
  split
  · exact startsWith_append h name
  · rw [startsWith_append (by simp), startsWith_append h]

end Path

namespace Files

variable {files : Files} {location entry : List String} {path directory name : String}

/-! ## Where a path leads -/

theorem locate?_eq (files : Files) (path : String) :
    files.locate? path =
      if path.isEmpty then none
      else ((path.toList.splitOn '/').map String.ofList).foldl files.enter
        (some (if ['/'] <+: path.toList then [".."] else [])) := by
  have hstarts : path.startsWith "/" = true ↔ ['/'] <+: path.toList := String.startsWith_string_iff
  simp only [locate?, Path.splitOn_eq, hstarts]

theorem foldl_enter_none (names : List String) : names.foldl files.enter none = none := by
  induction names with
  | nil => rfl
  | cons name rest ih => exact ih

theorem enter_name (hdirectory : files.isDirectory location = true) (hempty : name ≠ "")
    (hdot : name ≠ ".") (hdots : name ≠ "..") :
    files.enter (some location) name = some (location ++ [name]) := by
  simp [enter, hdirectory, hempty, hdot, hdots]

theorem enter_empty {from? : Option (List String)} (h : files.enter from? "" = some location) :
    from? = some location := by
  cases from? with
  | none => cases h
  | some l =>
    simp only [enter, Option.bind_some] at h
    split at h
    · cases h
    · simpa using h

theorem locate?_join (hlocation : files.locate? directory = some location)
    (hdirectory : files.isDirectory location = true) (hplain : '/' ∉ name.toList)
    (hempty : name ≠ "") (hdot : name ≠ ".") (hdots : name ≠ "..") :
    files.locate? (Path.join directory name) = some (location ++ [name]) := by
  have hne : directory ≠ "" := by
    rintro rfl
    cases hlocation
  rw [locate?, if_neg (by simpa using hne)] at hlocation
  rw [locate?, if_neg (by simpa using Path.join_ne_empty hne name), Path.startsWith_join hne]
  generalize some (if directory.startsWith "/" = true then [".."] else []) = start at *
  have henter := enter_name hdirectory hempty hdot hdots
  by_cases hends : directory.endsWith "/" = true
  · -- Behind a separator at the end stands an empty name, which leads nowhere else.
    obtain ⟨front, hfront⟩ := Path.endsWith_separator hends
    have hsplit : directory.splitOn "/" = front.splitOn "/" ++ [""] := by
      have hempty : "".splitOn "/" = [""] := Path.splitOn_name List.not_mem_nil
      have h := Path.splitOn_append front ""
      rwa [String.append_empty, ← hfront, hempty] at h
    rw [hsplit, List.foldl_append] at hlocation
    rw [Path.join, if_pos hends, hfront, Path.splitOn_append, Path.splitOn_name hplain,
      List.foldl_append, enter_empty hlocation]
    exact henter
  · rw [Path.join, if_neg hends, Path.splitOn_append, Path.splitOn_name hplain,
      List.foldl_append, hlocation]
    exact henter

/-! ## Directories -/

theorem isDirectory_iff : files.isDirectory location = true ↔
    isAbove location = true ∨ (location, FileContent.directory) ∈ files ∨
      ∃ row ∈ files, ∃ name rest, row.1 = location ++ name :: rest := by
  have hdeeper : ∀ other : List String,
      location.length < other.length ∧ other.take location.length = location ↔
        ∃ name rest, other = location ++ name :: rest := by
    intro other
    constructor
    · rintro ⟨hlength, htake⟩
      cases hdrop : other.drop location.length with
      | nil => exact absurd (List.drop_eq_nil_iff.1 hdrop) (by omega)
      | cons name rest =>
        have hother := List.take_append_drop location.length other
        rw [htake, hdrop] at hother
        exact ⟨name, rest, hother.symm⟩
    · rintro ⟨name, rest, rfl⟩
      simp
  rw [isDirectory, Bool.or_eq_true, List.any_eq_true]
  refine or_congr Iff.rfl ⟨?_, ?_⟩
  · rintro ⟨⟨other, content⟩, hrow, h⟩
    rw [Bool.or_eq_true, Bool.and_eq_true, Bool.and_eq_true, decide_eq_true_iff, beq_iff_eq,
      beq_iff_eq, hdeeper] at h
    rcases h with ⟨rfl, hcontent⟩ | hbelow
    · cases content with
      | directory => exact .inl hrow
      | text => cases hcontent
      | source => cases hcontent
      | bytes => cases hcontent
    · exact .inr ⟨_, hrow, hbelow⟩
  · rintro (hrow | ⟨⟨other, content⟩, hrow, hbelow⟩)
    · exact ⟨_, hrow, by simp⟩
    · refine ⟨_, hrow, Bool.or_eq_true _ _ ▸ .inr ?_⟩
      rw [Bool.and_eq_true, decide_eq_true_iff, beq_iff_eq, hdeeper]
      exact hbelow

theorem mem_of_lookup {content : FileContent} (h : files.lookup location = some content) :
    (location, content) ∈ files := by
  obtain ⟨before, after, hrows, -⟩ := List.lookup_eq_some_iff.1 h
  rw [hrows]
  exact List.mem_append_right _ List.mem_cons_self

theorem isDirectoryPath_iff : files.isDirectoryPath path = true ↔
    ∃ location, files.locate? path = some location ∧ files.isDirectory location = true := by
  rw [isDirectoryPath, content?]
  cases files.locate? path with
  | none => simp
  | some l =>
    simp only [Option.bind_some, Option.some.injEq, exists_eq_left']
    by_cases hl : files.isDirectory l = true
    · simp [hl]
    · rw [if_neg hl]
      refine iff_of_false (fun h => ?_) hl
      split at h
      case h_1 hlookup => exact hl (isDirectory_iff.2 (.inr (.inl (mem_of_lookup hlookup))))
      case h_2 => cases h

theorem isDirectory_above {above : List String} (h : files.isDirectory location = true)
    (hway : above <+: location) : files.isDirectory above = true := by
  obtain ⟨rest, rfl⟩ := hway
  cases rest with
  | nil => rwa [List.append_nil] at h
  | cons name rest =>
    rw [isDirectory_iff] at h ⊢
    rcases h with h | h | ⟨row, hrow, name', rest', heq⟩
    · rw [isAbove, List.all_append, Bool.and_eq_true] at h
      exact .inl h.1
    · exact .inr (.inr ⟨_, h, name, rest, rfl⟩)
    · exact .inr (.inr ⟨row, hrow, name, rest ++ name' :: rest', by
        rw [heq, List.append_assoc]
        rfl⟩)

/-! ## Without an entry -/

def without (files : Files) (entry : List String) : Files :=
  files.filter fun row => ¬ entry <+: row.1

theorem mem_without {row : List String × FileContent} :
    row ∈ files.without entry ↔ row ∈ files ∧ ¬ entry <+: row.1 := by
  rw [without, List.mem_filter, decide_eq_true_iff]

theorem isDirectory_of_without (h : (files.without entry).isDirectory location = true) :
    files.isDirectory location = true := by
  rw [isDirectory_iff] at h ⊢
  rcases h with h | h | ⟨row, hrow, hbelow⟩
  · exact .inl h
  · exact .inr (.inl (mem_without.1 h).1)
  · exact .inr (.inr ⟨row, (mem_without.1 hrow).1, hbelow⟩)

theorem isDirectory_without (habove : ¬ location <+: entry) (hbelow : ¬ entry <+: location) :
    (files.without entry).isDirectory location = files.isDirectory location := by
  rw [Bool.eq_iff_iff]
  refine ⟨isDirectory_of_without, fun h => ?_⟩
  rw [isDirectory_iff] at h ⊢
  rcases h with h | h | ⟨row, hrow, name, rest, heq⟩
  · exact .inl h
  · exact .inr (.inl (mem_without.2 ⟨h, hbelow⟩))
  · refine .inr (.inr ⟨row, mem_without.2 ⟨hrow, fun hentry => ?_⟩, name, rest, heq⟩)
    have hlocation : location <+: row.1 := ⟨name :: rest, heq.symm⟩
    rcases List.prefix_or_prefix_of_prefix hentry hlocation with h | h
    · exact hbelow h
    · exact habove h

theorem lookup_without (hbelow : ¬ entry <+: location) :
    (files.without entry).lookup location = files.lookup location := by
  induction files with
  | nil => rfl
  | cons row rest ih =>
    obtain ⟨other, content⟩ := row
    rw [without, List.filter_cons]
    by_cases hentry : entry <+: other
    · have hne : location ≠ other := by
        rintro rfl
        exact hbelow hentry
      rw [if_neg (by simpa using hentry), List.lookup_cons, beq_false_of_ne hne]
      exact ih
    · rw [if_pos (by simpa using hentry), List.lookup_cons, List.lookup_cons]
      split
      · rfl
      · exact ih

theorem enter_of_without {start : Option (List String)}
    (h : (files.without entry).enter start name = some location) :
    files.enter start name = some location := by
  cases start with
  | none => cases h
  | some l =>
    simp only [enter, Option.bind_some] at h ⊢
    by_cases hdirectory : (files.without entry).isDirectory l = true
    · simpa only [hdirectory, isDirectory_of_without hdirectory] using h
    · simp [hdirectory] at h

theorem foldl_enter_of_without {names : List String} {start : Option (List String)}
    (h : names.foldl (files.without entry).enter start = some location) :
    names.foldl files.enter start = some location := by
  induction names generalizing start with
  | nil => exact h
  | cons name rest ih =>
    rw [List.foldl_cons] at h ⊢
    cases henter : (files.without entry).enter start name with
    | none =>
      rw [henter, foldl_enter_none] at h
      cases h
    | some next =>
      rw [henter] at h
      rw [enter_of_without henter]
      exact ih h

theorem locate?_of_without (h : (files.without entry).locate? path = some location) :
    files.locate? path = some location := by
  rw [locate?] at h ⊢
  split at h
  case isTrue => cases h
  case isFalse hne =>
    rw [if_neg hne]
    exact foldl_enter_of_without h

theorem content?_eq (hwithout : (files.without entry).locate? path = some location)
    (habove : ¬ location <+: entry) (hbelow : ¬ entry <+: location) :
    files.content? path = (files.without entry).content? path := by
  rw [content?, content?, locate?_of_without hwithout, hwithout, Option.bind_some, Option.bind_some,
    isDirectory_without habove hbelow, lookup_without hbelow]

theorem content?_of_without {content : FileContent}
    (hdirectory : (files.without (location ++ [name])).isDirectory location = true)
    (h : (files.without (location ++ [name])).content? path = some content) :
    files.content? path = some content := by
  cases hlocate : (files.without (location ++ [name])).locate? path with
  | none =>
    rw [content?, hlocate] at h
    cases h
  | some l =>
    rw [content?, hlocate, Option.bind_some] at h
    by_cases hl : (files.without (location ++ [name])).isDirectory l = true
    · rw [if_pos hl] at h
      rw [content?, locate?_of_without hlocate, Option.bind_some,
        if_pos (isDirectory_of_without hl), h]
    · rw [if_neg hl] at h
      have hbelow : ¬ location ++ [name] <+: l := (mem_without.1 (mem_of_lookup h)).2
      have habove : ¬ l <+: location ++ [name] := by
        intro hway
        rcases List.prefix_concat_iff.1 hway with rfl | hway
        · exact hbelow List.prefix_rfl
        · exact hl (isDirectory_above hdirectory hway)
      rw [content?_eq hlocate habove hbelow, content?, hlocate, Option.bind_some, if_neg hl, h]

def nameIn? (location other : List String) : Option String :=
  if other.take location.length = location then other[location.length]? else none

theorem nameIn?_eq_some {other : List String} :
    nameIn? location other = some name ↔ location ++ [name] <+: other := by
  rw [nameIn?]
  constructor
  · intro h
    split at h
    case isFalse => cases h
    case isTrue htake =>
      obtain ⟨hlength, hname⟩ := List.getElem?_eq_some_iff.1 h
      rw [List.prefix_iff_eq_take, List.length_append, List.length_singleton,
        List.take_add_one, h, htake]
      rfl
  · rintro ⟨rest, rfl⟩
    simp

theorem namesIn_eq (hlocation : files.locate? directory = some location) :
    files.namesIn directory =
      sortTexts (files.filterMap fun row => nameIn? location row.1).eraseDups := by
  rw [namesIn, hlocation]
  rfl

theorem mem_namesIn (hlocation : files.locate? directory = some location) :
    name ∈ files.namesIn directory ↔ ∃ row ∈ files, location ++ [name] <+: row.1 := by
  rw [namesIn_eq hlocation, sortTexts, List.mem_mergeSort, List.mem_eraseDups, List.mem_filterMap]
  exact exists_congr fun row => and_congr_right fun _ => nameIn?_eq_some

theorem filter_eraseDups (p : String → Bool) (names : List String) :
    names.eraseDups.filter p = (names.filter p).eraseDups := by
  induction hlength : names.length using Nat.strongRecOn generalizing names with
  | ind length ih =>
    cases names with
    | nil => rfl
    | cons name rest =>
      have hshorter : (rest.filter fun b => !b == name).length < length := by
        rw [← hlength, List.length_cons]
        exact Nat.lt_succ_of_le (List.length_filter_le _ rest)
      rw [List.eraseDups_cons, List.filter_cons, List.filter_cons,
        ih _ hshorter _ rfl, List.filter_filter]
      split
      case isTrue hp =>
        rw [List.eraseDups_cons, List.filter_filter]
        simp only [Bool.and_comm]
      case isFalse hp =>
        refine congrArg _ (List.filter_congr fun b _ => ?_)
        by_cases hb : b = name
        · subst hb
          simp [hp]
        · simp [hb]

theorem namesIn_without
    (hlocation : (files.without (location ++ [name])).locate? directory = some location) :
    (files.without (location ++ [name])).namesIn directory =
      (files.namesIn directory).filter (· ≠ name) := by
  rw [namesIn_eq hlocation, namesIn_eq (locate?_of_without hlocation), filter_sortTexts,
    filter_eraseDups, without, List.filterMap_filter, List.filter_filterMap]
  refine congrArg _ (congrArg _ (List.filterMap_congr fun row _ => ?_))
  cases hname : nameIn? location row.1 with
  | none => exact ite_self none
  | some other =>
    have hentry : location ++ [name] <+: row.1 ↔ other = name := by
      rw [← nameIn?_eq_some, hname, Option.some_inj]
    by_cases hother : other = name <;> simp [hentry, hother, Option.filter_some]

theorem read_eq {other : Files} (h : files.content? path = other.content? path) :
    files.read path = other.read path := by
  rw [read, read, h]

/-- No name has a separator in it. -/
def HasPlainNames (files : Files) : Prop :=
  ∀ row ∈ files, ∀ name ∈ row.1, '/' ∉ name.toList

theorem HasPlainNames.not_mem_of_mem_namesIn (h : files.HasPlainNames)
    (hlocation : files.locate? directory = some location)
    (hname : name ∈ files.namesIn directory) : '/' ∉ name.toList := by
  obtain ⟨row, hrow, hway⟩ := (mem_namesIn hlocation).1 hname
  exact h row hrow name (hway.subset (List.mem_append_right _ (List.mem_singleton_self _)))

end Files

end Fingerprint
