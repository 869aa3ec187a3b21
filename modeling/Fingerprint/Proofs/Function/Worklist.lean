import Mathlib.Data.Set.Finite.Lattice
import Fingerprint.Function.Worklist
import Fingerprint.Proofs.Function.Naming
/-!
# Names without bookkeeping

The name of a function depends on the name of the function around it and on which names were given
before, in source order, and on nothing else.  So `plain` gives the same names with no stack and
no next numbers: a name that is taken gets the least number that makes it free.
-/

namespace Fingerprint

namespace GivenNames

theorem exists_free (given : List String) (base : String) :
    ∃ k, 1 ≤ k ∧ numbered base k ∉ given := by
  by_contra hnone
  have htaken : ∀ k, numbered base (k + 1) ∈ given := by
    intro k
    by_contra hfree
    exact hnone ⟨k + 1, by omega, hfree⟩
  have hinjective : Function.Injective fun k => numbered base (k + 1) := by
    intro i j hij
    exact Nat.succ_injective (numbered_injective base hij)
  exact Set.infinite_of_injective_forall_mem hinjective htaken given.finite_toSet

def leastFree (given : List String) (base : String) : Nat := Nat.find (exists_free given base)

def chosen (given : List String) (base : String) : String :=
  if base ∈ given then numbered base (leastFree given base) else base

theorem IsDue.eq_chosen {given : List String} {base name : String} (h : IsDue given base name) :
    name = chosen given base := by
  rcases h with ⟨hfree, rfl⟩ | ⟨htaken, k, hk, rfl, hfree, hleast⟩
  · exact (if_neg hfree).symm
  · have hfind : leastFree given base = k := by
      rw [leastFree, Nat.find_eq_iff]
      exact ⟨⟨hk, hfree⟩, fun i hi hboth => hboth.2 (hleast i hboth.1 hi)⟩
    rw [chosen, if_pos htaken, hfind]

end GivenNames

/-! ## Plain names -/

namespace Located

open GivenNames

/-- A local name under the name given to the function around it.  An empty name leaves no trace. -/
def base (above : Option String) (name : String) : String :=
  match above with
  | none => name
  | some above => if above = "" then name else above ++ "::" ++ name

theorem under_getD (above : Option String) (name : String) :
    under (above.getD "") name = base above name := by
  cases above with
  | none => rfl
  | some above => simp [under, base]

mutual

def plainEntry (above : Option String) (given : List String) :
    Entry Located → Entry (String × Located)
  | ⟨path, function, children⟩ =>
    let name := chosen given (base above function.name)
    ⟨path, (name, function), plainAll (some name) (given ++ [name]) children⟩

def plainAll (above : Option String) (given : List String) :
    List (Entry Located) → List (Entry (String × Located))
  | [] => []
  | e :: rest =>
    let here := plainEntry above given e
    here :: plainAll above (given ++ (Entry.toList here).map Prod.fst) rest

end

def plain (forest : List (Entry Located)) : List (Entry (String × Located)) :=
  plainAll none [] forest

mutual

theorem titleEntry_eq (above : Option String) {names : GivenNames} {given : List String}
    (h : names.Records given) :
    ∀ e : Entry Located, (titleEntry (above.getD "") names e).1 = plainEntry above given e
  | ⟨path, function, children⟩ => by
    have hname := (isDue_give h (under (above.getD "") function.name)).eq_chosen
    have hrecords := h.give (under (above.getD "") function.name)
    rw [under_getD] at hname hrecords
    simp only [titleEntry, plainEntry, under_getD]
    rw [hname] at hrecords ⊢
    rw [← titleAll_eq _ hrecords children]
    rfl

theorem titleAll_eq (above : Option String) {names : GivenNames} {given : List String}
    (h : names.Records given) :
    ∀ forest : List (Entry Located),
      (titleAll (above.getD "") names forest).1 = plainAll above given forest
  | [] => rfl
  | e :: rest => by
    have hrecords := (titles_titleEntry (above.getD "") h e).records
    simp only [Entry.toListAll, List.append_nil] at hrecords
    simp only [titleAll, plainAll]
    rw [titleEntry_eq above h e] at hrecords ⊢
    rw [← titleAll_eq above hrecords rest]

end

theorem titled_eq_plain (forest : List (Entry Located)) : titled forest = plain forest :=
  titleAll_eq none records_empty forest

end Located

/-! ## The stack -/

namespace Naming

def remaining (names : GivenNames) : List Unnamed → List (String × List String)
  | [] => []
  | ⟨parent, e⟩ :: stack =>
    let (here, names) := Located.nameEntry parent names e
    here ++ remaining names stack

theorem remaining_map_append (parent : String) (names : GivenNames) (entries : List (Entry Located))
    (stack : List Unnamed) :
    remaining names (entries.map (⟨parent, ·⟩) ++ stack) =
      (Located.nameAll parent names entries).1 ++
        remaining (Located.nameAll parent names entries).2 stack := by
  induction entries generalizing names with
  | nil => rfl
  | cons e rest ih =>
    simp only [List.map_cons, List.cons_append, remaining, ih, Located.nameAll, List.append_assoc]

/-- Naming the entry on top keeps what the names will be in the end. -/
theorem remaining_step? {naming next : Naming} (h : naming.step? = some next) :
    next.named ++ remaining next.names next.stack =
      naming.named ++ remaining naming.names naming.stack := by
  obtain ⟨_ | ⟨⟨parent, ⟨path, function, children⟩⟩, rest⟩, names, named⟩ := naming
  · cases h
  · simp only [step?, Option.some.injEq] at h
    subst h
    simp only [push_eq, remaining_map_append, remaining, Located.nameEntry, List.append_assoc,
      List.cons_append, List.nil_append]

theorem stack_of_step?_eq_none {naming : Naming} (h : naming.step? = none) : naming.stack = [] := by
  rw [step?] at h
  split at h
  · assumption
  · cases h

theorem run_eq (naming : Naming) :
    naming.run = naming.named ++ remaining naming.names naming.stack := by
  rw [run]
  split
  case h_1 hdone => rw [stack_of_step?_eq_none hdone, remaining, List.append_nil]
  case h_2 next hnext =>
    have := ahead_step?_lt hnext
    rw [run_eq next, remaining_step? hnext]
termination_by naming.ahead

theorem run_start (forest : List (Entry Located)) : (start forest).run = Located.named forest := by
  rw [run_eq, start, push_eq, remaining_map_append]
  simp only [List.nil_append, remaining, List.append_nil, Located.named]

end Naming

namespace Located

/-- **Names need no bookkeeping.**  What the loop gives to the entries of a forest, in source order,
are the plain names: the local name under the name given above it, and if an entry before has that
name, the least positive number behind it that makes a name of no entry before.  Flattening only
sorts these names with their tokens. -/
theorem flatten_plain (forest : List (Entry Located)) :
    Entry.mapAll Prod.snd (plain forest) = forest ∧
    (Naming.start forest).run =
      (Entry.toListAll (plain forest)).map (fun t => (t.1, t.2.tokens)) ∧
    named forest = (Naming.start forest).run ∧
    (flatten forest).map (fun f => (f.name, f.statementTokens)) =
      (Naming.start forest).run.mergeSort fun a b => textLe a.1 b.1 := by
  have hrun : (Naming.start forest).run =
      (Entry.toListAll (plain forest)).map fun t => (t.1, t.2.tokens) := by
    rw [Naming.run_start, named_eq_titled, titled_eq_plain]
  refine ⟨?_, hrun, (Naming.run_start forest).symm, ?_⟩
  · rw [← titled_eq_plain]
    exact map_titleAll "" {} forest
  · rw [map_flatten, titled_eq_plain, hrun]

/-- A number is passed over where a local name ends in it. -/
example : (named [⟨"", ⟨"a#1", []⟩, []⟩, ⟨"", ⟨"a", []⟩, []⟩, ⟨"", ⟨"a", []⟩, []⟩]).map Prod.fst =
    ["a#1", "a", "a#2"] := by
  decide +kernel

end Located

end Fingerprint
