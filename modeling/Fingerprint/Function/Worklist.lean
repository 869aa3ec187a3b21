import Fingerprint.Function.Signature
/-!
# Names without recursion

Functions can be nested deeper than a call stack is high.  The names of a forest are therefore given
by one loop, which keeps the entries that have no name yet on a stack.
-/

namespace Fingerprint

theorem Entry.sizes_append {α : Type} (a b : List (Entry α)) :
    sizes (a ++ b) = sizes a + sizes b := by
  induction a with
  | nil => exact (Nat.zero_add _).symm
  | cons e rest ih => rw [List.cons_append, sizes, sizes, ih, Nat.add_assoc]

/-- An entry that has no name yet, with the full name of the function around it. -/
structure Unnamed where
  parent : String
  entry : Entry Located

/-- The naming of a forest under way. -/
structure Naming where
  /-- The entries that have no name yet, the next one first. -/
  stack : List Unnamed
  names : GivenNames := {}
  /-- The names so far in the order in which they were given, each with its tokens. -/
  named : List (String × List String) := []

namespace Naming

/-- Puts the entries below a function on the stack, the last of them first. -/
def push (parent : String) (entries : List (Entry Located)) (stack : List Unnamed) : List Unnamed :=
  entries.reverse.foldl (fun stack e => ⟨parent, e⟩ :: stack) stack

/-- What is put on the stack comes off in its own order. -/
theorem push_eq (parent : String) (entries : List (Entry Located)) (stack : List Unnamed) :
    push parent entries stack = entries.map (⟨parent, ·⟩) ++ stack := by
  rw [push, List.foldl_reverse, List.foldr_cons_eq_append]

/-- Names the entry on top of the stack. -/
def step? (naming : Naming) : Option Naming :=
  match naming.stack with
  | [] => none
  | ⟨parent, ⟨_, function, children⟩⟩ :: rest =>
    let (name, names) := naming.names.give (Located.under parent function.name)
    some ⟨push name children rest, names, naming.named ++ [(name, function.tokens)]⟩

/-- Number of entries without a name, those below the ones on the stack included. -/
def ahead (naming : Naming) : Nat := Entry.sizes (naming.stack.map Unnamed.entry)

theorem ahead_step?_lt {naming next : Naming} (h : naming.step? = some next) :
    next.ahead < naming.ahead := by
  obtain ⟨_ | ⟨⟨parent, ⟨path, function, children⟩⟩, rest⟩, names, named⟩ := naming
  · cases h
  · cases h
    have hsame : ∀ name, children.map (Unnamed.entry ∘ Unnamed.mk name) = children :=
      fun _ => List.map_id _
    simp only [ahead, push_eq, List.map_append, List.map_map, List.map_cons, hsame,
      Entry.sizes_append, Entry.sizes, Entry.size]
    omega

/-- Goes on until the stack is empty. -/
def run (naming : Naming) : List (String × List String) :=
  match h : naming.step? with
  | none => naming.named
  | some next =>
    have := ahead_step?_lt h
    run next
termination_by naming.ahead

/-- A forest of which nothing has been named. -/
def start (forest : List (Entry Located)) : Naming := { stack := push "" forest [] }

end Naming

end Fingerprint
