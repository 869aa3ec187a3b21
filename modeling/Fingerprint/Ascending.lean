/-!
# Ascending lists

Sets and bags are kept as ascending lists.
-/

namespace Fingerprint.Ascending

variable {α : Type}

/-- Drops every element that equals the next. -/
def dropRepeats [BEq α] (items : List α) : List α :=
  items.foldr
    (fun a kept =>
      match kept with
      | [] => [a]
      | b :: _ => if a == b then kept else a :: kept)
    []

/-- Number of elements that two ascending lists share, each as often as both hold it. -/
def shared [BEq α] (lt : α → α → Bool) : List α → List α → Nat
  | [], _ => 0
  | a :: rest, others =>
    match others.dropWhile (lt · a) with
    | [] => 0
    | b :: later => if b == a then shared lt rest later + 1 else shared lt rest (b :: later)

end Fingerprint.Ascending
