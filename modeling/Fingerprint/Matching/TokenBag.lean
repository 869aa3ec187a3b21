import Std.Data.HashMap
import Std.Data.HashSet
import Fingerprint.Matching.Comparison
/-!
# Token bags

The tokens of a function can be prepared for comparisons as a hash set, or as a hash map of how
often each one occurs.  Two sets overlap in what both hold; two maps are gone over one after the
other, with the lesser and the greater count of every token added up.  How tokens are hashed is
left open.  It decides in which order entries are met, so the overlap is also defined for any orders.
-/

namespace Fingerprint

variable [Hashable String]

/-- The tokens of a function, prepared once for all comparisons with it. -/
inductive TokenBag where
  /-- Repeated tokens count once. -/
  | set (tokens : Std.HashSet String)
  /-- Every token with how often it occurs. -/
  | counted (counts : Std.HashMap String Nat)

namespace TokenBag

/-- Counts one more occurrence of a token. -/
def count (counts : Std.HashMap String Nat) (token : String) : Std.HashMap String Nat :=
  counts.insert token (counts.getD token 0 + 1)

def ofTokens (strictness : Strictness) (tokens : List String) : TokenBag :=
  match strictness with
  | .loose => .set (.ofList tokens)
  | .strict => .counted (tokens.foldl count ∅)

def size : TokenBag → Nat
  | set tokens => tokens.size
  | counted counts => counts.toList.foldr (fun entry total => entry.2 + total) 0

/-- Goes over the tokens of the first map: the lesser counts and the greater ones. -/
def overlapFirst (a b : Std.HashMap String Nat) : Nat × Nat :=
  a.toList.foldl
    (fun (common, union) (token, n) =>
      (common + min n (b.getD token 0), union + max n (b.getD token 0)))
    (0, 0)

/-- Goes over the tokens of the second map that the first does not hold. -/
def overlapSecond (a b : Std.HashMap String Nat) (union : Nat) : Nat :=
  b.toList.foldl (fun union (token, n) => if a.contains token then union else union + n) union

/-- How much two bags have in common and how much they have together. -/
def overlap : TokenBag → TokenBag → Nat × Nat
  | set a, set b =>
    let common := (a.toList.filter b.contains).length
    (common, a.size + b.size - common)
  | counted a, counted b =>
    let (common, union) := overlapFirst a b
    (common, overlapSecond a b union)
  | a, b => (0, a.size + b.size)

/-! ## Orders of entries -/

/-- What a bag is gone over by: each of its tokens once, with its count. -/
def entries : TokenBag → List (String × Nat)
  | set tokens => tokens.toList.map (·, 1)
  | counted counts => counts.toList

/-- The size of a bag whose entries are met in some order. -/
def sizeAlong (order : List (String × Nat)) : TokenBag → Nat
  | set tokens => tokens.size
  | counted _ => order.foldr (fun entry total => entry.2 + total) 0

/-- The overlap of two bags whose entries are met in some orders, if no difference of sizes would
be below zero.  Of two sets only the one that is not the greater is gone over. -/
def overlapAlong? (first second : List (String × Nat)) : TokenBag → TokenBag → Option (Nat × Nat)
  | set a, set b =>
    let common :=
      if a.size ≤ b.size then first.countP fun entry => b.contains entry.1
      else second.countP fun entry => a.contains entry.1
    if common ≤ a.size + b.size then some (common, a.size + b.size - common) else none
  | counted a, counted b =>
    let (common, union) := first.foldl
      (fun (common, union) (token, n) =>
        (common + min n (b.getD token 0), union + max n (b.getD token 0)))
      (0, 0)
    some (common,
      second.foldl (fun union (token, n) => if a.contains token then union else union + n) union)
  | a, b => some (0, a.sizeAlong first + b.sizeAlong second)

end TokenBag

def Candidate.ofTokenBags (unknown : TokenBag) (index : Nat) (library : TokenBag) : Candidate :=
  let (common, union) := unknown.overlap library
  ⟨index, .ofCounts common union⟩

namespace Alignment

variable (order : Confidence → Confidence → Ordering) (strictness : Strictness)

/-- Aligns one more unknown function with library functions whose tokens are prepared. -/
def addBag (library : List (Nat × TokenBag)) (total : Alignment) (function : FunctionSignature) :
    Alignment :=
  let bag := TokenBag.ofTokens strictness function.statementTokens
  match Candidate.match? order (library.map fun entry => .ofTokenBags bag entry.1 entry.2) with
  | some c =>
    { num := total.num + c.confidence.num
      den := total.den + c.confidence.den
      map := total.map.insert function.index ⟨function.index, c.index, c.confidence⟩ }
  | none => { total with den := total.den + bag.size }

/-- Aligns the functions of an unknown signature with those of a library by token bags. -/
def ofTokenBags (unknown library : Signature) : Alignment :=
  let bags := library.functions.map fun f =>
    (f.index, TokenBag.ofTokens strictness f.statementTokens)
  unknown.functions.foldl (addBag order strictness bags) {}

end Alignment

/-- Compares two signatures by the token bags of their functions. -/
def Strictness.compareBags (strictness : Strictness) (unknown library : Signature) : Comparison :=
  let total := Alignment.ofTokenBags Confidence.byValue strictness unknown library
  ⟨.ofCounts total.num total.den, total.map.sorted Confidence.byValue⟩

end Fingerprint
