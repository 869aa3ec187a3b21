import Std.Data.TreeMap
import Fingerprint.Double.Basic
import Fingerprint.Matching.Strategy
import Fingerprint.Signature.Basic
/-!
# Comparisons

An unknown signature is compared with the one of a library by the overlap of two sets, or by
aligning functions: every unknown function is matched with the library function whose tokens
overlap most with its own, and the counts of all matches are added up.  What overlaps most is said
by an order of confidences, which is the one by their values.
-/

namespace Fingerprint

/-! ## Confidence -/

/-- A ratio of counts; where nothing can be compared it is zero out of one. -/
structure Confidence where
  val : Double
  num : Nat
  den : Nat
  deriving DecidableEq, Repr

namespace Confidence

def zero : Confidence := ⟨.zero, 0, 1⟩

/-- The ratio of two counts, each rounded before they are divided. -/
def ofCounts (num den : Nat) : Confidence :=
  if den = 0 then zero else ⟨.ofNat num / .ofNat den, num, den⟩

def byValue (a b : Confidence) : Ordering := compare a.val b.val

end Confidence

/-! ## Overlap of sets -/

/-- The sizes of the intersection and of the union of two ascending lists. -/
def overlapCounts {α : Type} [BEq α] (lt : α → α → Bool) (a b : List α) : Nat × Nat :=
  let common := Ascending.shared lt a b
  (common, a.length + b.length - common)

namespace Overlap

/-- The confidence that a measure gives to two ascending lists, the unknown one first. -/
def confidence {α : Type} [BEq α] (measure : Overlap) (lt : α → α → Bool)
    (unknown library : List α) : Confidence :=
  let (common, union) := overlapCounts lt unknown library
  match measure with
  | jaccard => .ofCounts common union
  | coverage => .ofCounts common unknown.length

end Overlap

def textLt (a b : String) : Bool := decide (a < b)

def textSet (texts : List String) : List String := Ascending.dropRepeats (sortTexts texts)

namespace Signature

def names (s : Signature) : List String := textSet (s.functions.map FunctionSignature.name)

def types (s : Signature) : List String :=
  textSet (s.functions.flatMap FunctionSignature.statementTypes)

end Signature

/-! ## Alignment of functions -/

def Strictness.bag (strictness : Strictness) (tokens : List String) : List String :=
  match strictness with
  | .loose => textSet tokens
  | .strict => sortTexts tokens

/-- A library function with the counts of its overlap with an unknown one. -/
structure Candidate where
  index : Nat
  confidence : Confidence

namespace Candidate

def ofBags (unknown : List String) (index : Nat) (library : List String) : Candidate :=
  let (common, union) := overlapCounts textLt unknown library
  ⟨index, .ofCounts common union⟩

variable (order : Confidence → Confidence → Ordering)

/-- Whether a candidate replaces the best one so far: it overlaps more, or as much and comes
earlier in its library. -/
def beats (a b : Candidate) : Bool :=
  match order a.confidence b.confidence with
  | .gt => true
  | .eq => decide (a.index < b.index)
  | .lt => false

def best? (candidates : List Candidate) : Option Candidate :=
  candidates.foldl
    (fun best c =>
      match best with
      | none => some c
      | some b => if beats order c b then some c else some b)
    none

/-- The best candidate, if it overlaps at all. -/
def match? (candidates : List Candidate) : Option Candidate :=
  (best? order candidates).filter (0 < ·.confidence.num)

end Candidate

/-- A match of an unknown function, by the indices of both functions. -/
structure FunctionMatch where
  unknownIndex : Nat
  matchedIndex : Nat
  prob : Confidence
  deriving DecidableEq, Repr

/-- The best match by the index of the unknown function. -/
abbrev MatchMap := Std.TreeMap Nat FunctionMatch

namespace MatchMap

/-- Matches by ascending index of the unknown function. -/
def entries (map : MatchMap) : List FunctionMatch := map.toList.map (·.2)

/-- Whether a match is listed before another: by more confidence, then by lower index. -/
def listedBefore (order : Confidence → Confidence → Ordering) (a b : FunctionMatch) : Bool :=
  match order a.prob b.prob with
  | .gt => true
  | .eq => decide (a.unknownIndex ≤ b.unknownIndex)
  | .lt => false

def sorted (order : Confidence → Confidence → Ordering) (map : MatchMap) : List FunctionMatch :=
  map.entries.mergeSort (listedBefore order)

end MatchMap

/-- What has been added up over the functions aligned so far. -/
structure Alignment where
  num : Nat := 0
  den : Nat := 0
  map : MatchMap := {}

namespace Alignment

variable (order : Confidence → Confidence → Ordering) (strictness : Strictness)

/-- Aligns one more unknown function.  Without a match it counts with its own size. -/
def add (library : List (Nat × List String)) (total : Alignment) (function : FunctionSignature) :
    Alignment :=
  let bag := strictness.bag function.statementTokens
  match Candidate.match? order (library.map fun (index, tokens) => .ofBags bag index tokens) with
  | some c =>
    { num := total.num + c.confidence.num
      den := total.den + c.confidence.den
      map := total.map.insert function.index ⟨function.index, c.index, c.confidence⟩ }
  | none => { total with den := total.den + bag.length }

/-- Aligns the functions of an unknown signature with those of a library. -/
def ofSignatures (unknown library : Signature) : Alignment :=
  let bags := library.functions.map fun f => (f.index, strictness.bag f.statementTokens)
  unknown.functions.foldl (add order strictness bags) {}

end Alignment

/-! ## Comparison of signatures -/

structure Comparison where
  confidence : Confidence
  matched : List FunctionMatch := []
  deriving DecidableEq, Repr

namespace Strategy

/-- The functions that a strategy matches, if it matches functions. -/
def matchMap? (strategy : Strategy) (unknown library : Signature) : Option MatchMap :=
  match strategy with
  | functionTokens strictness =>
    some (Alignment.ofSignatures Confidence.byValue strictness unknown library).map
  | _ => none

def score (strategy : Strategy) (unknown library : Signature) : Confidence :=
  match strategy with
  | literals measure =>
    measure.confidence Literal.lt (Literal.ascending unknown.literals)
      (Literal.ascending library.literals)
  | functionNames measure => measure.confidence textLt unknown.names library.names
  | statementTypes measure => measure.confidence textLt unknown.types library.types
  | functionTokens strictness =>
    let total := Alignment.ofSignatures Confidence.byValue strictness unknown library
    .ofCounts total.num total.den

/-- Compares two signatures, with functions matched by a given order of confidences. -/
def compareBy (order : Confidence → Confidence → Ordering) (strategy : Strategy)
    (unknown library : Signature) : Comparison :=
  match strategy with
  | functionTokens strictness =>
    let total := Alignment.ofSignatures order strictness unknown library
    ⟨.ofCounts total.num total.den, total.map.sorted order⟩
  | _ => ⟨strategy.score unknown library, []⟩

def compare (strategy : Strategy) (unknown library : Signature) : Comparison :=
  strategy.compareBy Confidence.byValue unknown library

end Strategy

end Fingerprint
