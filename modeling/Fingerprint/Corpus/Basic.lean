import Fingerprint.Corpus.LibraryId
import Fingerprint.Literal.Index
import Fingerprint.Matching.Comparison
/-!
# Corpora

A corpus is a list of known libraries with an index of their literals.  Unknown signatures are
ranked against its libraries.
-/

namespace Fingerprint

structure LibraryEntry where
  id : LibraryId
  signature : Signature

structure Corpus where
  entries : Array LibraryEntry := #[]
  index : LiteralIndex := {}

namespace Corpus

def add (corpus : Corpus) (id : LibraryId) (signature : Signature) : Corpus where
  entries := corpus.entries.push ⟨id, signature⟩
  index := corpus.index.add signature.literals

def ofEntries (entries : List (LibraryId × Signature)) : Corpus :=
  entries.foldl (fun corpus (id, signature) => corpus.add id signature) {}

/-- The libraries that share a literal with an unknown signature, in the order of the corpus. -/
def candidateIds (corpus : Corpus) (unknown : Signature) : List LibraryId :=
  (corpus.index.candidates unknown.literals).filterMap fun i => corpus.entries[i]?.map (·.id)

end Corpus

structure RankOptions where
  topN : Nat := 100
  /-- Compare only with libraries that share a literal with the unknown. -/
  useCandidateFilter : Bool := true
  /-- Compare with all libraries if none shares a literal. -/
  fallbackToFullCorpus : Bool := true
  deriving DecidableEq, Repr

structure RankedLibrary where
  library : LibraryId
  comparison : Comparison
  deriving DecidableEq, Repr

namespace RankedLibrary

/-- Whether one library ranks before another: by more confidence, then by id. -/
def ranksBefore (a b : RankedLibrary) : Bool :=
  match compare a.comparison.confidence.val b.comparison.confidence.val with
  | .gt => true
  | .eq => a.library.le b.library
  | .lt => false

end RankedLibrary

namespace Corpus

/-- The numbers of the libraries to compare with. -/
def selected (corpus : Corpus) (options : RankOptions) (unknown : Signature) : List Nat :=
  let all := List.range corpus.entries.size
  if options.useCandidateFilter then
    let found := corpus.index.candidates unknown.literals
    if found.isEmpty && options.fallbackToFullCorpus then all else found
  else all

/-- The libraries of a corpus that are most like an unknown signature, the best first. -/
def rank (corpus : Corpus) (strategy : Strategy) (options : RankOptions) (unknown : Signature) :
    List RankedLibrary :=
  let compared := ((corpus.selected options unknown).filterMap (corpus.entries[·]?)).map
    fun e => (⟨e.id, strategy.compare unknown e.signature⟩ : RankedLibrary)
  (compared.mergeSort RankedLibrary.ranksBefore).take options.topN

end Corpus

/-- Candidates of several units by the name of the unit, names ascending.  Of units with the same
name the last counts. -/
def candidateMap (corpus : Corpus) (units : List (String × Signature)) :
    List (String × List LibraryId) :=
  (units.foldl (fun map (name, signature) => map.insert name (corpus.candidateIds signature))
    (∅ : Std.TreeMap String (List LibraryId))).toList

end Fingerprint
