import Fingerprint.Function.Signature
import Fingerprint.Literal.Collected
/-!
# Signatures

The signature of a source unit consists of its functions and of its literals.
-/

namespace Fingerprint

structure Signature where
  functions : List FunctionSignature := []
  literals : List Literal := []
  deriving DecidableEq, Repr

namespace Signature

def isEmpty (s : Signature) : Bool := s.functions.isEmpty && s.literals.isEmpty

/-- The signature of what is below a root. -/
def extract (options : TokenOptions) (root : Site) : Except Fault Signature := do
  let forest ← root.functions options
  let literals ← root.literals
  pure ⟨Located.flatten forest, literals⟩

end Signature

end Fingerprint
