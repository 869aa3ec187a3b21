import Fingerprint.Main
import Fingerprint.Proofs.CommandLine.Batch
import Fingerprint.Proofs.Corpus.Copies
import Fingerprint.Proofs.Corpus.Requests
import Fingerprint.Proofs.Corpus.RoundTrip
import Fingerprint.Proofs.Function.LocalNames
import Fingerprint.Proofs.Function.Naming
import Fingerprint.Proofs.Function.Nesting
import Fingerprint.Proofs.Function.Once
import Fingerprint.Proofs.Function.Worklist
import Fingerprint.Proofs.Literal.Discriminative
import Fingerprint.Proofs.Literal.Rounded
import Fingerprint.Proofs.Literal.Sets
import Fingerprint.Proofs.Matching.Multiplicities
import Fingerprint.Proofs.Matching.Relisted
import Fingerprint.Proofs.Signature.Bodies
import Fingerprint.Proofs.Signature.Braces
import Fingerprint.Proofs.Signature.Comments
import Fingerprint.Proofs.Signature.Declarations
import Fingerprint.Proofs.Signature.Faults
import Fingerprint.Proofs.Signature.Parentheses
import Fingerprint.Proofs.Signature.Prologues
import Fingerprint.Proofs.Signature.Renaming
import Fingerprint.Proofs.Signature.Reordering
import Fingerprint.Proofs.Signature.RoundTrip
import Fingerprint.Proofs.Token.Abstraction
import Fingerprint.Proofs.Token.Chains
import Fingerprint.Proofs.Token.Depth
import Fingerprint.Proofs.Token.Sequences
import Fingerprint.Proofs.Token.Undeclared
import Fingerprint.Proofs.Tree.Addresses
