import Fingerprint.CommandLine.Run
import Fingerprint.Files.Json
/-!
# The program

Runs a command line over the files that standard input describes; see `Files.ofDocument?`.
-/

open Fingerprint

def main (arguments : List String) : IO UInt32 := do
  let input ← (← IO.getStdin).readToEnd
  let files := ((Document.ofText? input).bind Files.ofDocument?).getD []
  let outcome := CommandLine.outcome files arguments
  IO.print outcome.output
  if let some error := outcome.error then IO.eprintln error
  return UInt32.ofNat outcome.exitCode
