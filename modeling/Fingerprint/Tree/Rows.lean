import Fingerprint.Tree.Node
/-!
# Trees from rows

The flat form of a tree lists its nodes in pre-order, each with its number of children.
`Node.ofRows?` rebuilds the tree over a source text, and gives nothing for a list that is not the
pre-order of exactly one tree.
-/

namespace Fingerprint

/-- One node of the flat form; `start` and `stop` are byte offsets. -/
structure Row where
  kind : String
  named : Bool
  field : Option String
  start : Nat
  stop : Nat
  children : Nat
  deriving DecidableEq, Repr

/-- The position of every byte of a text, and of its end. -/
def positions (source : ByteArray) : Array Position :=
  let step (acc : Array Position × Position) (byte : UInt8) : Array Position × Position :=
    let next : Position :=
      if byte = 10 then ⟨acc.2.line + 1, 0⟩ else ⟨acc.2.line, acc.2.column + 1⟩
    (acc.1.push next, next)
  (source.toList.foldl step (#[⟨0, 0⟩], ⟨0, 0⟩)).1

/-- The text between two byte offsets, empty if these do not cut the source between characters. -/
def slice (source : ByteArray) (start stop : Nat) : String :=
  (String.fromUTF8? (source.extract start stop)).getD ""

namespace Node

/-- Takes the rows from the last to the first: a row closes over the nearest of the trees that
were built after it. -/
def ofRow (source : ByteArray) (places : Array Position) (row : Row) :
    Nat × Option (List Node) → Nat × Option (List Node)
  | (number, built) =>
    (number - 1, built.bind fun trees =>
      let own := trees.take row.children
      if own.length < row.children then none
      else
        let label : Label :=
          { number := number
            kind := row.kind
            named := row.named
            field := row.field
            start := row.start
            position := places[row.start]?.getD ⟨0, 0⟩
            text := slice source row.start row.stop }
        some (⟨label, own⟩ :: trees.drop row.children))

/-- The tree that a list of rows flattens. -/
def ofRows? (source : String) (rows : List Row) : Option Node :=
  let bytes := source.toUTF8
  match (rows.foldr (ofRow bytes (positions bytes)) (rows.length - 1, some [])).2 with
  | some [root] => some root
  | _ => none

end Node

end Fingerprint
