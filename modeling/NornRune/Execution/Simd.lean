import NornRune.Execution.Predicate

open Bitplane

namespace NornRune

def simdComparison : Opcode → Option Comparison
  | .equal => some .equal
  | .notEqual => some .notEqual
  | .less => some .less
  | .lessEqual => some .lessEqual
  | .greater => some .greater
  | .greaterEqual => some .greaterEqual
  | _ => none

def simdTruthAnd (k : Kernels) (left right : Planes) (rows : Nat) : Planes :=
  Planes.maskTail {
    positive := k.andWords left.positive right.positive
    negative := k.orWords left.negative right.negative
  } rows

def simdTruthOr (k : Kernels) (left right : Planes) (rows : Nat) : Planes :=
  Planes.maskTail {
    positive := k.orWords left.positive right.positive
    negative := k.andWords left.negative right.negative
  } rows

def useSIMDKind (k : Kernels) (mode : ExecutionMode) (kind : ValueKind) (rows : Nat) : Bool :=
  match kind with
  | .symbol | .integer | .timestamp => useSIMDRows k mode rows simdComparisonMinRows
  | .boolean => useSIMDWords k mode (wordCount rows)
  | _ => false

def simdCompare (k : Kernels) (batch : Batch) (kind : ValueKind) (column : Nat)
    (value : PredicateValue) (comparison : Comparison) : Except Panic (List Bool) :=
  match kind with
  | .symbol => do
    return k.compareU32 (← batch.rowColumn batch.symbolValues column) value.symbol comparison
  | .integer => do
    return k.compareI64 (← batch.rowColumn batch.integerValues column) value.integer comparison
  | .timestamp => do
    return k.compareI64 (← batch.rowColumn batch.timestampValues column) value.timestamp comparison
  | _ => return []

-- Evaluates a comparison with the vector kernels. Predicates that they do not cover are left to the
-- scalar evaluator. `compareMask` is scratch that is overwritten before it is read.
def evalPredicateSIMD (k : Kernels) (compareMask : Slice Bool) (dst : Planes) (reasons : List Word)
    (batch : Batch) (p : Program) (instruction : Nat) (mode : ExecutionMode) :
    Except Panic (Slice Bool × Option Leaf) := do
  let row := instruction - 1
  let opcode := p.opcodes.getD row .invalid
  match simdComparison opcode with
  | none => return (compareMask, none)
  | some comparison =>
    let field := p.fields.getD row 0
    let (kind, column) ← predicateField p field
    require (!opcode.ordered || kind == .integer || kind == .timestamp)
      "eval: ordered predicate requires numeric field"
    if !useSIMDKind k mode kind batch.rows then return (compareMask, none)
    let value ← programPredicateValue p (p.values.getD row 0) kind
    let leaf ← resetLeafOutputs dst reasons batch.rows
    let words := wordCount batch.rows
    let presence ← batch.wordColumn batch.presenceMasks (field - 1)
    let missing := (List.range words).map fun word =>
      wordMask word words batch.rows &&& ~~~presence.getD word 0#64
    let reasons := ReasonPlanes.setPlane leaf.reasons reasonMissing words missing
    if kind = .boolean then
      let values ← batch.wordColumn batch.booleanValues column
      let set := k.andWords presence values
      let clear := k.andNotWords presence values
      let truth := if value.boolean == (opcode == .equal) then ⟨set, clear⟩ else ⟨clear, set⟩
      return (compareMask, some ⟨Planes.maskTail truth batch.rows, reasons⟩)
    else
      let compareMask := compareMask.resize false batch.rows
      let compareMask := compareMask.write 0 (← simdCompare k batch kind column value comparison)
      let positive := k.andWords (k.packMask compareMask.toList) presence
      let negative := k.andNotWords presence positive
      return (compareMask, some ⟨Planes.maskTail ⟨positive, negative⟩ batch.rows, reasons⟩)

end NornRune
