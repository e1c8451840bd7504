import NornRune.Execution.FactIndex
import NornRune.Execution.Simd

open Bitplane

namespace NornRune

-- The scratch of one serial evaluator, and the bindings that it caches by the address of a program.
structure Executor where
  query : Option Nat
  program : Option Nat
  states : EvidenceStateIndex
  factBuilder : FactBuilder
  truthWords : Slice Word
  reasonWords : Slice Word
  candidateWords : Slice Word
  selectorValues : Slice Nat
  selectorPresent : Slice Bool
  compareMask : Slice Bool
  factIndex : FactIndex

namespace Executor

def zero : Executor where
  query := none
  program := none
  states := .empty
  factBuilder := ⟨.empty⟩
  truthWords := .empty
  reasonWords := .empty
  candidateWords := .empty
  selectorValues := .empty
  selectorPresent := .empty
  compareMask := .empty
  factIndex := .empty

def truthSlotCount (e : Executor) (heap : Heap) : Nat :=
  e.program.elim 0 fun addr => (heap addr).truthSlotCount

def reasonSlotCount (e : Executor) (heap : Heap) : Nat :=
  e.program.elim 0 fun addr => (heap addr).reasonSlotCount

def truthStart (slot rows : Nat) : Nat :=
  (slot - 1) * (2 * wordCount rows)

def reasonStart (slot rows : Nat) : Nat :=
  (slot - 1) * (reasonCount * wordCount rows)

def truthSlot (e : Executor) (heap : Heap) (slot rows : Nat) : Except Panic Planes := do
  let words := wordCount rows
  let start := truthStart slot rows
  require (slot != 0 && decide (slot ≤ e.truthSlotCount heap)) "eval: invalid truth slot"
  require (decide (start + 2 * words ≤ e.truthWords.len)) "eval: invalid truth scratch"
  return ⟨e.truthWords.read start words, e.truthWords.read (start + words) words⟩

def reasonSlot (e : Executor) (heap : Heap) (slot rows : Nat) : Except Panic (List Word) := do
  let words := wordCount rows
  let start := reasonStart slot rows
  require (slot != 0 && decide (slot ≤ e.reasonSlotCount heap)) "eval: invalid reason slot"
  require (decide (start + reasonCount * words ≤ e.reasonWords.len)) "eval: invalid reason scratch"
  return e.reasonWords.read start (reasonCount * words)

def setTruthSlot (e : Executor) (slot rows : Nat) (t : Planes) : Executor :=
  let start := truthStart slot rows
  { e with truthWords := (e.truthWords.write start t.positive).write (start + wordCount rows) t.negative }

def setReasonSlot (e : Executor) (slot rows : Nat) (ws : List Word) : Executor :=
  { e with reasonWords := e.reasonWords.write (reasonStart slot rows) ws }

def setLeaf (e : Executor) (p : Program) (row rows : Nat) (leaf : Leaf) : Executor :=
  (e.setTruthSlot (p.truthSlots.getD row 0) rows leaf.truth).setReasonSlot
    (p.reasonSlots.getD row 0) rows leaf.reasons

-- The operand that already occupies the slot of the result. Without one, the first operand is copied
-- there. All other operands are then combined into it.
def groupDriver (slotOf : Nat → Nat) (operands : List Nat) (dstSlot : Nat) : Option Nat :=
  operands.findIdx? fun operand => slotOf operand == dstSlot

def combineTruth (k : Kernels) (opcode : Opcode) (rows : Nat) (mode : ExecutionMode)
    (dst src : Planes) : Except Panic Planes :=
  if useSIMDWords k mode dst.positive.length then
    .ok (if opcode = .all then simdTruthAnd k dst src rows else simdTruthOr k dst src rows)
  else if opcode = .all then Planes.and dst dst src rows else Planes.or dst dst src rows

def combineReasons (k : Kernels) (mode : ExecutionMode) (dst src : List Word) : List Word :=
  if useSIMDWords k mode dst.length then k.orWords dst src else List.zipWith (· ||| ·) dst src

def loadTruthDriver (heap : Heap) (e : Executor) (p : Program) (row rows : Nat) :
    Option Nat → Except Panic Executor
  | some _ => .ok e
  | none => do
    let first ← fetch (p.operandsOf row) 0
    return e.setTruthSlot (p.truthSlots.getD row 0) rows
      (← e.truthSlot heap (p.truthSlotOf first) rows)

def loadReasonDriver (heap : Heap) (e : Executor) (p : Program) (row rows : Nat) :
    Option Nat → Except Panic Executor
  | some _ => .ok e
  | none => do
    let first ← fetch (p.operandsOf row) 0
    return e.setReasonSlot (p.reasonSlots.getD row 0) rows
      (← e.reasonSlot heap (p.reasonSlotOf first) rows)

def reduceTruthGroup (k : Kernels) (heap : Heap) (e : Executor) (p : Program) (row : Nat)
    (opcode : Opcode) (rows : Nat) (mode : ExecutionMode) : Except Panic Executor := do
  let operands := p.operandsOf row
  let dstSlot := p.truthSlots.getD row 0
  let driver := groupDriver p.truthSlotOf operands dstSlot
  let e ← loadTruthDriver heap e p row rows driver
  operands.zipIdx.foldlM (fun e (operand, i) => do
    if i = driver.getD 0 then return e
    else
      let src ← e.truthSlot heap (p.truthSlotOf operand) rows
      let dst ← e.truthSlot heap dstSlot rows
      return e.setTruthSlot dstSlot rows (← combineTruth k opcode rows mode dst src)) e

def reduceReasonGroup (k : Kernels) (heap : Heap) (e : Executor) (p : Program) (row rows : Nat)
    (mode : ExecutionMode) : Except Panic Executor := do
  let operands := p.operandsOf row
  let dstSlot := p.reasonSlots.getD row 0
  let driver := groupDriver p.reasonSlotOf operands dstSlot
  let e ← loadReasonDriver heap e p row rows driver
  operands.zipIdx.foldlM (fun e (operand, i) => do
    if i = driver.getD 0 then return e
    else
      let src ← e.reasonSlot heap (p.reasonSlotOf operand) rows
      let dst ← e.reasonSlot heap dstSlot rows
      return e.setReasonSlot dstSlot rows (combineReasons k mode dst src)) e

-- A comparison is tried on the fact index first, then on the vector kernels.
def executePredicate (k : Kernels) (heap : Heap) (e : Executor) (addr row : Nat) (batch : Batch)
    (mode : ExecutionMode) (dst : Planes) (reasons : List Word) : Except Panic Executor := do
  let p := heap addr
  match ← evalPredicateIndex k e.factIndex dst reasons batch heap addr (row + 1) mode with
  | some leaf => return e.setLeaf p row batch.rows leaf
  | none =>
    let (compareMask, leaf) ←
      evalPredicateSIMD k e.compareMask dst reasons batch p (row + 1) mode
    let e := { e with compareMask }
    match leaf with
    | some leaf => return e.setLeaf p row batch.rows leaf
    | none => return e.setLeaf p row batch.rows (← evalPredicate dst reasons batch p (row + 1))

def executeNot (heap : Heap) (e : Executor) (p : Program) (row rows : Nat) (dst : Planes) :
    Except Panic Executor := do
  let operand ← fetch p.operands (p.operandStarts.getD row 0)
  let src ← e.truthSlot heap (p.truthSlotOf operand) rows
  let e := e.setTruthSlot (p.truthSlots.getD row 0) rows (← Planes.not dst src rows)
  let srcReasons ← e.reasonSlot heap (p.reasonSlotOf operand) rows
  if p.reasonSlots.getD row 0 ≠ p.reasonSlotOf operand then
    return e.setReasonSlot (p.reasonSlots.getD row 0) rows srcReasons
  else return e

def executeInstructionMode (k : Kernels) (heap : Heap) (e : Executor) (addr : Nat) (batch : Batch)
    (mode : ExecutionMode) (row : Nat) : Except Panic Executor := do
  let p := heap addr
  let rows := batch.rows
  let opcode ← fetch p.opcodes row
  let dst ← e.truthSlot heap (p.truthSlots.getD row 0) rows
  let reasons ← e.reasonSlot heap (p.reasonSlots.getD row 0) rows
  match opcode with
  | .boolean =>
    let value ← programPredicateValue p (p.values.getD row 0) .boolean
    let truth ← dst.set value.boolean rows
    return e.setLeaf p row rows ⟨truth, List.replicate reasons.length 0#64⟩
  | .defined => return e.setLeaf p row rows (← evalPredicate dst reasons batch p (row + 1))
  | .equal | .notEqual | .in | .exists | .less | .lessEqual | .greater | .greaterEqual =>
    executePredicate k heap e addr row batch mode dst reasons
  | .evidence =>
    return e.setLeaf p row rows
      (← evalEvidenceValidated dst reasons batch heap addr e.states (p.evidencePredicate row))
  | .all | .any =>
    let e ← reduceTruthGroup k heap e p row opcode rows mode
    reduceReasonGroup k heap e p row rows mode
  | .not => executeNot heap e p row rows dst
  | .invalid => .error "eval: invalid execution opcode"

-- Runs a range of the instructions. A panic leaves the scratch as the last completed instruction
-- left it.
def executeRows (k : Kernels) (heap : Heap) (addr : Nat) (batch : Batch) (mode : ExecutionMode) :
    List Nat → Executor → Executor × Except Panic Unit
  | [], e => (e, .ok ())
  | row :: rows, e =>
    match executeInstructionMode k heap e addr batch mode row with
    | .ok e => executeRows k heap addr batch mode rows e
    | .error f => (e, .error f)

def executeScheduleMode (k : Kernels) (heap : Heap) (e : Executor) (addr : Nat) (batch : Batch)
    (mode : ExecutionMode) : Executor × Except Panic Unit :=
  executeRows k heap addr batch mode (List.range (heap addr).opcodes.length) e

end Executor
end NornRune
