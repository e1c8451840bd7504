import NornRune.Execution.Finalize

open Bitplane

namespace NornRune

def executorRootFlags : RootFlags :=
  RootFlags.applicability ||| RootFlags.assertion ||| RootFlags.evidence

def optionalExecutionColumn (length rows : Nat) : Bool :=
  length == 0 || length == rows

def validOperandCount (opcode : Opcode) (count : Nat) : Bool :=
  match opcode with
  | .all | .any => decide (2 ≤ count)
  | .not => count == 1
  | _ => count == 0

def validExecutionInstruction (p : Program) (row : Nat) : Bool :=
  let opcode := p.opcodes.getD row .invalid
  let truthSlot := p.truthSlots.getD row 0
  let reasonSlot := p.reasonSlots.getD row 0
  let start := p.operandStarts.getD row 0
  let count := p.operandCounts.getD row 0
  opcode.valid && p.rootFlags.getD row 0#8 &&& ~~~executorRootFlags == 0#8 &&
  truthSlot != 0 && decide (truthSlot ≤ p.truthSlotCount) &&
  reasonSlot != 0 && decide (reasonSlot ≤ p.reasonSlotCount) &&
  p.instructionNodes.getD row 0 != 0 &&
  decide (p.instructionSourceStarts.getD row 0 ≤ p.instructionSourceEnds.getD row 0) &&
  decide (start + count ≤ p.operands.length) && validOperandCount opcode count &&
  (p.operandsOf row).all fun operand => operand != 0 && decide (operand < row + 1)

def validExecutionSchedule (p : Program) : Bool :=
  let n := p.opcodes.length
  n != 0 && decide (n ≤ maxUint32) &&
  p.fields.length == n && p.values.length == n && p.listStarts.length == n &&
  p.listCounts.length == n && p.operandStarts.length == n && p.operandCounts.length == n &&
  p.evidenceKinds.length == n && p.evidenceStates.length == n &&
  optionalExecutionColumn p.evidenceSubjects.length n &&
  optionalExecutionColumn p.evidenceScopes.length n &&
  optionalExecutionColumn p.evidenceTimings.length n &&
  p.rootFlags.length == n && p.truthSlots.length == n && p.reasonSlots.length == n &&
  p.instructionNodes.length == n && p.instructionSourceStarts.length == n &&
  p.instructionSourceEnds.length == n && p.truthSlotCount != 0 && p.reasonSlotCount != 0 &&
  (List.range n).all (validExecutionInstruction p)

def validExecutionRoot (p : Program) (root : Nat) (flag : RootFlags) : Bool :=
  root != 0 && decide (root ≤ p.opcodes.length) && RootFlags.has (p.rootFlags.getD (root - 1) 0#8) flag

def validExecutionRequirement (p : Program) (row : Nat) : Bool :=
  let start := p.requirementClauseStarts.getD row 0
  let count := p.requirementClauseCounts.getD row 0
  p.requirementIDs.getD row 0 != 0 && p.requirementSourceNodeIDs.getD row 0 != 0 &&
  validExecutionRoot p (p.requirementRoots.getD row 0) RootFlags.applicability &&
  count != 0 && decide (start + count ≤ p.requirementClauseIDs.length) &&
  (Region.read p.requirementClauseIDs start count).all fun clause =>
    clause != 0 && decide (clause ≤ p.clauseAssertionRoots.length)

def validExecutionClause (p : Program) (row : Nat) : Bool :=
  let start := p.clauseEvidenceStarts.getD row 0
  let count := p.clauseEvidenceCounts.getD row 0
  p.clauseAssertionSourceNodeIDs.getD row 0 != 0 &&
  validExecutionRoot p (p.clauseAssertionRoots.getD row 0) RootFlags.assertion &&
  decide (start + count ≤ p.clauseEvidenceIDs.length) &&
  (p.clauseEvidence row).all (fun (evidence, node) =>
    node != 0 && validExecutionRoot p evidence RootFlags.evidence) &&
  (Region.read p.clauseExplanationIDs (row * clauseExplanationBranchCount)
    clauseExplanationBranchCount).all (fun id => (p.explanations.lookup id).isSome) &&
  (p.outcomes.lookup (p.clauseOnSatisfied.getD row 0)).isSome &&
  (p.outcomes.lookup (p.clauseOnFalse.getD row 0)).isSome &&
  decide (p.clauseRemediationStarts.getD row 0 + p.clauseRemediationCounts.getD row 0 ≤
    p.clauseRemediationIDs.length)

def validExecutionTables (p : Program) : Bool :=
  let requirements := p.requirementIDs.length
  let clauses := p.clauseAssertionRoots.length
  let resolutionRows := clauses * reasonCount
  requirements != 0 && clauses != 0 && decide (requirements ≤ maxUint32) &&
  decide (clauses ≤ maxUint32) && p.applicabilityIndex.requirementCount == requirements &&
  p.requirementRoots.length == requirements &&
  p.requirementSourceNodeIDs.length == requirements &&
  p.requirementClauseStarts.length == requirements &&
  p.requirementClauseCounts.length == requirements && p.clauseEvidenceStarts.length == clauses &&
  p.clauseEvidenceCounts.length == clauses && p.clauseOnSatisfied.length == clauses &&
  p.clauseOnFalse.length == clauses && p.clauseAssertionSourceNodeIDs.length == clauses &&
  p.clauseEvidenceSourceNodeIDs.length == p.clauseEvidenceIDs.length &&
  p.clauseExplanationIDs.length == clauses * clauseExplanationBranchCount &&
  p.resolutions.outcomeIDs.length == resolutionRows &&
  p.resolutions.explanationIDs.length == resolutionRows &&
  p.clauseRemediationStarts.length == clauses && p.clauseRemediationCounts.length == clauses

def validExecutionSelector (p : Program) (field : Nat) : Bool :=
  match p.fieldIndex.lookup field with
  | some (kind, column) => kind == .symbol && decide (column < p.fieldIndex.counts .symbol)
  | none => false

def validExecutionSemantics (p : Program) : Bool :=
  validExecutionSchedule p && p.factIndexSpec.valid p.fieldIndex p.programSymbolCount &&
  validFactIndexQueries p && validExecutionTables p &&
  p.resolutions.explanationIDs.all (fun id => (p.explanations.lookup id).isSome) &&
  p.evidenceStateNames.all (fun name => (p.symbol name).isSome) &&
  p.applicabilityIndex.fieldIDs.all (validExecutionSelector p) &&
  (List.range p.requirementIDs.length).all (validExecutionRequirement p) &&
  (List.range p.clauseAssertionRoots.length).all (validExecutionClause p)

def validExecutionColumnLength (length columns stride : Nat) : Bool :=
  (columns == 0 || decide (stride ≤ maxUint64 / columns)) && length == columns * stride

def validExecutionBatchColumns (p : Program) (batch : Batch) : Bool :=
  let words := batch.sourceWords
  let rows := batch.sourceRows
  let counts := p.fieldIndex.counts
  batch.validPhysicalRange &&
  validExecutionColumnLength batch.presenceMasks.length p.fieldIndex.kinds.length words &&
  validExecutionColumnLength batch.symbolValues.length (counts .symbol) rows &&
  validExecutionColumnLength batch.integerValues.length (counts .integer) rows &&
  validExecutionColumnLength batch.timestampValues.length (counts .timestamp) rows &&
  validExecutionColumnLength batch.booleanValues.length (counts .boolean) words

def executorScratchLen (a b c : Nat) : Option Nat :=
  if a ≠ 0 ∧ maxUint64 / a < b then none
  else if a * b ≠ 0 ∧ maxUint64 / (a * b) < c then none
  else if maxInt / 8 < a * b * c then none
  else some (a * b * c)

def executorResultLen (rows perRow elementBytes : Nat) : Option Nat :=
  let n := rows * perRow
  if rows ≠ 0 ∧ maxUint64 / rows < perRow then none
  else if maxUint32 < n ∨ maxInt / elementBytes < n then none
  else some n

def maxExecutionRemediations (p : Program) : Nat :=
  (p.clauseRemediationCounts ++ p.resolutions.remediationCounts).foldl max 0

structure ExecutionSizes where
  truthLen : Nat
  reasonLen : Nat

def validResultSizes (p : Program) (batch : Batch) : Bool :=
  (executorResultLen batch.rows p.requirementIDs.length 4).isSome &&
  (executorResultLen batch.rows 1 4).isSome &&
  (executorResultLen batch.rows reasonCount 4).isSome &&
  (executorResultLen batch.rows (maxExecutionRemediations p) 4).isSome &&
  (!p.usesEvidence || (executorResultLen 1 batch.evidenceRefs.length 4).isSome)

-- The checks that are made before anything is changed. The semantics of a program are only checked
-- when it is not the program that was executed last.
@[irreducible]
def checkExecution (rebind : Bool) (p : Program) (batch : Batch) : Except Fault ExecutionSizes :=
  if rebind && !validExecutionSemantics p then .error .invalidProgram
  else if batch.requestIDs.length ≠ batch.rows ∨ !validExecutionBatchColumns p batch then
    .error .invalidProgram
  else if p.usesEvidence && !validEvidenceBatch batch p then .error .invalidProgram
  else match executorScratchLen p.truthSlotCount 2 (wordCount batch.rows),
      executorScratchLen p.reasonSlotCount reasonCount (wordCount batch.rows) with
    | some truthLen, some reasonLen =>
      if validResultSizes p batch then .ok ⟨truthLen, reasonLen⟩ else .error .batchTooLarge
    | _, _ => .error .batchTooLarge

namespace Executor

def bindQuery (e : Executor) (heap : Heap) (addr : Nat) : Option Executor :=
  if e.query = some addr then some e
  else if (heap addr).applicabilityIndex.validBoundPolicy then some { e with query := some addr }
  else none

-- Binds the query and then the evidence states. The query stays bound if the states fail to bind.
def bind (e : Executor) (heap : Heap) (addr : Nat) : Executor × Except Fault Unit :=
  match e.bindQuery heap addr with
  | none => (e, .error .invalidProgram)
  | some e =>
    match e.states.bind heap addr with
    | none => (e, .error .invalidProgram)
    | some states => ({ e with states }, .ok ())

def symbolColumns (p : Program) (batch : Batch) : SymbolColumns where
  values := batch.symbolValues
  rows := batch.rows
  count := p.fieldIndex.counts .symbol
  programSymbolCount := p.programSymbolCount
  rowOffset := batch.rowBase
  rowStride := batch.sourceRows

def buildFactIndex (e : Executor) (heap : Heap) (addr : Nat) (batch : Batch) (mode : ExecutionMode) :
    Executor × Except Fault Unit :=
  let p := heap addr
  if !useFactIndex mode batch.rows || p.factIndexSpec.fieldIDs.length == 0 then
    ({ e with factIndex := e.factIndex.reset }, .ok ())
  else match e.factBuilder.build heap addr (symbolColumns p batch) with
    | .ok (factBuilder, factIndex) => ({ e with factBuilder, factIndex }, .ok ())
    | .error .indexTooLarge => (e, .error .batchTooLarge)
    | .error _ => (e, .error .invalidProgram)

def resizeScratch (e : Executor) (p : Program) (addr : Nat) (sizes : ExecutionSizes) : Executor :=
  { e with
    truthWords := e.truthWords.resize 0#64 sizes.truthLen
    reasonWords := e.reasonWords.resize 0#64 sizes.reasonLen
    program := some addr
    candidateWords := e.candidateWords.resize 0#64 p.applicabilityIndex.wordCount
    selectorValues := e.selectorValues.resize 0 p.applicabilityIndex.fieldIDs.length
    selectorPresent := e.selectorPresent.resize false p.applicabilityIndex.fieldIDs.length
  }

def prepareExecution (heap : Heap) (e : Executor) (dst : ResultBatch) (addr : Nat) (batch : Batch)
    (mode : ExecutionMode) : Executor × ResultBatch × Except Fault Unit :=
  let p := heap addr
  let rebind := e.program != some addr
  match checkExecution rebind p batch with
  | .error f => (e, dst, .error f)
  | .ok sizes =>
    match if rebind then e.bind heap addr else (e, .ok ()) with
    | (e, .error f) => (e, dst, .error f)
    | (e, .ok ()) =>
      match e.buildFactIndex heap addr batch mode with
      | (e, .error f) => (e, dst, .error f)
      | (e, .ok ()) =>
        let e := e.resizeScratch p addr sizes
        match dst.reset batch.rows with
        | none => (e, dst, .error .batchTooLarge)
        | some dst => (e, dst, .ok ())

def executeMode (k : Kernels) (heap : Heap) (e : Executor) (dst : ResultBatch) (addr : Nat)
    (batch : Batch) (mode : ExecutionMode) : Executor × ResultBatch × Except Fault Unit :=
  match prepareExecution heap e dst addr batch mode with
  | (e, dst, .error f) => (e, dst, .error f)
  | (e, dst, .ok ()) =>
    match executeScheduleMode k heap e addr batch mode with
    | (e, .error text) => (e, dst, .error (.panic text))
    | (e, .ok ()) =>
      match finalizeResults heap e dst addr batch with
      | .error text => (e, dst, .error (.panic text))
      | .ok (e, dst) => (e, dst, .ok ())

def execute (k : Kernels) (heap : Heap) (e : Executor) (dst : ResultBatch) (addr : Nat)
    (batch : Batch) : Executor × ResultBatch × Except Fault Unit :=
  executeMode k heap e dst addr batch .auto

-- The rows from `start` up to but excluding `stop` as a batch of their own. The offsets of the
-- evidence are moved to start at zero.
def rangeView (p : Program) (batch : Batch) (start stop : Nat) (scratch : List Nat) :
    Option Batch :=
  if batch.rowStride ≠ 0 ∨ batch.rowBase ≠ 0 ∨ stop < start ∨ batch.rows < stop ∨ start % 64 ≠ 0 ∨
      (stop % 64 ≠ 0 ∧ stop ≠ batch.rows) then none
  else if maxInt < stop - start + 1 ∨ scratch.length ≠ stop - start + 1 ∨
      batch.requestIDs.length ≠ batch.rows then none
  else
    let view : Batch := { batch with
      rows := stop - start
      rowBase := start
      rowStride := batch.rows
      requestIDs := Region.read batch.requestIDs start (stop - start)
    }
    if p.usesEvidence then
      let base := batch.evidenceOffsets.getD start 0
      let limit := batch.evidenceOffsets.getD stop 0
      let offset row := batch.evidenceOffsets.getD (start + row) 0
      if batch.evidenceOffsets.length ≠ batch.rows + 1 ∨ limit < base ∨
          batch.evidenceRefs.length < limit then none
      else if !(List.range (stop - start + 1)).all (fun row =>
          decide ((if row = 0 then base else offset (row - 1)) ≤ offset row) &&
          decide (offset row ≤ limit)) then none
      else some { view with
        evidenceOffsets := (List.range (stop - start + 1)).map fun row => offset row - base
        evidenceRefs := Region.read batch.evidenceRefs base (limit - base)
      }
    else some { view with
      evidenceOffsets := List.replicate (stop - start + 1) 0
      evidenceRefs := []
    }

def executeRangeMode (k : Kernels) (heap : Heap) (e : Executor) (dst : ResultBatch) (addr : Nat)
    (batch : Batch) (start stop : Nat) (scratch : List Nat) (mode : ExecutionMode) :
    Executor × ResultBatch × Except Fault Unit :=
  match rangeView (heap addr) batch start stop scratch with
  | none => (e, dst, .error .invalidProgram)
  | some view => executeMode k heap e dst addr view mode

def executeRange (k : Kernels) (heap : Heap) (e : Executor) (dst : ResultBatch) (addr : Nat)
    (batch : Batch) (start stop : Nat) (scratch : List Nat) :
    Executor × ResultBatch × Except Fault Unit :=
  executeRangeMode k heap e dst addr batch start stop scratch .auto

end Executor
end NornRune
