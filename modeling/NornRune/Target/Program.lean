import NornRune.Objects.Program
import NornRune.Target.Leaf

-- The leaves of compiled programs.
namespace NornRune

-- The values of an enumeration, in the order of the numbers that stand for them.

def ValueKind.codes : List ValueKind :=
  [.invalid, .symbol, .integer, .boolean, .timestamp, .presence]

def FieldGroup.codes : List FieldGroup :=
  [.invalid, .subject, .action, .resource, .output, .context]

def RemediationKind.codes : List RemediationKind :=
  [.invalid, .setField, .addEvidence]

def TemplateOp.codes : List TemplateOp :=
  [.invalid, .literal, .policyName, .policyVersion, .requestID, .outcome, .requirementID, .clauseID,
    .nodeID, .reason, .evidenceKind, .evidenceState, .requiredEvidenceState, .evidenceID]

def Opcode.codes : List Opcode :=
  [.invalid, .equal, .notEqual, .in, .exists, .less, .lessEqual, .greater, .greaterEqual, .evidence,
    .all, .any, .not, .boolean, .defined]

namespace Scalar

def valueKind : Scalar ValueKind := enumeration ValueKind.codes .invalid (by decide)
def fieldGroup : Scalar FieldGroup := enumeration FieldGroup.codes .invalid (by decide)
def remediationKind : Scalar RemediationKind := enumeration RemediationKind.codes .invalid (by decide)
def templateOp : Scalar TemplateOp := enumeration TemplateOp.codes .invalid (by decide)
def opcode : Scalar Opcode := enumeration Opcode.codes .invalid (by decide)

end Scalar

def TemplateTable.leaves : List (ProgramLeaf TemplateTable) := [
    .column .byte (·.literalBytes) fun xs t => { t with literalBytes := xs },
    .column .uint32 (·.opStarts) fun xs t => { t with opStarts := xs },
    .column .uint16 (·.opCounts) fun xs t => { t with opCounts := xs },
    .column .uint32 (·.literalStarts) fun xs t => { t with literalStarts := xs },
    .column .uint32 (·.maxBytes) fun xs t => { t with maxBytes := xs },
    .column .templateOp (·.ops) fun xs t => { t with ops := xs },
    .column .uint32 (·.args) fun xs t => { t with args := xs }
  ]

def ExplanationTable.leaves : List (ProgramLeaf ExplanationTable) := [
    .column .uint32 (·.rationaleTemplateIDs) fun xs t => { t with rationaleTemplateIDs := xs },
    .column .uint32 (·.uncertaintyStarts) fun xs t => { t with uncertaintyStarts := xs },
    .column .uint16 (·.uncertaintyCounts) fun xs t => { t with uncertaintyCounts := xs },
    .column .uint32 (·.uncertaintyTemplateIDs) fun xs t => { t with uncertaintyTemplateIDs := xs },
    .column .uint32 (·.assumptionTemplateIDs) fun xs t => { t with assumptionTemplateIDs := xs }
  ]

def OutcomeTable.leaves : List (ProgramLeaf OutcomeTable) := [
    .column .uint32 (·.names) fun xs t => { t with names := xs },
    .column .uint8 (·.precedence) fun xs t => { t with precedence := xs },
    .column .bool (·.terminal) fun xs t => { t with terminal := xs }
  ]

def RemediationTable.leaves : List (ProgramLeaf RemediationTable) := [
    .column .remediationKind (·.kinds) fun xs t => { t with kinds := xs },
    .column .uint32 (·.fields) fun xs t => { t with fields := xs },
    .column .uint32 (·.values) fun xs t => { t with values := xs },
    .column .uint32 (·.evidenceKinds) fun xs t => { t with evidenceKinds := xs }
  ]

def ResolutionTable.leaves : List (ProgramLeaf ResolutionTable) := [
    .column .uint32 (·.outcomeIDs) fun xs t => { t with outcomeIDs := xs },
    .column .uint32 (·.explanationIDs) fun xs t => { t with explanationIDs := xs },
    .column .uint32 (·.remediationStarts) fun xs t => { t with remediationStarts := xs },
    .column .uint16 (·.remediationCounts) fun xs t => { t with remediationCounts := xs },
    .column .uint32 (·.remediationIDs) fun xs t => { t with remediationIDs := xs }
  ]

def Policy.leaves : List (ProgramLeaf Policy) := [
    .column .uint32 (·.fieldIDs) fun xs p => { p with fieldIDs := xs },
    .column .uint32 (·.fieldValueStarts) fun xs p => { p with fieldValueStarts := xs },
    .column .uint32 (·.fieldValueCounts) fun xs p => { p with fieldValueCounts := xs },
    .column .word64 (·.wildcardMasks) fun xs p => { p with wildcardMasks := xs },
    .column .uint32 (·.values) fun xs p => { p with values := xs },
    .column .word64 (·.valueMasks) fun xs p => { p with valueMasks := xs },
    .column .word64 (·.allMask) fun xs p => { p with allMask := xs },
    .scalar .uint32 (·.requirementCount) fun n => some fun p => { p with requirementCount := n },
    .scalar .uint32 (·.wordCount) fun n => some fun p => { p with wordCount := n }
  ]

def FactSpec.leaves : List (ProgramLeaf FactSpec) := [
    .column .uint32 (·.fieldIDs) fun xs s => { s with fieldIDs := xs },
    .column .uint32 (·.columns) fun xs s => { s with columns := xs },
    .column .uint32 (·.valueStarts) fun xs s => { s with valueStarts := xs },
    .column .uint32 (·.valueCounts) fun xs s => { s with valueCounts := xs },
    .column .uint32 (·.useCounts) fun xs s => { s with useCounts := xs },
    .column .uint32 (·.values) fun xs s => { s with values := xs }
  ]

def FieldIndex.leaves : List (ProgramLeaf FieldIndex) := [
    .slice .valueKind (·.kinds) fun xs =>
      if h : xs.length ≤ maxUint32 then some fun s => { s with kinds := xs, kinds_le := h } else none,
    .column .uint32 (·.columns) fun xs s => { s with columns := xs },
    .array .uint32 6 (fun s => ValueKind.codes.map s.counts)
      (fun xs => some fun s => { s with counts := fun kind => xs.getD (ValueKind.codes.idxOf kind) 0 })
      fun _ => rfl
  ]

namespace Program

def withTables (p : Program) (outcomes : OutcomeTable) (remediations : RemediationTable)
    (resolutions : ResolutionTable) : Program :=
  { p with outcomes, remediations, resolutions, resolver := .zero, resolver_eq := .inl rfl }

def instructionLeaves : List (ProgramLeaf Program) := [
    .column .opcode (·.opcodes) fun xs p => { p with opcodes := xs },
    .column .uint32 (·.fields) fun xs p => { p with fields := xs },
    .column .uint32 (·.values) fun xs p => { p with values := xs },
    .column .uint32 (·.listStarts) fun xs p => { p with listStarts := xs },
    .column .uint16 (·.listCounts) fun xs p => { p with listCounts := xs },
    .column .uint32 (·.operandStarts) fun xs p => { p with operandStarts := xs },
    .column .uint16 (·.operandCounts) fun xs p => { p with operandCounts := xs },
    .column .uint32 (·.evidenceKinds) fun xs p => { p with evidenceKinds := xs },
    .column .uint32 (·.evidenceStates) fun xs p => { p with evidenceStates := xs },
    .column .uint32 (·.evidenceSubjects) fun xs p => { p with evidenceSubjects := xs },
    .column .uint32 (·.evidenceScopes) fun xs p => { p with evidenceScopes := xs },
    .column .uint32 (·.evidenceTimings) fun xs p => { p with evidenceTimings := xs },
    .column .byte (·.rootFlags) fun xs p => { p with rootFlags := xs },
    .column .uint32 (·.truthSlots) fun xs p => { p with truthSlots := xs },
    .column .uint32 (·.reasonSlots) fun xs p => { p with reasonSlots := xs },
    .column .uint32 (·.instructionNodes) fun xs p => { p with instructionNodes := xs },
    .column .uint32 (·.instructionSourceStarts) fun xs p => { p with instructionSourceStarts := xs },
    .column .uint32 (·.instructionSourceEnds) fun xs p => { p with instructionSourceEnds := xs },
    .column .uint32 (·.listValues) fun xs p => { p with listValues := xs },
    .column .uint32 (·.operands) fun xs p => { p with operands := xs },
    .column .opcode (·.opcodeRunOpcodes) fun xs p => { p with opcodeRunOpcodes := xs },
    .column .uint32 (·.opcodeRunStarts) fun xs p => { p with opcodeRunStarts := xs },
    .column .uint32 (·.opcodeRunCounts) fun xs p => { p with opcodeRunCounts := xs },
    .column .uint32 (·.nodeInstructionStarts) fun xs p => { p with nodeInstructionStarts := xs },
    .column .uint16 (·.nodeInstructionCounts) fun xs p => { p with nodeInstructionCounts := xs },
    .column .uint32 (·.nodeInstructionIDs) fun xs p => { p with nodeInstructionIDs := xs }
  ]

def constantLeaves : List (ProgramLeaf Program) := [
    .column .byte (·.symbolBytes) fun xs p => { p with symbolBytes := xs },
    .column .uint32 (·.symbolStarts) fun xs p => { p with symbolStarts := xs },
    .column .uint32 (·.symbolLengths) fun xs p => { p with symbolLengths := xs },
    .column .word64 (·.symbolHashes) fun xs p => { p with symbolHashes := xs },
    .column .uint32 (·.symbolIDs) fun xs p => { p with symbolIDs := xs },
    .column .valueKind (·.valueKinds) fun xs p => { p with valueKinds := xs },
    .column .uint32 (·.valueRefs) fun xs p => { p with valueRefs := xs },
    .column .int64 (·.integerValues) fun xs p => { p with integerValues := xs },
    .column .uint64 (·.booleanValues) fun xs p => { p with booleanValues := xs },
    .column .int64 (·.timestampValues) fun xs p => { p with timestampValues := xs }
  ]

def issueLeaves : List (ProgramLeaf Program) := [
    .column .uint32 (·.evidenceIssueNodeIDs) fun xs p => { p with evidenceIssueNodeIDs := xs },
    .column .uint32 (·.evidenceIssueTemplateIDs) fun xs p =>
      { p with evidenceIssueTemplateIDs := xs }
  ]

def catalogLeaves : List (ProgramLeaf Program) := [
    .column .uint32 (·.fieldNames) fun xs p => { p with fieldNames := xs },
    .column .valueKind (·.fieldKinds) fun xs p => { p with fieldKinds := xs },
    .column .fieldGroup (·.fieldGroups) fun xs p => { p with fieldGroups := xs },
    .column .uint32 (·.evidenceKindNames) fun xs p => { p with evidenceKindNames := xs },
    .column .uint32 (·.evidenceStateNames) fun xs p => { p with evidenceStateNames := xs }
  ]

def requirementLeaves : List (ProgramLeaf Program) := [
    .column .uint32 (·.requirementIDs) fun xs p => { p with requirementIDs := xs },
    .column .uint32 (·.requirementRoots) fun xs p => { p with requirementRoots := xs },
    .column .uint32 (·.requirementSourceNodeIDs) fun xs p =>
      { p with requirementSourceNodeIDs := xs },
    .column .uint32 (·.requirementClauseStarts) fun xs p => { p with requirementClauseStarts := xs },
    .column .uint16 (·.requirementClauseCounts) fun xs p => { p with requirementClauseCounts := xs },
    .column .uint32 (·.requirementClauseIDs) fun xs p => { p with requirementClauseIDs := xs }
  ]

def clauseLeaves : List (ProgramLeaf Program) := [
    .column .uint32 (·.clauseAssertionRoots) fun xs p => { p with clauseAssertionRoots := xs },
    .column .uint32 (·.clauseAssertionSourceNodeIDs) fun xs p =>
      { p with clauseAssertionSourceNodeIDs := xs },
    .column .uint32 (·.clauseEvidenceStarts) fun xs p => { p with clauseEvidenceStarts := xs },
    .column .uint16 (·.clauseEvidenceCounts) fun xs p => { p with clauseEvidenceCounts := xs },
    .column .uint32 (·.clauseEvidenceIDs) fun xs p => { p with clauseEvidenceIDs := xs },
    .column .uint32 (·.clauseEvidenceSourceNodeIDs) fun xs p =>
      { p with clauseEvidenceSourceNodeIDs := xs },
    .column .uint32 (·.clauseOnSatisfied) fun xs p => { p with clauseOnSatisfied := xs },
    .column .uint32 (·.clauseOnFalse) fun xs p => { p with clauseOnFalse := xs },
    .column .uint32 (·.clauseExplanationIDs) fun xs p => { p with clauseExplanationIDs := xs },
    .column .uint32 (·.clauseRemediationStarts) fun xs p => { p with clauseRemediationStarts := xs },
    .column .uint16 (·.clauseRemediationCounts) fun xs p => { p with clauseRemediationCounts := xs },
    .column .uint32 (·.clauseRemediationIDs) fun xs p => { p with clauseRemediationIDs := xs }
  ]

def explanationLeaves : List (ProgramLeaf Program) :=
  TemplateTable.leaves.map (·.lift templates fun f p => { p with templates := f p.templates }) ++
  ExplanationTable.leaves.map
    (·.lift explanations fun f p => { p with explanations := f p.explanations })

def updateOutcomes (f : OutcomeTable → OutcomeTable) (p : Program) : Program :=
  p.withTables (f p.outcomes) p.remediations p.resolutions

def updateRemediations (f : RemediationTable → RemediationTable) (p : Program) : Program :=
  p.withTables p.outcomes (f p.remediations) p.resolutions

def updateResolutions (f : ResolutionTable → ResolutionTable) (p : Program) : Program :=
  p.withTables p.outcomes p.remediations (f p.resolutions)

def tableLeaves : List (ProgramLeaf Program) :=
  OutcomeTable.leaves.map (·.lift outcomes updateOutcomes) ++
  RemediationTable.leaves.map (·.lift remediations updateRemediations) ++
  ResolutionTable.leaves.map (·.lift resolutions updateResolutions)

def indexLeaves : List (ProgramLeaf Program) :=
  Policy.leaves.map
    (·.lift applicabilityIndex fun f p => { p with applicabilityIndex := f p.applicabilityIndex }) ++
  FactSpec.leaves.map (·.lift factIndexSpec fun f p => { p with factIndexSpec := f p.factIndexSpec }) ++
  FieldIndex.leaves.map (·.lift fieldIndex fun f p => { p with fieldIndex := f p.fieldIndex })

def scalarLeaves : List (ProgramLeaf Program) := [
    .scalar .uint32 (·.policyName) fun n => some fun p => { p with policyName := n },
    .scalar .uint32 (·.policyVersion) fun n => some fun p => { p with policyVersion := n },
    .scalar .uint32 (·.programSymbolCount) fun n =>
      if h : n ≤ maxUint32 then
        some fun p => { p with programSymbolCount := n, programSymbolCount_le := h }
      else none,
    .scalar .uint32 (·.truthSlotCount) fun n => some fun p => { p with truthSlotCount := n },
    .scalar .uint32 (·.reasonSlotCount) fun n => some fun p => { p with reasonSlotCount := n }
  ]

end Program

-- A program with the columns that only lead back to its source, and the source itself.
structure ProgramFile where
  program : Program
  evidenceKindSourceStarts : List Nat
  evidenceKindSourceEnds : List Nat
  evidenceStateSourceStarts : List Nat
  evidenceStateSourceEnds : List Nat
  outcomeSourceStarts : List Nat
  outcomeSourceEnds : List Nat
  remediationSourceStarts : List Nat
  remediationSourceEnds : List Nat
  requirementSourceStarts : List Nat
  requirementSourceEnds : List Nat
  clauseSourceStarts : List Nat
  clauseSourceEnds : List Nat
  inputBytes : List Byte
  contentHash : List Byte
  contentHash_length : contentHash.length = 32

namespace ProgramFile

def part (leaf : ProgramLeaf Program) : ProgramLeaf ProgramFile :=
  leaf.lift (·.program) fun f file => { file with program := f file.program }

def catalogSpanLeaves : List (ProgramLeaf ProgramFile) := [
    .column .uint32 (·.evidenceKindSourceStarts) fun xs f =>
      { f with evidenceKindSourceStarts := xs },
    .column .uint32 (·.evidenceKindSourceEnds) fun xs f => { f with evidenceKindSourceEnds := xs },
    .column .uint32 (·.evidenceStateSourceStarts) fun xs f =>
      { f with evidenceStateSourceStarts := xs },
    .column .uint32 (·.evidenceStateSourceEnds) fun xs f =>
      { f with evidenceStateSourceEnds := xs },
    .column .uint32 (·.outcomeSourceStarts) fun xs f => { f with outcomeSourceStarts := xs },
    .column .uint32 (·.outcomeSourceEnds) fun xs f => { f with outcomeSourceEnds := xs },
    .column .uint32 (·.remediationSourceStarts) fun xs f =>
      { f with remediationSourceStarts := xs },
    .column .uint32 (·.remediationSourceEnds) fun xs f => { f with remediationSourceEnds := xs }
  ]

def requirementSpanLeaves : List (ProgramLeaf ProgramFile) := [
    .column .uint32 (·.requirementSourceStarts) fun xs f =>
      { f with requirementSourceStarts := xs },
    .column .uint32 (·.requirementSourceEnds) fun xs f => { f with requirementSourceEnds := xs }
  ]

def clauseSpanLeaves : List (ProgramLeaf ProgramFile) := [
    .column .uint32 (·.clauseSourceStarts) fun xs f => { f with clauseSourceStarts := xs },
    .column .uint32 (·.clauseSourceEnds) fun xs f => { f with clauseSourceEnds := xs }
  ]

def sourceLeaves : List (ProgramLeaf ProgramFile) := [
    .column .byte (·.inputBytes) fun xs f => { f with inputBytes := xs }
  ]

def hashLeaves : List (ProgramLeaf ProgramFile) := [
    .array .byte 32 (·.contentHash) (fun xs =>
      if h : xs.length = 32 then some fun f => { f with contentHash := xs, contentHash_length := h }
      else none) (·.contentHash_length)
  ]

def leaves : List (ProgramLeaf ProgramFile) :=
  (Program.instructionLeaves ++ Program.constantLeaves ++ Program.explanationLeaves ++
    Program.issueLeaves ++ Program.catalogLeaves).map part ++ catalogSpanLeaves ++
  Program.requirementLeaves.map part ++ requirementSpanLeaves ++
  Program.clauseLeaves.map part ++ clauseSpanLeaves ++
  Program.tableLeaves.map part ++ sourceLeaves ++ Program.indexLeaves.map part ++ hashLeaves ++
  Program.scalarLeaves.map part

def typed (f : ProgramFile) : Bool :=
  leaves.all (·.typed f)

end ProgramFile
end NornRune
