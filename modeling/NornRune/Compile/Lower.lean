import NornRune.Compile.Index

namespace NornRune

theorem ResultTables.new_of_validateResultTables {t : ResultTables} {r : Resolver}
    (h : t.validateResultTables = .ok r) :
    Resolver.new t.outcomes t.remediations t.resolutions = .ok r := by
  have ⟨_, _, h⟩ := Checked.of_bind h
  have ⟨_, _, h⟩ := Checked.of_bind h
  have ⟨r', hr, h⟩ := Checked.of_bind h
  have : r' = r := by
    repeat' split at h
    all_goals cases h
    rfl
  rw [hr, this]

def rangeStarts (ranges : List (List Nat)) : List Nat :=
  List.zipWith (fun start range => if range = [] then 0 else start) (Ragged.starts ranges) ranges

-- The program that the stages of lowering have put together. Its columns are frozen, which only
-- succeeds if the tables of results are valid.
def freeze (c : Constants) (t : ScheduledTable) (s : Semantics) (slots : Slots) (indexes : Indexes) :
    Except CompileError Program :=
  match hr : s.tables.validateResultTables with
  | .error _ => .error .invalidGeneratedProgram
  | .ok resolver => .ok {
    opcodes := t.rows.map (·.opcode)
    fields := t.rows.map (·.field)
    values := t.rows.map (·.value)
    listStarts := rangeStarts (t.rows.map (·.list))
    listCounts := t.rows.map (·.list.length)
    operandStarts := rangeStarts (t.rows.map (·.operands))
    operandCounts := t.rows.map (·.operands.length)
    evidenceKinds := t.rows.map (·.evidenceKind)
    evidenceStates := t.rows.map (·.evidenceState)
    evidenceSubjects := t.rows.map (·.evidenceSubject)
    evidenceScopes := t.rows.map (·.evidenceScope)
    evidenceTimings := t.rows.map (·.evidenceTiming)
    rootFlags := t.rows.map (·.rootFlags)
    truthSlots := slots.truthSlots
    reasonSlots := slots.reasonSlots
    instructionNodes := t.rows.map (·.node)
    instructionSourceStarts := t.rows.map (·.span.start)
    instructionSourceEnds := t.rows.map (·.span.stop)
    listValues := t.rows.flatMap (·.list)
    operands := t.rows.flatMap (·.operands)
    opcodeRunOpcodes := t.runs.map (·.opcode)
    opcodeRunStarts := t.runs.map (·.start)
    opcodeRunCounts := t.runs.map (·.count)
    nodeInstructionStarts := Ragged.starts t.nodeMap
    nodeInstructionCounts := t.nodeMap.map List.length
    nodeInstructionIDs := t.nodeMap.flatten
    symbolBytes := c.symbols.bytes
    symbolStarts := c.symbols.starts
    symbolLengths := c.symbols.lengths
    symbolHashes := c.symbolHashes
    symbolIDs := c.symbolIDs
    valueKinds := c.values.kinds
    valueRefs := c.values.refs
    integerValues := c.values.integers
    booleanValues := c.values.booleans
    timestampValues := c.values.timestamps
    fieldNames := c.fieldNames
    fieldKinds := c.fieldKinds
    fieldGroups := c.fieldGroups
    evidenceKindNames := c.evidenceKindNames
    evidenceStateNames := c.evidenceStateNames
    requirementIDs := s.requirementIDs
    requirementRoots := s.requirementRoots
    requirementSourceNodeIDs := s.requirementSourceNodeIDs
    requirementClauseStarts := s.requirementClauseStarts
    requirementClauseCounts := s.requirementClauseCounts
    requirementClauseIDs := s.requirementClauseIDs
    clauseAssertionRoots := s.clauseAssertionRoots
    clauseAssertionSourceNodeIDs := s.clauseAssertionSourceNodeIDs
    clauseEvidenceStarts := s.clauseEvidenceStarts
    clauseEvidenceCounts := s.clauseEvidenceCounts
    clauseEvidenceIDs := s.clauseEvidenceIDs
    clauseEvidenceSourceNodeIDs := s.clauseEvidenceSourceNodeIDs
    clauseOnSatisfied := s.clauseOnSatisfied
    clauseOnFalse := s.clauseOnFalse
    clauseExplanationIDs := s.clauseExplanationIDs
    clauseRemediationStarts := s.clauseRemediationStarts
    clauseRemediationCounts := s.clauseRemediationCounts
    clauseRemediationIDs := s.clauseRemediationIDs
    templates := s.tables.templates
    explanations := s.tables.explanations
    evidenceIssueNodeIDs := s.tables.evidenceIssueNodeIDs
    evidenceIssueTemplateIDs := s.tables.evidenceIssueTemplateIDs
    outcomes := s.tables.outcomes
    remediations := s.tables.remediations
    resolutions := s.tables.resolutions
    resolver
    applicabilityIndex := indexes.applicabilityIndex
    factIndexSpec := indexes.factIndexSpec
    fieldIndex := indexes.fieldIndex
    policyName := c.policyName
    policyVersion := c.policyVersion
    programSymbolCount := c.programSymbolCount
    truthSlotCount := slots.truthSlotCount
    reasonSlotCount := slots.reasonSlotCount
    programSymbolCount_le := Nat.le_of_lt c.symbols_lt
    resolver_eq := .inr (s.tables.new_of_validateResultTables hr)
  }

def lower (doc : Document) (fields : Schema) (symbols : Interner) : Except CompileError Program :=
  if doc.validate fields ≠ [] then .error .invalidDocument
  else if doc.requirementIDs.length = 0 ∨ doc.clauseAssertionRoots.length = 0 then
    .error .emptyPolicy
  else do
    let c ← lowerConstants doc fields symbols
    let t ← lowerCandidates c.toValueWalk doc
    let t ← scheduleInstructions t
    let s ← lowerSemantics c t.toInstructionTable doc
    let slots ← assignSlots t.toInstructionTable
    let indexes ← lowerIndexes c t.toInstructionTable s.requirementRoots
    freeze c t s slots indexes

end NornRune
