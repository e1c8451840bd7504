import NornRune.Compile.Slots

-- The third stage of lowering: outcomes, remediations, explanations, requirements and clauses.
namespace NornRune

def rootInstruction (t : InstructionTable) (sourceNodeCount node : Nat) : Except CompileError Nat :=
  if node = 0 ∨ sourceNodeCount ≤ node - 1 then .error .invalidDocument
  else match t.nodeMap[node - 1]? with
    | some [id] =>
      if id = 0 ∨ t.rows.length < id then .error .invalidGeneratedProgram else .ok id
    | _ => .error .invalidGeneratedProgram

def lowerOutcomes (w : ValueWalk) (doc : Document) : Except CompileError OutcomeTable :=
  let n := doc.outcomeNames.length
  if doc.outcomePrecedence.length ≠ n ∨ doc.outcomeTerminal.length ≠ n ∨
      doc.outcomeSourceStarts.length ≠ n ∨ doc.outcomeSourceEnds.length ≠ n then
    .error .invalidDocument
  else do
    return {
      names := ← doc.outcomeNames.mapM w.symbolForValue
      precedence := doc.outcomePrecedence
      terminal := doc.outcomeTerminal
    }

structure Remediation where
  kind : RemediationKind
  field : Nat
  value : Nat
  evidenceKind : Nat
  deriving DecidableEq, Repr

def lowerRemediation (w : ValueWalk) (doc : Document) (i : Nat) : Except CompileError Remediation :=
  let field := doc.remediationFields.getD i 0
  let value := doc.remediationValues.getD i 0
  let evidenceKind := doc.remediationEvidenceKinds.getD i 0
  match doc.remediationKinds.getD i .invalid with
  | .invalid => .error .invalidDocument
  | .setField =>
    match w.canonicalValue value with
    | .error _ => .error .invalidDocument
    | .ok value =>
      if field = 0 ∨ evidenceKind ≠ 0 then .error .invalidDocument
      else .ok ⟨.setField, field, value, 0⟩
  | .addEvidence =>
    if field ≠ 0 ∨ value ≠ 0 ∨ evidenceKind = 0 then .error .invalidDocument
    else .ok ⟨.addEvidence, 0, 0, evidenceKind⟩

def lowerRemediations (w : ValueWalk) (doc : Document) : Except CompileError RemediationTable :=
  let n := doc.remediationKinds.length
  if doc.remediationFields.length ≠ n ∨ doc.remediationValues.length ≠ n ∨
      doc.remediationEvidenceKinds.length ≠ n ∨ doc.remediationSourceStarts.length ≠ n ∨
      doc.remediationSourceEnds.length ≠ n then .error .invalidDocument
  else do
    let rows ← (List.range n).mapM (lowerRemediation w doc)
    return {
      kinds := rows.map (·.kind)
      fields := rows.map (·.field)
      values := rows.map (·.value)
      evidenceKinds := rows.map (·.evidenceKind)
    }

def maxNamespacedUint32Bytes : Nat := 11

namespace Constants

variable (c : Constants)

def programSymbolLength (id : Nat) : Option Nat :=
  match c.symbols.symbol id with
  | none => none
  | some b => if maxUint32 < b.length then none else some b.length

def maxProgramSymbolLength (ids : List Nat) : Option Nat :=
  if ids = [] then none
  else ids.foldlM (fun maximum id => (c.programSymbolLength id).map (max maximum)) 0

def templateOpMaximum (outcomes : OutcomeTable) (op : TemplateOp) (literal : Nat) : Option Nat :=
  match op with
  | .literal => if literal = 0 then none else some literal
  | .policyName => c.programSymbolLength c.policyName
  | .policyVersion => c.programSymbolLength c.policyVersion
  | .requestID | .requirementID | .clauseID | .nodeID | .evidenceID => some maxNamespacedUint32Bytes
  | .outcome => c.maxProgramSymbolLength outcomes.names
  | .reason => some "wrong_subject".length
  | .evidenceKind => c.maxProgramSymbolLength c.evidenceKindNames
  | .evidenceState | .requiredEvidenceState => c.maxProgramSymbolLength c.evidenceStateNames
  | .invalid => none

def addTemplateOp (outcomes : OutcomeTable) (doc : Document) (maximum i : Nat) :
    Except CompileError Nat :=
  match c.templateOpMaximum outcomes (doc.templateOps.getD i .invalid) (doc.templateArgs.getD i 0) with
  | none => .error .invalidGeneratedProgram
  | some value =>
    if maxRenderedTemplateBytes < maximum + value then .error .programTooLarge
    else .ok (maximum + value)

def lowerTemplateMaximum (outcomes : OutcomeTable) (doc : Document) (row : Nat) :
    Except CompileError Nat :=
  let start := doc.templateOpStarts.getD row 0
  let count := doc.templateOpCounts.getD row 0
  if maxTemplateOperations < count ∨ doc.templateOps.length < start + count then
    .error .invalidDocument
  else (List.range' start count).foldlM (c.addTemplateOp outcomes doc) 0

def lowerTemplates (outcomes : OutcomeTable) (doc : Document) : Except CompileError TemplateTable :=
  let rows := doc.templateOpStarts.length
  if doc.templateOpCounts.length ≠ rows ∨ doc.templateLiteralStarts.length ≠ rows ∨
      doc.templateMaxBytes.length ≠ rows ∨ doc.templateContexts.length ≠ rows ∨
      doc.templateOps.length ≠ doc.templateArgs.length then .error .invalidDocument
  else if !doc.templateOps.all TemplateOp.valid then .error .invalidDocument
  else do
    return {
      literalBytes := doc.templateBytes
      opStarts := doc.templateOpStarts
      opCounts := doc.templateOpCounts
      literalStarts := doc.templateLiteralStarts
      maxBytes := ← (List.range rows).mapM (c.lowerTemplateMaximum outcomes doc)
      ops := doc.templateOps
      args := doc.templateArgs
    }

end Constants

def lowerExplanations (doc : Document) : Except CompileError ExplanationTable :=
  let n := doc.explanationRationaleIDs.length
  if doc.explanationUncertaintyStarts.length ≠ n ∨ doc.explanationUncertaintyCounts.length ≠ n then
    .error .invalidDocument
  else .ok {
    rationaleTemplateIDs := doc.explanationRationaleIDs
    uncertaintyStarts := doc.explanationUncertaintyStarts
    uncertaintyCounts := doc.explanationUncertaintyCounts
    uncertaintyTemplateIDs := doc.explanationUncertaintyIDs
    assumptionTemplateIDs := doc.assumptionTemplateIDs
  }

def lowerEvidenceIssues (doc : Document) : Except CompileError (List Nat × List Nat) :=
  let evidenceRows := doc.evidenceKinds.length
  let nodes := (List.range doc.nodeKinds.length).filter fun i =>
    doc.nodeKinds.getD i .invalid == .evidence
  if evidenceRows * reasonCount ≠ doc.evidenceIssueTemplateIDs.length then .error .invalidDocument
  else if nodes.length ≠ evidenceRows ∨ !nodes.all (fun i =>
      decide (i < doc.nodeRefs.length) && decide (doc.nodeRefs.getD i 0 < evidenceRows)) then
    .error .invalidDocument
  else .ok (nodes.map (· + 1), nodes.flatMap fun i =>
    Region.read doc.evidenceIssueTemplateIDs (doc.nodeRefs.getD i 0 * reasonCount) reasonCount)

structure RequirementColumns where
  requirementIDs : List Nat
  requirementRoots : List Nat
  requirementSourceNodeIDs : List Nat
  requirementClauseStarts : List Nat
  requirementClauseCounts : List Nat
  requirementClauseIDs : List Nat

def lowerRequirementRoot (t : InstructionTable) (doc : Document) (i : Nat) : Except CompileError Nat :=
  if doc.requirementClauseIDs.length <
      doc.requirementClauseStarts.getD i 0 + doc.requirementClauseCounts.getD i 0 then
    .error .invalidDocument
  else rootInstruction t doc.nodeKinds.length (doc.requirementApplicabilityRoots.getD i 0)

def lowerRequirements (t : InstructionTable) (doc : Document) :
    Except CompileError RequirementColumns :=
  let n := doc.requirementIDs.length
  if doc.requirementApplicabilityRoots.length ≠ n ∨ doc.requirementClauseStarts.length ≠ n ∨
      doc.requirementClauseCounts.length ≠ n ∨ doc.requirementSourceStarts.length ≠ n ∨
      doc.requirementSourceEnds.length ≠ n then .error .invalidDocument
  else if !doc.requirementClauseIDs.all fun id =>
      id != 0 && decide (id ≤ doc.clauseAssertionRoots.length) then .error .invalidDocument
  else do
    return {
      requirementIDs := doc.requirementIDs
      requirementRoots := ← (List.range n).mapM (lowerRequirementRoot t doc)
      requirementSourceNodeIDs := doc.requirementApplicabilityRoots
      requirementClauseStarts := doc.requirementClauseStarts
      requirementClauseCounts := doc.requirementClauseCounts
      requirementClauseIDs := doc.requirementClauseIDs
    }

structure ClauseColumns where
  clauseAssertionRoots : List Nat
  clauseAssertionSourceNodeIDs : List Nat
  clauseEvidenceStarts : List Nat
  clauseEvidenceCounts : List Nat
  clauseEvidenceIDs : List Nat
  clauseEvidenceSourceNodeIDs : List Nat
  clauseOnSatisfied : List Nat
  clauseOnFalse : List Nat
  clauseExplanationIDs : List Nat
  clauseRemediationStarts : List Nat
  clauseRemediationCounts : List Nat
  clauseRemediationIDs : List Nat

structure ClauseWalk where
  assertions : List Nat
  evidence : List Nat
  sourceNodes : List Nat

def lowerClauseEvidence (t : InstructionTable) (doc : Document) (s : ClauseWalk) (edge : Nat) :
    Except CompileError ClauseWalk := do
  let sourceNode := doc.clauseEvidenceNodeIDs.getD edge 0
  let root ← rootInstruction t doc.nodeKinds.length sourceNode
  return { s with
    evidence := s.evidence.set edge root
    sourceNodes := s.sourceNodes.set edge sourceNode }

def lowerClause (t : InstructionTable) (doc : Document) (s : ClauseWalk) (i : Nat) :
    Except CompileError ClauseWalk := do
  let assertion ← rootInstruction t doc.nodeKinds.length (doc.clauseAssertionRoots.getD i 0)
  let start := doc.clauseEvidenceStarts.getD i 0
  let count := doc.clauseEvidenceCounts.getD i 0
  if doc.clauseEvidenceNodeIDs.length < start + count then .error .invalidDocument
  else do
    let s ← (List.range' start count).foldlM (lowerClauseEvidence t doc) s
    if doc.clauseRemediationIDs.length <
        doc.clauseRemediationStarts.getD i 0 + doc.clauseRemediationCounts.getD i 0 then
      .error .invalidDocument
    else .ok { s with assertions := s.assertions ++ [assertion] }

def lowerClauses (t : InstructionTable) (doc : Document) : Except CompileError ClauseColumns :=
  let n := doc.clauseAssertionRoots.length
  let edges := doc.clauseEvidenceNodeIDs.length
  if doc.clauseEvidenceStarts.length ≠ n ∨ doc.clauseEvidenceCounts.length ≠ n ∨
      doc.clauseRemediationStarts.length ≠ n ∨ doc.clauseRemediationCounts.length ≠ n ∨
      doc.clauseOnSatisfied.length ≠ n ∨ doc.clauseOnFalse.length ≠ n ∨
      doc.clauseOnMissing.length ≠ n ∨ doc.clauseOnStale.length ≠ n ∨
      doc.clauseOnUnclear.length ≠ n ∨ doc.clauseOnUnverifiable.length ≠ n ∨
      doc.clauseOnConflict.length ≠ n ∨
      doc.clauseExplanationIDs.length ≠ n * resolutionBranchCount ∨
      doc.clauseSourceStarts.length ≠ n ∨ doc.clauseSourceEnds.length ≠ n then .error .invalidDocument
  else do
    let s ← (List.range n).foldlM (lowerClause t doc)
      ⟨[], List.replicate edges 0, List.replicate edges 0⟩
    return {
      clauseAssertionRoots := s.assertions
      clauseAssertionSourceNodeIDs := doc.clauseAssertionRoots
      clauseEvidenceStarts := doc.clauseEvidenceStarts
      clauseEvidenceCounts := doc.clauseEvidenceCounts
      clauseEvidenceIDs := s.evidence
      clauseEvidenceSourceNodeIDs := s.sourceNodes
      clauseOnSatisfied := doc.clauseOnSatisfied
      clauseOnFalse := doc.clauseOnFalse
      clauseExplanationIDs := doc.clauseExplanationIDs
      clauseRemediationStarts := doc.clauseRemediationStarts
      clauseRemediationCounts := doc.clauseRemediationCounts
      clauseRemediationIDs := doc.clauseRemediationIDs
    }

def ClauseResolution.rules (r : ClauseResolution) : List (Nat × Nat) := [
  (r.onMissing, r.onMissingExplanation),
  (r.onStale, r.onStaleExplanation),
  (r.onUnclear, r.onUnclearExplanation),
  (r.onUnverifiable, r.onUnverifiableExplanation),
  (r.onUnverifiable, r.onUnverifiableExplanation),
  (r.onUnverifiable, r.onUnverifiableExplanation),
  (r.onUnverifiable, r.onUnverifiableExplanation),
  (r.onUnverifiable, r.onUnverifiableExplanation),
  (r.onConflict, r.onConflictExplanation)]

structure ResolutionRow where
  outcome : Nat
  explanation : Nat
  remediationStart : Nat
  remediationCount : Nat
  deriving DecidableEq, Repr

def lowerResolutionRow (outcomes : OutcomeTable) (start count : Nat) (rule : Nat × Nat) :
    Except CompileError ResolutionRow :=
  match outcomes.lookup rule.1 with
  | none => .error .invalidGeneratedProgram
  | some outcome =>
    if outcome.terminal then .ok ⟨rule.1, rule.2, 0, 0⟩ else .ok ⟨rule.1, rule.2, start, count⟩

def lowerClauseResolution (doc : Document) (outcomes : OutcomeTable) (c : ClauseColumns) (i : Nat) :
    Except CompileError (List ResolutionRow) :=
  match doc.clause (i + 1) with
  | none => .error .invalidDocument
  | some (_, resolution) => resolution.rules.mapM (lowerResolutionRow outcomes
      (c.clauseRemediationStarts.getD i 0) (c.clauseRemediationCounts.getD i 0))

def lowerResolutions (doc : Document) (outcomes : OutcomeTable) (c : ClauseColumns) :
    Except CompileError ResolutionTable :=
  let clauses := doc.clauseAssertionRoots.length
  if clauses = 0 ∨ maxInt / reasonCount < clauses then .error .invalidDocument
  else do
    let rows ← (List.range clauses).mapM (lowerClauseResolution doc outcomes c)
    return {
      outcomeIDs := rows.flatten.map (·.outcome)
      explanationIDs := rows.flatten.map (·.explanation)
      remediationStarts := rows.flatten.map (·.remediationStart)
      remediationCounts := rows.flatten.map (·.remediationCount)
      remediationIDs := c.clauseRemediationIDs
    }

structure ResultTables where
  templates : TemplateTable
  explanations : ExplanationTable
  outcomes : OutcomeTable
  remediations : RemediationTable
  resolutions : ResolutionTable
  evidenceIssueNodeIDs : List Nat
  evidenceIssueTemplateIDs : List Nat
  clauseExplanationIDs : List Nat

namespace ResultTables

variable (t : ResultTables)

def validateResultTables : Except TableError Resolver := do
  t.templates.validate
  t.explanations.validate t.templates
  let resolver ← Resolver.new t.outcomes t.remediations t.resolutions
  if t.evidenceIssueNodeIDs.length * reasonCount ≠ t.evidenceIssueTemplateIDs.length then
    .error .invalidEvidenceIssueTable
  else if !(List.range t.evidenceIssueNodeIDs.length).all (fun i =>
      decide ((if i = 0 then 0 else t.evidenceIssueNodeIDs.getD (i - 1) 0) <
        t.evidenceIssueNodeIDs.getD i 0)) then .error .invalidEvidenceIssueTable
  else if !t.evidenceIssueTemplateIDs.all (fun id => (t.templates.lookup id).isSome) then
    .error .invalidTemplateReference
  else if !t.clauseExplanationIDs.all (fun id => (t.explanations.lookup id).isSome) then
    .error .invalidExplanationReference
  else if !t.resolutions.explanationIDs.all (fun id => (t.explanations.lookup id).isSome) then
    .error .invalidExplanationReference
  else .ok resolver

end ResultTables

structure Semantics extends RequirementColumns, ClauseColumns where
  tables : ResultTables

def lowerSemantics (c : Constants) (t : InstructionTable) (doc : Document) :
    Except CompileError Semantics := do
  let outcomes ← lowerOutcomes c.toValueWalk doc
  let remediations ← lowerRemediations c.toValueWalk doc
  let templates ← c.lowerTemplates outcomes doc
  let explanations ← lowerExplanations doc
  let (evidenceIssueNodeIDs, evidenceIssueTemplateIDs) ← lowerEvidenceIssues doc
  let requirements ← lowerRequirements t doc
  let clauses ← lowerClauses t doc
  let resolutions ← lowerResolutions doc outcomes clauses
  let tables : ResultTables := {
    templates
    explanations
    outcomes
    remediations
    resolutions
    evidenceIssueNodeIDs
    evidenceIssueTemplateIDs
    clauseExplanationIDs := clauses.clauseExplanationIDs
  }
  match tables.validateResultTables with
  | .error _ => .error .invalidGeneratedProgram
  | .ok _ => return { requirements, clauses with tables }

end NornRune
