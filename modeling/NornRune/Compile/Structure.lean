import NornRune.Compile.Diagnostic

-- The first phase of validation: columns that belong together have the same length, and every
-- reference into a column exists.
namespace NornRune.Document

open Diagnostic

variable (d : Document) (fields : Schema)

def checkColumnLengths : List Diagnostic :=
  let nodes := d.nodeKinds.length
  let compares := d.compareFields.length
  let evidence := d.evidenceKinds.length
  let kinds := d.evidenceKindNames.length
  let states := d.evidenceStateNames.length
  let outcomes := d.outcomeNames.length
  let remediations := d.remediationKinds.length
  let clauses := d.clauseAssertionRoots.length
  let requirements := d.requirementIDs.length
  let templates := d.templateOpStarts.length
  let explanations := d.explanationRationaleIDs.length
  when (d.nodeRefs.length != nodes || d.sourceStarts.length != nodes || d.sourceEnds.length != nodes)
    { code := .columnLength, table := .node } ++
  when (d.compareOps.length != compares || d.compareValues.length != compares ||
      d.compareListStarts.length != compares || d.compareListCounts.length != compares)
    { code := .columnLength, table := .compare } ++
  when (d.groupChildStarts.length != d.groupChildCounts.length)
    { code := .columnLength, table := .group } ++
  when (evidence != d.evidenceStates.length ||
      (d.evidenceSubjects.length != 0 && evidence != d.evidenceSubjects.length) ||
      (d.evidenceScopes.length != 0 && evidence != d.evidenceScopes.length) ||
      (d.evidenceTimings.length != 0 && evidence != d.evidenceTimings.length) ||
      d.evidenceIssueTemplateIDs.length != evidence * evidenceIssueReasonCount)
    { code := .columnLength, table := .evidenceNode } ++
  when (d.valueKinds.length != d.valueRefs.length || d.symbolStarts.length != d.symbolLengths.length)
    { code := .columnLength, table := .value } ++
  when (kinds != d.evidenceKindSourceStarts.length || kinds != d.evidenceKindSourceEnds.length)
    { code := .columnLength, table := .evidenceKind } ++
  when (states != d.evidenceStateSourceStarts.length || states != d.evidenceStateSourceEnds.length)
    { code := .columnLength, table := .evidenceState } ++
  when (outcomes != d.outcomePrecedence.length || outcomes != d.outcomeTerminal.length ||
      outcomes != d.outcomeSourceStarts.length || outcomes != d.outcomeSourceEnds.length)
    { code := .columnLength, table := .outcome } ++
  when (remediations != d.remediationFields.length || remediations != d.remediationValues.length ||
      remediations != d.remediationEvidenceKinds.length ||
      remediations != d.remediationSourceStarts.length ||
      remediations != d.remediationSourceEnds.length)
    { code := .columnLength, table := .remediation } ++
  when (d.clauseEvidenceStarts.length != clauses || d.clauseEvidenceCounts.length != clauses ||
      d.clauseRemediationStarts.length != clauses || d.clauseRemediationCounts.length != clauses ||
      d.clauseOnSatisfied.length != clauses || d.clauseOnFalse.length != clauses ||
      d.clauseOnMissing.length != clauses || d.clauseOnStale.length != clauses ||
      d.clauseOnUnclear.length != clauses || d.clauseOnUnverifiable.length != clauses ||
      d.clauseOnConflict.length != clauses ||
      d.clauseExplanationIDs.length != clauses * resolutionBranchCount ||
      d.clauseSourceStarts.length != clauses || d.clauseSourceEnds.length != clauses)
    { code := .columnLength, table := .clause } ++
  when (d.requirementApplicabilityRoots.length != requirements ||
      d.requirementClauseStarts.length != requirements ||
      d.requirementClauseCounts.length != requirements ||
      d.requirementSourceStarts.length != requirements ||
      d.requirementSourceEnds.length != requirements)
    { code := .columnLength, table := .requirement } ++
  when (d.templateOpCounts.length != templates || d.templateLiteralStarts.length != templates ||
      d.templateMaxBytes.length != templates || d.templateContexts.length != templates ||
      d.templateOps.length != d.templateArgs.length)
    { code := .columnLength, table := .template } ++
  when (d.explanationUncertaintyStarts.length != explanations ||
      d.explanationUncertaintyCounts.length != explanations || decide (1 < d.assumptionsSet.length))
    { code := .columnLength, table := .explanation }

def checkTemplateOp (i index : Nat) : List Diagnostic :=
  let row := i + 1
  let context := d.templateContexts.getD i .invalid
  let op := d.templateOps.getD index .invalid
  if !op.valid then [{ code := .invalidTemplate, table := .template, member := .operation, row }]
  else
    when (context.valid && !op.allowedIn context)
      { code := .invalidTemplate, table := .template, member := .context, row } ++
    when (op != .literal && d.templateArgs.getD index 0 != 0)
      { code := .invalidTemplate, table := .template, member := .value, row }

def templateLiteralBytes (indices : List Nat) : Nat :=
  (indices.map fun index =>
    if d.templateOps.getD index .invalid = .literal then d.templateArgs.getD index 0 else 0).sum

def checkTemplateRow (i : Nat) : List Diagnostic :=
  let row := i + 1
  let start := d.templateOpStarts.getD i 0
  let count := d.templateOpCounts.getD i 0
  let indices := List.range' start count
  when (!(d.templateContexts.getD i .invalid).valid)
    { code := .invalidTemplate, table := .template, member := .context, row } ++
  if maxTemplateOps < count ∨ !validRange start count (min d.templateOps.length d.templateArgs.length)
  then [{ code := .invalidCSRRange, table := .template, member := .operation, row }]
  else
    indices.flatMap (d.checkTemplateOp i) ++
    if !indices.all (fun index => (d.templateOps.getD index .invalid).valid) then []
    else
      let literalBytes := d.templateLiteralBytes indices
      if maxUint32 < literalBytes ∨
          !validRange (d.templateLiteralStarts.getD i 0) literalBytes d.templateBytes.length then
        [{ code := .invalidCSRRange, table := .template, member := .payload, row }]
      else when (decide (maxTemplateBytes < literalBytes) ||
          d.templateMaxBytes.getD i 0 != literalBytes)
        { code := .invalidTemplate, table := .template, member := .payload, row }

def checkTemplateRows : List Diagnostic :=
  let base := d.templateOpStarts.length
  if d.templateOpCounts.length ≠ base ∨ d.templateLiteralStarts.length ≠ base ∨
      d.templateMaxBytes.length ≠ base ∨ d.templateContexts.length ≠ base ∨
      d.templateOps.length ≠ d.templateArgs.length then []
  else rows base d.checkTemplateRow

def explanationRows : Nat :=
  safeMin [d.explanationRationaleIDs.length, d.explanationUncertaintyStarts.length,
    d.explanationUncertaintyCounts.length]

def checkExplanationRow (i : Nat) : List Diagnostic :=
  let row := i + 1
  let templateMax := d.templateOpStarts.length
  let start := d.explanationUncertaintyStarts.getD i 0
  let count := d.explanationUncertaintyCounts.getD i 0
  when (decide (templateMax < d.explanationRationaleIDs.getD i 0))
    { code := .invalidExplanation, table := .explanation, member := .rationale, row } ++
  if maxUncertainty < count ∨ !validRange start count d.explanationUncertaintyIDs.length then
    [{ code := .invalidCSRRange, table := .explanation, member := .uncertainty, row }]
  else each (Region.read d.explanationUncertaintyIDs start count) fun id =>
    when (decide (templateMax < id))
      { code := .invalidExplanation, table := .explanation, member := .uncertainty, row }

def checkExplanationRows : List Diagnostic :=
  (rows d.assumptionTemplateIDs.length fun i =>
    let id := d.assumptionTemplateIDs.getD i 0
    when (id == 0 || decide (d.templateOpStarts.length < id))
      { code := .invalidTemplate, table := .document, member := .assumptions, row := i + 1 }) ++
  rows d.explanationRows d.checkExplanationRow

def checkValueRow (i : Nat) : List Diagnostic :=
  let row := i + 1
  let kind := d.valueKinds.getD i .invalid
  if !literalKind kind then [{ code := .invalidValue, table := .value, row, value := row }]
  else when (!d.valueRefValid kind (d.valueRefs.getD i 0))
    { code := .invalidPayloadRef, table := .value, row, value := row }

def checkValueRows : List Diagnostic :=
  rows (min d.valueKinds.length d.valueRefs.length) d.checkValueRow

def compareRows : Nat :=
  safeMin [d.compareFields.length, d.compareOps.length, d.compareValues.length,
    d.compareListStarts.length, d.compareListCounts.length]

def checkCompareRow (i : Nat) : List Diagnostic :=
  let row := i + 1
  let field := d.compareFields.getD i 0
  let value := d.compareValues.getD i 0
  let start := d.compareListStarts.getD i 0
  let count := d.compareListCounts.getD i 0
  when (field == 0 || decide (fields.len < field))
    { code := .invalidField, table := .compare, row, field } ++
  when (decide (d.valueKinds.length < value)) { code := .invalidValue, table := .compare, row, value } ++
  if !validRange start count d.listValueIDs.length then
    [{ code := .invalidCSRRange, table := .compare, row }]
  else each (Region.read d.listValueIDs start count) fun value =>
    when (value == 0 || decide (d.valueKinds.length < value))
      { code := .invalidValue, table := .compare, row, value }

def checkCompareRows : List Diagnostic :=
  rows d.compareRows (d.checkCompareRow fields)

def groupRows : Nat := min d.groupChildStarts.length d.groupChildCounts.length

def checkGroupRow (i : Nat) : List Diagnostic :=
  let row := i + 1
  let start := d.groupChildStarts.getD i 0
  let count := d.groupChildCounts.getD i 0
  if !validRange start count d.childNodeIDs.length then
    [{ code := .invalidCSRRange, table := .group, row }]
  else each (Region.read d.childNodeIDs start count) fun child =>
    when (!d.nodeInRange child) { code := .invalidNodeReference, table := .group, row, node := child }

def checkGroupRows : List Diagnostic :=
  rows d.groupRows d.checkGroupRow

def checkNotRows : List Diagnostic :=
  rows d.notChildren.length fun i =>
    let target := d.notChildren.getD i 0
    when (!d.nodeInRange target)
      { code := .invalidNodeReference, table := .not, row := i + 1, node := target }

def evidenceIssues (i : Nat) : Option (List Nat) :=
  if d.evidenceIssueTemplateIDs.length < i * evidenceIssueReasonCount + evidenceIssueReasonCount
  then none
  else some (Region.read d.evidenceIssueTemplateIDs (i * evidenceIssueReasonCount)
    evidenceIssueReasonCount)

def checkEvidenceRow (i : Nat) : List Diagnostic :=
  let row := i + 1
  let evidenceKind := d.evidenceKinds.getD i 0
  let evidenceState := d.evidenceStates.getD i 0
  let qualifiers := [d.evidenceSubjects.getD i 0, d.evidenceScopes.getD i 0, d.evidenceTimings.getD i 0]
  when (evidenceKind == 0 || decide (d.evidenceKindNames.length < evidenceKind))
    { code := .invalidEvidence, table := .evidenceNode, member := .evidenceKind, row, evidenceKind } ++
  when (evidenceState == 0 || decide (d.evidenceStateNames.length < evidenceState))
    { code := .invalidEvidence, table := .evidenceNode, member := .evidenceState, row, evidenceState } ++
  (each qualifiers fun value =>
    when (value != 0 && d.structuralLiteralKind value != some .symbol)
      { code := .invalidValue, table := .evidenceNode, row, value }) ++
  -- At most one diagnostic per row is reported for the templates.
  when (((d.evidenceIssues i).getD []).any fun id => decide (d.templateOpStarts.length < id))
    { code := .invalidTemplate, table := .evidenceNode, member := .template, row }

def checkEvidenceRows : List Diagnostic :=
  rows (min d.evidenceKinds.length d.evidenceStates.length) d.checkEvidenceRow

-- A node that the later phases must not look into: one of its columns, its kind or its reference is
-- missing, or its children are.
def nodeUnsafe (i : Nat) : Bool :=
  let kind := d.nodeKinds.getD i .invalid
  let ref := d.nodeRefs.getD i 0
  decide (d.nodeRefs.length ≤ i) || decide (d.sourceStarts.length ≤ i) ||
  decide (d.sourceEnds.length ≤ i) || !kind.valid || !d.nodeRefValid kind ref ||
  (kind.group && !validRange (d.groupChildStarts.getD ref 0) (d.groupChildCounts.getD ref 0)
    d.childNodeIDs.length)

def checkNodeRow (i : Nat) : List Diagnostic :=
  let row := i + 1
  let kind := d.nodeKinds.getD i .invalid
  let span := d.validNodeSpan i
  when (decide (i < d.sourceStarts.length) && decide (i < d.sourceEnds.length) &&
      !SourceSpan.valid ⟨d.sourceStarts.getD i 0, d.sourceEnds.getD i 0⟩ d.inputBytes.length)
    { code := .invalidSourceSpan, table := .node, row, node := row } ++
  if !kind.valid then [{ code := .invalidNodeKind, table := .node, row, node := row, span }]
  else when (decide (i < d.nodeRefs.length) && !d.nodeRefValid kind (d.nodeRefs.getD i 0))
    { code := .invalidPayloadRef, table := .node, row, node := row, span }

def checkNodeRows : List Diagnostic :=
  rows d.nodeKinds.length d.checkNodeRow

def nameInValueKinds (name : Nat) : Bool :=
  name != 0 && decide (name ≤ d.valueKinds.length)

def catalogNameOwner (diagnostic : Diagnostic) : Diagnostic :=
  match diagnostic.table with
  | .evidenceKind => { diagnostic with evidenceKind := diagnostic.row }
  | .evidenceState => { diagnostic with evidenceState := diagnostic.row }
  | .outcome => { diagnostic with outcome := diagnostic.row }
  | _ => diagnostic

def checkCatalogRow (table : TableKind) (names starts stops : List Nat) (i : Nat) : List Diagnostic :=
  let row := i + 1
  let value := names.getD i 0
  let span := validOwnerSpan (starts.getD i 0) (stops.getD i 0) d.inputBytes.length
  when (!d.nameInValueKinds value) (catalogNameOwner
    { code := .invalidValue, table, member := .name, row, span := span.getD .zero, value }) ++
  when span.isNone (catalogNameOwner { code := .invalidSourceSpan, table, member := .span, row })

def checkEvidenceKindRows : List Diagnostic :=
  rows (safeMin [d.evidenceKindNames.length, d.evidenceKindSourceStarts.length,
      d.evidenceKindSourceEnds.length])
    (d.checkCatalogRow .evidenceKind d.evidenceKindNames d.evidenceKindSourceStarts
      d.evidenceKindSourceEnds)

def checkEvidenceStateRows : List Diagnostic :=
  rows (safeMin [d.evidenceStateNames.length, d.evidenceStateSourceStarts.length,
      d.evidenceStateSourceEnds.length])
    (d.checkCatalogRow .evidenceState d.evidenceStateNames d.evidenceStateSourceStarts
      d.evidenceStateSourceEnds)

def checkOutcomeRows : List Diagnostic :=
  rows (safeMin [d.outcomeNames.length, d.outcomePrecedence.length, d.outcomeTerminal.length,
      d.outcomeSourceStarts.length, d.outcomeSourceEnds.length])
    (d.checkCatalogRow .outcome d.outcomeNames d.outcomeSourceStarts d.outcomeSourceEnds)

def remediationRows : Nat :=
  safeMin [d.remediationKinds.length, d.remediationFields.length, d.remediationValues.length,
    d.remediationEvidenceKinds.length, d.remediationSourceStarts.length,
    d.remediationSourceEnds.length]

def remediationSpan (i : Nat) : Option SourceSpan :=
  validOwnerSpan (d.remediationSourceStarts.getD i 0) (d.remediationSourceEnds.getD i 0)
    d.inputBytes.length

def checkRemediationRow (i : Nat) : List Diagnostic :=
  let row := i + 1
  let field := d.remediationFields.getD i 0
  let value := d.remediationValues.getD i 0
  let evidenceKind := d.remediationEvidenceKinds.getD i 0
  let span := (d.remediationSpan i).getD .zero
  when (decide (fields.len < field))
    { code := .invalidField, table := .remediation, member := .field, row, span,
      remediation := row, field } ++
  when (decide (d.valueKinds.length < value))
    { code := .invalidValue, table := .remediation, member := .value, row, span,
      remediation := row, value } ++
  when (decide (d.evidenceKindNames.length < evidenceKind))
    { code := .invalidEvidence, table := .remediation, member := .evidenceKind, row, span,
      remediation := row, evidenceKind } ++
  when (d.remediationSpan i).isNone
    { code := .invalidSourceSpan, table := .remediation, member := .span, row, remediation := row }

def checkRemediationRows : List Diagnostic :=
  rows d.remediationRows (d.checkRemediationRow fields)

def clauseRows : Nat :=
  safeMin [d.clauseAssertionRoots.length, d.clauseEvidenceStarts.length,
    d.clauseEvidenceCounts.length, d.clauseRemediationStarts.length,
    d.clauseRemediationCounts.length, d.clauseOnSatisfied.length, d.clauseOnFalse.length,
    d.clauseOnMissing.length, d.clauseOnStale.length, d.clauseOnUnclear.length,
    d.clauseOnUnverifiable.length, d.clauseOnConflict.length, d.clauseSourceStarts.length,
    d.clauseSourceEnds.length]

def clauseSpan (i : Nat) : Option SourceSpan :=
  validOwnerSpan (d.clauseSourceStarts.getD i 0) (d.clauseSourceEnds.getD i 0) d.inputBytes.length

def clauseOutcomes (i : Nat) : List (MemberKind × Nat) := [
  (.outcomeSatisfied, d.clauseOnSatisfied.getD i 0),
  (.outcomeFalse, d.clauseOnFalse.getD i 0),
  (.outcomeMissing, d.clauseOnMissing.getD i 0),
  (.outcomeStale, d.clauseOnStale.getD i 0),
  (.outcomeUnclear, d.clauseOnUnclear.getD i 0),
  (.outcomeUnverifiable, d.clauseOnUnverifiable.getD i 0),
  (.outcomeConflict, d.clauseOnConflict.getD i 0)]

def clauseExplanations (i : Nat) : Option (List Nat) :=
  if d.clauseExplanationIDs.length < i * resolutionBranchCount + resolutionBranchCount then none
  else some (Region.read d.clauseExplanationIDs (i * resolutionBranchCount) resolutionBranchCount)

def clauseEvidenceInRange (i : Nat) : Bool :=
  validRange (d.clauseEvidenceStarts.getD i 0) (d.clauseEvidenceCounts.getD i 0)
    d.clauseEvidenceNodeIDs.length

def clauseRemediationsInRange (i : Nat) : Bool :=
  validRange (d.clauseRemediationStarts.getD i 0) (d.clauseRemediationCounts.getD i 0)
    d.clauseRemediationIDs.length

def clauseEvidence (i : Nat) : List Nat :=
  Region.read d.clauseEvidenceNodeIDs (d.clauseEvidenceStarts.getD i 0)
    (d.clauseEvidenceCounts.getD i 0)

def clauseRemediations (i : Nat) : List Nat :=
  Region.read d.clauseRemediationIDs (d.clauseRemediationStarts.getD i 0)
    (d.clauseRemediationCounts.getD i 0)

def clauseUnsafe (i : Nat) : Bool :=
  decide (d.clauseRows ≤ i) || !d.nodeInRange (d.clauseAssertionRoots.getD i 0) ||
  !d.clauseEvidenceInRange i || !d.clauseRemediationsInRange i

def checkClauseRow (i : Nat) : List Diagnostic :=
  let row := i + 1
  let assertion := d.clauseAssertionRoots.getD i 0
  let span := (d.clauseSpan i).getD .zero
  when (!d.nodeInRange assertion)
    { code := .invalidNodeReference, table := .clause, member := .assertion, row, clause := row,
      node := assertion, span } ++
  (if !d.clauseEvidenceInRange i then
    [{ code := .invalidCSRRange, table := .clause, member := .evidence, row, clause := row, span }]
  else each (d.clauseEvidence i) fun node =>
    when (!d.nodeInRange node)
      { code := .invalidNodeReference, table := .clause, member := .evidence, row, clause := row,
        node, span }) ++
  (if !d.clauseRemediationsInRange i then
    [{ code := .invalidCSRRange, table := .clause, member := .remediations, row,
       clause := row, span }]
  else each (d.clauseRemediations i) fun remediation =>
    when (remediation == 0 || decide (d.remediationKinds.length < remediation))
      { code := .invalidRemediation, table := .clause, member := .remediation, row, clause := row,
        remediation, span }) ++
  ((d.clauseOutcomes i).flatMap fun (member, outcome) =>
    when (decide (d.outcomeNames.length < outcome))
      { code := .invalidOutcome, table := .clause, member, row, clause := row, outcome, span }) ++
  (each ((d.clauseExplanations i).getD []) fun explanation =>
    when (decide (d.explanationRationaleIDs.length < explanation))
      { code := .invalidExplanation, table := .clause, member := .template, row, clause := row }) ++
  when (d.clauseSpan i).isNone
    { code := .invalidSourceSpan, table := .clause, member := .span, row, clause := row }

def checkClauseRows : List Diagnostic :=
  rows d.clauseRows d.checkClauseRow

def requirementRows : Nat :=
  safeMin [d.requirementIDs.length, d.requirementApplicabilityRoots.length,
    d.requirementClauseStarts.length, d.requirementClauseCounts.length,
    d.requirementSourceStarts.length, d.requirementSourceEnds.length]

def requirementSpan (i : Nat) : Option SourceSpan :=
  validOwnerSpan (d.requirementSourceStarts.getD i 0) (d.requirementSourceEnds.getD i 0)
    d.inputBytes.length

def requirementClausesInRange (i : Nat) : Bool :=
  validRange (d.requirementClauseStarts.getD i 0) (d.requirementClauseCounts.getD i 0)
    d.requirementClauseIDs.length

def requirementClauses (i : Nat) : List Nat :=
  Region.read d.requirementClauseIDs (d.requirementClauseStarts.getD i 0)
    (d.requirementClauseCounts.getD i 0)

def checkRequirementRow (i : Nat) : List Diagnostic :=
  let row := i + 1
  let requirement := d.requirementIDs.getD i 0
  let applicability := d.requirementApplicabilityRoots.getD i 0
  let span := (d.requirementSpan i).getD .zero
  when (!d.nodeInRange applicability)
    { code := .invalidNodeReference, table := .requirement, member := .applicability, row,
      requirement, node := applicability, span } ++
  (if !d.requirementClausesInRange i then
    [{ code := .invalidCSRRange, table := .requirement, member := .clauses, row, requirement, span }]
  else each (d.requirementClauses i) fun clause =>
    when (clause == 0 || decide (d.clauseAssertionRoots.length < clause))
      { code := .invalidPayloadRef, table := .requirement, member := .clause, row, requirement,
        clause, span }) ++
  when (d.requirementSpan i).isNone
    { code := .invalidSourceSpan, table := .requirement, member := .span, row, requirement }

def checkRequirementRows : List Diagnostic :=
  rows d.requirementRows d.checkRequirementRow

def validateStructure : List Diagnostic :=
  d.checkColumnLengths ++ d.checkTemplateRows ++ d.checkExplanationRows ++ d.checkValueRows ++
  d.checkCompareRows fields ++ d.checkGroupRows ++ d.checkNotRows ++ d.checkEvidenceRows ++
  d.checkNodeRows ++ d.checkEvidenceKindRows ++ d.checkEvidenceStateRows ++ d.checkOutcomeRows ++
  d.checkRemediationRows fields ++ d.checkClauseRows ++ d.checkRequirementRows

end NornRune.Document
