import NornRune.Compile.Structure

-- The second phase of validation: what the rows say is well typed and complete. Rows with a defect of
-- structure are skipped.
namespace NornRune.Document

open Diagnostic

variable (d : Document) (fields : Schema)

def templateContextAt (id : Nat) : Option TemplateContext :=
  if id = 0 then none else d.templateContexts[id - 1]?

def explanationContextAt (id : Nat) : Option TemplateContext :=
  if id = 0 then none else (d.explanationRationaleIDs[id - 1]?).bind d.templateContextAt

def assumptionsGiven : Bool := d.assumptionsSet == [1]

def checkAssumptions : List Diagnostic :=
  let policyPresent := d.metadata.name != 0 || d.metadata.version != 0 ||
    d.templateOpStarts.length != 0 || d.explanationRationaleIDs.length != 0 ||
    d.requirementIDs.length != 0
  if policyPresent && !d.assumptionsGiven then
    [{ code := .missingExplanation, table := .document, member := .assumptions }]
  else if d.assumptionsGiven then
    rows d.assumptionTemplateIDs.length fun i =>
      when ((d.templateContextAt (d.assumptionTemplateIDs.getD i 0)).any (· != .assumption))
        { code := .invalidTemplate, table := .document, member := .assumptions, row := i + 1 }
  else []

def checkExplanationTexts (i : Nat) : List Diagnostic :=
  let row := i + 1
  let rationale := d.explanationRationaleIDs.getD i 0
  let context := d.templateContextAt rationale
  let start := d.explanationUncertaintyStarts.getD i 0
  let count := d.explanationUncertaintyCounts.getD i 0
  (if rationale = 0 then
    [{ code := .missingExplanation, table := .explanation, member := .rationale, row }]
  else when (context.any fun c => c != .decision && c != .unresolved)
    { code := .invalidExplanation, table := .explanation, member := .rationale, row }) ++
  if !validRange start count d.explanationUncertaintyIDs.length then []
  else each (Region.read d.explanationUncertaintyIDs start count) fun id =>
    if id = 0 then
      [{ code := .missingExplanation, table := .explanation, member := .uncertainty, row }]
    else when (context.any fun c => (d.templateContextAt id).any (· != c))
      { code := .invalidExplanation, table := .explanation, member := .uncertainty, row }

def checkIssues (row : Nat) : List Nat → Nat → List Diagnostic
  | [], _ => []
  | id :: ids, reason =>
    if id = 0 then [{ code := .missingExplanation, table := .evidenceNode, member := .template, row }]
    else match d.templateContextAt id with
      | none => checkIssues row ids (reason + 1)
      | some context =>
        if context = .evidenceMissing ∨ (reason ≠ 0 ∧ context = .evidencePresent) then
          checkIssues row ids (reason + 1)
        else [{ code := .invalidTemplate, table := .evidenceNode, member := .template, row }]

def explanationMembers : List MemberKind := [.explanationSatisfied, .explanationFalse,
  .explanationMissing, .explanationStale, .explanationUnclear, .explanationUnverifiable,
  .explanationConflict]

def checkClauseExplanation (row : Nat) (id branch : Nat) : List Diagnostic :=
  let member := explanationMembers.getD branch .invalid
  if id = 0 then [{ code := .missingExplanation, table := .clause, member, row, clause := row }]
  else
    let want : TemplateContext := if branch < 2 then .decision else .unresolved
    when ((d.explanationContextAt id).any (· != want))
      { code := .invalidExplanation, table := .clause, member, row, clause := row }

def checkExplanationSemantics : List Diagnostic :=
  d.checkAssumptions ++ rows d.explanationRows d.checkExplanationTexts ++
  (rows d.evidenceKinds.length fun i => d.checkIssues (i + 1) ((d.evidenceIssues i).getD []) 0) ++
  rows d.clauseAssertionRoots.length fun i =>
    ((d.clauseExplanations i).getD []).zipIdx.flatMap fun (id, branch) =>
      d.checkClauseExplanation (i + 1) id branch

def graphEdgeCount (node : Nat) : Nat :=
  match d.nodeKinds.getD (node - 1) .invalid with
  | .not => 1
  | .all | .any => d.groupChildCounts.getD (d.nodeRefs.getD (node - 1) 0) 0
  | _ => 0

def graphChild (node j : Nat) : Nat :=
  let ref := d.nodeRefs.getD (node - 1) 0
  match d.nodeKinds.getD (node - 1) .invalid with
  | .not => d.notChildren.getD ref 0
  | .all | .any => d.childNodeIDs.getD (d.groupChildStarts.getD ref 0 + j) 0
  | _ => 0

def checkCompareArity (node row value count : Nat) (span : SourceSpan) (op : CompareOp)
    (listOK : Bool) : List Diagnostic :=
  let invalidValue : Diagnostic :=
    { code := .invalidArity, table := .compare, member := .value, row, node, span, value }
  let invalidValues : Diagnostic :=
    { code := .invalidArity, table := .compare, member := .values, row, node, span }
  match op with
  | .exists | .defined => when (value != 0) invalidValue ++ when (listOK && count != 0) invalidValues
  | .in => when (value != 0) invalidValue ++ when (listOK && count == 0) invalidValues
  | _ => when (value == 0) invalidValue ++ when (listOK && count != 0) invalidValues

def checkCompareTypes (node row field value count : Nat) (span : SourceSpan) (op : CompareOp)
    (elements : List Nat) : List Diagnostic :=
  let mismatch (member : MemberKind) (value : Nat) : Diagnostic :=
    { code := .typeMismatch, table := .compare, member, row, node, span, field, value }
  match fields.kind field with
  | none => []
  | some fieldKind =>
    let wrong (value : Nat) : Bool := (d.literalValueKind value).any (· != fieldKind)
    if op = .equal ∨ op = .notEqual then
      when (value != 0 && count == 0 && wrong value) (mismatch .value value)
    else if op = .in then
      if value ≠ 0 ∨ count = 0 then []
      else if fieldKind = .presence then [mismatch .field 0]
      else each elements fun value => when (wrong value) (mismatch .values value)
    else if op.ordered then
      if value = 0 ∨ count ≠ 0 then []
      else if !orderedKind fieldKind then [mismatch .field 0]
      else when (wrong value) (mismatch .value value)
    else []

def checkCompareRowSemantics (node ref : Nat) (span : SourceSpan) : List Diagnostic :=
  let row := ref + 1
  let op := d.compareOps.getD ref .invalid
  let value := d.compareValues.getD ref 0
  let start := d.compareListStarts.getD ref 0
  let count := d.compareListCounts.getD ref 0
  let listOK := validRange start count d.listValueIDs.length
  if !op.valid then
    [{ code := .invalidArity, table := .compare, member := .operation, row, node, span }]
  else
    checkCompareArity node row value count span op listOK ++
    if !listOK then []
    else d.checkCompareTypes fields node row (d.compareFields.getD ref 0) value count span op
      (Region.read d.listValueIDs start count)

def checkExpressionRow (i : Nat) : List Diagnostic :=
  let node := i + 1
  let ref := d.nodeRefs.getD i 0
  let span := d.validNodeSpan i
  if d.nodeUnsafe i then []
  else
    (match d.nodeKinds.getD i .invalid with
    | .boolean => when (d.literalValueKind ref != some .boolean)
      { code := .invalidValue, table := .node, member := .value, row := node, node, value := ref,
        span }
    | .compare => if ref < d.compareRows then d.checkCompareRowSemantics fields node ref span else []
    | .all | .any => when (decide (ref < d.groupRows) && d.groupChildCounts.getD ref 0 == 0 &&
        validRange (d.groupChildStarts.getD ref 0) 0 d.childNodeIDs.length)
      { code := .invalidArity, table := .group, member := .children, row := ref + 1, node, span }
    | _ => []) ++
    rows (d.graphEdgeCount node) fun edge =>
      let target := d.graphChild node edge
      when (d.nodeInRange target && d.nodeKinds.getD (target - 1) .invalid == .evidence)
        { code := .invalidEvidence, table := .node, member := .child, row := node, node := target,
          span }

def checkExpressionSemantics : List Diagnostic :=
  rows d.nodeKinds.length (d.checkExpressionRow fields)

def literalBytes (id : Nat) : List Byte :=
  let ref := d.valueRefs.getD (id - 1) 0
  Region.read d.symbolBytes (d.symbolStarts.getD ref 0) (d.symbolLengths.getD ref 0)

def checkIdentity (member : MemberKind) (value : Nat) : List Diagnostic :=
  match d.structuralLiteralKind value with
  | none => when (value == 0 || decide (d.valueKinds.length < value))
    { code := .invalidValue, table := .document, member, value }
  | some kind =>
    if kind ≠ .symbol then [{ code := .typeMismatch, table := .document, member, value }]
    else when (d.literalBytes value).isEmpty { code := .invalidValue, table := .document, member, value }

def checkPolicyIdentitySemantics : List Diagnostic :=
  if d.metadata.name = 0 ∧ d.metadata.version = 0 then []
  else d.checkIdentity .metadataName d.metadata.name ++
    d.checkIdentity .metadataVersion d.metadata.version

def sameName (name : Nat) (text : List Byte) (earlier : Nat) : Bool :=
  earlier != 0 && (earlier == name || (d.structuralLiteralKind earlier == some .symbol &&
    !(d.literalBytes earlier).isEmpty && d.literalBytes earlier == text))

def checkCatalogNameSemantics (table : TableKind) (names starts stops : List Nat) : List Diagnostic :=
  rows (safeMin [names.length, starts.length, stops.length]) fun i =>
    let name := names.getD i 0
    let span := (validOwnerSpan (starts.getD i 0) (stops.getD i 0) d.inputBytes.length).getD .zero
    let report (code : DiagnosticCode) : Diagnostic :=
      catalogNameOwner { code, table, member := .name, row := i + 1, span, value := name }
    if name = 0 then []
    else match d.structuralLiteralKind name with
      | none => []
      | some kind =>
        if kind ≠ .symbol then [report .typeMismatch]
        else if (d.literalBytes name).isEmpty then [report .invalidValue]
        else when ((names.take i).any (d.sameName name (d.literalBytes name))) (report .duplicateName)

def checkEvidenceKindNameSemantics : List Diagnostic :=
  d.checkCatalogNameSemantics .evidenceKind d.evidenceKindNames d.evidenceKindSourceStarts
    d.evidenceKindSourceEnds

def checkEvidenceStateNameSemantics : List Diagnostic :=
  d.checkCatalogNameSemantics .evidenceState d.evidenceStateNames d.evidenceStateSourceStarts
    d.evidenceStateSourceEnds

def checkOutcomeNameSemantics : List Diagnostic :=
  d.checkCatalogNameSemantics .outcome d.outcomeNames d.outcomeSourceStarts d.outcomeSourceEnds

def checkRemediationShape (i : Nat) : List Diagnostic :=
  let row := i + 1
  let field := d.remediationFields.getD i 0
  let value := d.remediationValues.getD i 0
  let evidenceKind := d.remediationEvidenceKinds.getD i 0
  let span := (d.remediationSpan i).getD .zero
  let report (member : MemberKind) : Diagnostic :=
    { code := .invalidRemediation, table := .remediation, member, row, span, remediation := row }
  match d.remediationKinds.getD i .invalid with
  | .invalid => [report .recordKind]
  | .setField =>
    when (field == 0) (report .field) ++ when (value == 0) (report .value) ++
    when (evidenceKind != 0) { report .evidenceKind with evidenceKind } ++
    when (field != 0 && value != 0 && (fields.kind field).any fun fieldKind =>
        (d.structuralLiteralKind value).any (· != fieldKind))
      { report .value with code := .typeMismatch, field, value }
  | .addEvidence =>
    when (field != 0) { report .field with field } ++
    when (value != 0) { report .value with value } ++
    when (evidenceKind == 0) (report .evidenceKind)

def checkRemediationSemantics : List Diagnostic :=
  rows d.remediationRows (d.checkRemediationShape fields)

def checkClauseResolution (i : Nat) : List Diagnostic :=
  let row := i + 1
  let assertion := d.clauseAssertionRoots.getD i 0
  let span := (d.clauseSpan i).getD .zero
  let kindOf (node : Nat) : NodeKind := d.nodeKinds.getD (node - 1) .invalid
  when (d.nodeInRange assertion && kindOf assertion == .evidence)
    { code := .invalidEvidence, table := .clause, member := .assertion, row, span, clause := row,
      node := assertion } ++
  (if !d.clauseEvidenceInRange i then []
  else each (d.clauseEvidence i) fun node =>
    when (d.nodeInRange node && (kindOf node).valid && kindOf node != .evidence)
      { code := .invalidEvidence, table := .clause, member := .evidence, row, span, clause := row,
        node }) ++
  (d.clauseOutcomes i).flatMap fun (member, outcome) =>
    when (outcome == 0)
      { code := .missingResolution, table := .clause, member, row, span, clause := row }

def checkClauseSemantics : List Diagnostic :=
  rows d.clauseRows d.checkClauseResolution

def checkRequirement (i : Nat) : List Diagnostic :=
  let row := i + 1
  let requirement := d.requirementIDs.getD i 0
  let applicability := d.requirementApplicabilityRoots.getD i 0
  let span := (d.requirementSpan i).getD .zero
  when (d.nodeInRange applicability && d.nodeKinds.getD (applicability - 1) .invalid == .evidence)
    { code := .invalidEvidence, table := .requirement, member := .applicability, row, span,
      requirement, node := applicability } ++
  (if requirement = 0 then
    [{ code := .invalidID, table := .requirement, member := .id, row, span }]
  else when ((d.requirementIDs.take i).any (· == requirement))
    { code := .duplicateID, table := .requirement, member := .id, row, span, requirement }) ++
  when (d.requirementClausesInRange i && d.requirementClauseCounts.getD i 0 == 0)
    { code := .invalidArity, table := .requirement, member := .clauses, row, span, requirement }

def checkRequirementSemantics : List Diagnostic :=
  rows d.requirementRows d.checkRequirement

def validateSemantics : List Diagnostic :=
  d.checkExplanationSemantics ++ d.checkExpressionSemantics fields ++ d.checkPolicyIdentitySemantics ++
  d.checkEvidenceKindNameSemantics ++ d.checkEvidenceStateNameSemantics ++
  d.checkOutcomeNameSemantics ++ d.checkRemediationSemantics fields ++ d.checkClauseSemantics ++
  d.checkRequirementSemantics

end NornRune.Document
