import NornRune.Objects.Program

namespace NornRune

inductive NodeKind
  | invalid
  | compare
  | all
  | any
  | not
  | evidence
  | boolean
  deriving DecidableEq, Repr

namespace NodeKind

def valid : NodeKind → Bool
  | invalid => false
  | _ => true

def group : NodeKind → Bool
  | all | any => true
  | _ => false

end NodeKind

inductive CompareOp
  | invalid
  | equal
  | notEqual
  | in
  | exists
  | less
  | lessEqual
  | greater
  | greaterEqual
  | defined
  deriving DecidableEq, Repr

namespace CompareOp

def valid : CompareOp → Bool
  | invalid => false
  | _ => true

def ordered : CompareOp → Bool
  | less | lessEqual | greater | greaterEqual => true
  | _ => false

end CompareOp

inductive TemplateContext
  | invalid
  | assumption
  | decision
  | unresolved
  | evidenceMissing
  | evidencePresent
  deriving DecidableEq, Repr

namespace TemplateContext

def valid : TemplateContext → Bool
  | invalid => false
  | _ => true

def code : TemplateContext → Nat
  | invalid => 0
  | assumption => 1
  | decision => 2
  | unresolved => 3
  | evidenceMissing => 4
  | evidencePresent => 5

end TemplateContext

namespace TemplateOp

def templateOpAllowed (op : TemplateOp) (context : TemplateContext) : Bool :=
  match op with
  | policyName | policyVersion | requestID => true
  | outcome | requirementID | clauseID | nodeID =>
    decide (TemplateContext.decision.code ≤ context.code)
  | reason => decide (TemplateContext.unresolved.code ≤ context.code)
  | evidenceKind | requiredEvidenceState =>
    decide (TemplateContext.evidenceMissing.code ≤ context.code)
  | evidenceState | evidenceID => context == .evidencePresent
  | _ => false

def allowedIn (op : TemplateOp) (context : TemplateContext) : Bool :=
  if op = .literal then context.valid else op.templateOpAllowed context

end TemplateOp

def maxTemplateBytes : Nat := 512
def maxTemplateOps : Nat := 32
def maxUncertainty : Nat := 8
def evidenceIssueReasonCount : Nat := 9
def resolutionBranchCount : Nat := 7

structure SourceSpan where
  start : Nat
  stop : Nat
  deriving DecidableEq, Repr

namespace SourceSpan

def zero : SourceSpan := ⟨0, 0⟩

def valid (s : SourceSpan) (inputLen : Nat) : Bool :=
  decide (s.start ≤ s.stop) && decide (s.stop ≤ inputLen)

end SourceSpan

structure PolicyMetadata where
  name : Nat
  version : Nat
  sourceSet : Bool

-- A policy as parallel columns. Node `n` has its row at offset `n - 1` of the node columns. The
-- reference of a node selects a row of the table that belongs to its kind, except that a constant
-- refers to its value by ID.
structure Document where
  nodeKinds : List NodeKind
  nodeRefs : List Nat
  templateBytes : List Byte
  templateOpStarts : List Nat
  templateOpCounts : List Nat
  templateLiteralStarts : List Nat
  templateMaxBytes : List Nat
  templateContexts : List TemplateContext
  templateOps : List TemplateOp
  templateArgs : List Nat
  assumptionTemplateIDs : List Nat
  assumptionsSet : List Nat
  explanationRationaleIDs : List Nat
  explanationUncertaintyStarts : List Nat
  explanationUncertaintyCounts : List Nat
  explanationUncertaintyIDs : List Nat
  compareFields : List Nat
  compareOps : List CompareOp
  compareValues : List Nat
  compareListStarts : List Nat
  compareListCounts : List Nat
  listValueIDs : List Nat
  groupChildStarts : List Nat
  groupChildCounts : List Nat
  childNodeIDs : List Nat
  notChildren : List Nat
  evidenceKinds : List Nat
  evidenceStates : List Nat
  evidenceSubjects : List Nat
  evidenceScopes : List Nat
  evidenceTimings : List Nat
  evidenceIssueTemplateIDs : List Nat
  sourceStarts : List Nat
  sourceEnds : List Nat
  inputBytes : List Byte
  valueKinds : List ValueKind
  valueRefs : List Nat
  symbolStarts : List Nat
  symbolLengths : List Nat
  symbolBytes : List Byte
  integerValues : List Int
  booleanValues : List Nat
  timestampValues : List Int
  evidenceKindNames : List Nat
  evidenceKindSourceStarts : List Nat
  evidenceKindSourceEnds : List Nat
  evidenceStateNames : List Nat
  evidenceStateSourceStarts : List Nat
  evidenceStateSourceEnds : List Nat
  outcomeNames : List Nat
  outcomePrecedence : List Nat
  outcomeTerminal : List Bool
  outcomeSourceStarts : List Nat
  outcomeSourceEnds : List Nat
  remediationKinds : List RemediationKind
  remediationFields : List Nat
  remediationValues : List Nat
  remediationEvidenceKinds : List Nat
  remediationSourceStarts : List Nat
  remediationSourceEnds : List Nat
  clauseAssertionRoots : List Nat
  clauseEvidenceStarts : List Nat
  clauseEvidenceCounts : List Nat
  clauseEvidenceNodeIDs : List Nat
  clauseRemediationStarts : List Nat
  clauseRemediationCounts : List Nat
  clauseRemediationIDs : List Nat
  clauseOnSatisfied : List Nat
  clauseOnFalse : List Nat
  clauseOnMissing : List Nat
  clauseOnStale : List Nat
  clauseOnUnclear : List Nat
  clauseOnUnverifiable : List Nat
  clauseOnConflict : List Nat
  clauseExplanationIDs : List Nat
  clauseSourceStarts : List Nat
  clauseSourceEnds : List Nat
  requirementIDs : List Nat
  requirementApplicabilityRoots : List Nat
  requirementClauseStarts : List Nat
  requirementClauseCounts : List Nat
  requirementClauseIDs : List Nat
  requirementSourceStarts : List Nat
  requirementSourceEnds : List Nat
  metadata : PolicyMetadata

-- The outcomes and the explanations of a clause, one for each way in which it can be resolved.
structure ClauseResolution where
  onSatisfied : Nat
  onFalse : Nat
  onMissing : Nat
  onStale : Nat
  onUnclear : Nat
  onUnverifiable : Nat
  onConflict : Nat
  onSatisfiedExplanation : Nat
  onFalseExplanation : Nat
  onMissingExplanation : Nat
  onStaleExplanation : Nat
  onUnclearExplanation : Nat
  onUnverifiableExplanation : Nat
  onConflictExplanation : Nat

-- The kind and the state that a piece of evidence must have, and its optional qualifiers.
structure EvidenceMatch where
  kind : Nat
  state : Nat
  subject : Nat
  scope : Nat
  timing : Nat

namespace Document

variable (d : Document)

def len : Nat := d.nodeKinds.length

def nodeIndex (id : Nat) : Option Nat :=
  if id = 0 ∨ d.nodeKinds.length ≤ id - 1 ∨ d.nodeRefs.length ≤ id - 1 then none else some (id - 1)

def kind (id : Nat) : Option NodeKind := do
  let i ← d.nodeIndex id
  d.nodeKinds[i]?

def payload (id : Nat) (isKind : NodeKind → Bool) : Option Nat := do
  let i ← d.nodeIndex id
  let kind ← d.nodeKinds[i]?
  if isKind kind then d.nodeRefs[i]? else none

def compare (id : Nat) : Option (Nat × CompareOp × Nat) := do
  let r ← d.payload id (· == .compare)
  return (← d.compareFields[r]?, ← d.compareOps[r]?, ← d.compareValues[r]?)

def rangeAt (starts counts : List Nat) (i total : Nat) : Option (Nat × Nat) := do
  let start ← starts[i]?
  let count ← counts[i]?
  if total < start + count then none else some (start, count)

def compareListRange (id : Nat) : Option (Nat × Nat) := do
  let r ← d.payload id (· == .compare)
  rangeAt d.compareListStarts d.compareListCounts r d.listValueIDs.length

def inValues (id : Nat) : Option (List Nat) := do
  let r ← d.payload id (· == .compare)
  let op ← d.compareOps[r]?
  if op ≠ .in then none
  else do
    let (start, count) ← d.compareListRange id
    return Region.read d.listValueIDs start count

def groupRange (id : Nat) : Option (Nat × Nat) := do
  let r ← d.payload id NodeKind.group
  rangeAt d.groupChildStarts d.groupChildCounts r d.childNodeIDs.length

def groupChildren (id : Nat) : Option (List Nat) := do
  let (start, count) ← d.groupRange id
  return Region.read d.childNodeIDs start count

def notChild (id : Nat) : Option Nat := do
  let r ← d.payload id (· == .not)
  d.notChildren[r]?

def qualifierAt (column : List Nat) (r : Nat) : Option Nat :=
  if column.length = 0 then some 0 else column[r]?

def evidenceMatch (id : Nat) : Option EvidenceMatch := do
  let r ← d.payload id (· == .evidence)
  let kind ← d.evidenceKinds[r]?
  let state ← d.evidenceStates[r]?
  let subject ← qualifierAt d.evidenceSubjects r
  let scope ← qualifierAt d.evidenceScopes r
  let timing ← qualifierAt d.evidenceTimings r
  return ⟨kind, state, subject, scope, timing⟩

def span (id : Nat) : Option SourceSpan := do
  let i ← d.nodeIndex id
  let start ← d.sourceStarts[i]?
  let stop ← d.sourceEnds[i]?
  if SourceSpan.valid ⟨start, stop⟩ d.inputBytes.length then some ⟨start, stop⟩ else none

def valueIndex (id : Nat) : Option Nat :=
  if id = 0 ∨ d.valueKinds.length ≤ id - 1 ∨ d.valueRefs.length ≤ id - 1 then none else some (id - 1)

def literal (id : Nat) (kind : ValueKind) : Option Nat := do
  let i ← d.valueIndex id
  if d.valueKinds.getD i .invalid = kind then d.valueRefs[i]? else none

def symbolValue (id : Nat) : Option (List Byte) := do
  let r ← d.literal id .symbol
  let (start, length) ← rangeAt d.symbolStarts d.symbolLengths r d.symbolBytes.length
  return Region.read d.symbolBytes start length

def integerValue (id : Nat) : Option Int := do
  let r ← d.literal id .integer
  d.integerValues[r]?

def booleanValue (id : Nat) : Option Bool := do
  let r ← d.literal id .boolean
  let byte ← d.booleanValues[r]?
  if 1 < byte then none else some (byte == 1)

def timestampValue (id : Nat) : Option Int := do
  let r ← d.literal id .timestamp
  d.timestampValues[r]?

def boolean (id : Nat) : Option Nat := do
  let value ← d.payload id (· == .boolean)
  let _ ← d.booleanValue value
  return value

def clause (id : Nat) : Option (Nat × ClauseResolution) :=
  if id = 0 then none
  else do
    let i := id - 1
    let explanations := Region.read d.clauseExplanationIDs (i * resolutionBranchCount)
      resolutionBranchCount
    if d.clauseExplanationIDs.length < i * resolutionBranchCount + resolutionBranchCount then none
    else return (← d.clauseAssertionRoots[i]?, {
      onSatisfied := ← d.clauseOnSatisfied[i]?
      onFalse := ← d.clauseOnFalse[i]?
      onMissing := ← d.clauseOnMissing[i]?
      onStale := ← d.clauseOnStale[i]?
      onUnclear := ← d.clauseOnUnclear[i]?
      onUnverifiable := ← d.clauseOnUnverifiable[i]?
      onConflict := ← d.clauseOnConflict[i]?
      onSatisfiedExplanation := explanations.getD 0 0
      onFalseExplanation := explanations.getD 1 0
      onMissingExplanation := explanations.getD 2 0
      onStaleExplanation := explanations.getD 3 0
      onUnclearExplanation := explanations.getD 4 0
      onUnverifiableExplanation := explanations.getD 5 0
      onConflictExplanation := explanations.getD 6 0
    })

def policyMetadata : Option PolicyMetadata :=
  if d.metadata.name = 0 ∨ d.metadata.version = 0 ∨ !d.metadata.sourceSet then none
  else some d.metadata

end Document

-- The fields of a policy pack. Field `f` has its row at offset `f - 1`.
structure Schema where
  names : List Nat
  kinds : List ValueKind
  groups : List FieldGroup
  -- Fields are only added with a name, a kind and a group.
  length_kinds : kinds.length = names.length
  length_groups : groups.length = names.length
  kinds_valid : ∀ kind ∈ kinds, kind.valid
  groups_valid : ∀ group ∈ groups, group.valid

namespace Schema

def len (s : Schema) : Nat := s.names.length

def name (s : Schema) (field : Nat) : Option Nat :=
  if field = 0 then none else s.names[field - 1]?

def kind (s : Schema) (field : Nat) : Option ValueKind :=
  if field = 0 then none else s.kinds[field - 1]?

end Schema
end NornRune
