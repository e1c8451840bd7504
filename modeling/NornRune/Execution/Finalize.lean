import NornRune.Execution.Executor

open Bitplane

namespace NornRune

def clauseExplanationBranchCount : Nat := 7
def clauseSatisfiedExplanation : Nat := 0
def clauseFalseExplanation : Nat := 1

structure OutcomeCandidate where
  remediations : List Nat := []
  outcome : Nat := 0
  explanation : Nat := 0
  requirement : Nat := 0
  clause : Nat := 0
  node : Nat := 0
  reasons : ReasonMask := 0#16
  driverReason : Nat := 0
  applicability : Bool := false

structure LaneReader where
  truth : Nat → Except Panic Truth
  reasons : Nat → Except Panic ReasonMask

namespace Executor

def instructionTruth (e : Executor) (heap : Heap) (p : Program) (row rows instruction : Nat) :
    Except Panic Truth := do
  return (← e.truthSlot heap (p.truthSlotOf instruction) rows).lane row

def instructionReasons (e : Executor) (heap : Heap) (p : Program) (row rows instruction : Nat) :
    Except Panic ReasonMask := do
  return ReasonPlanes.lane (← e.reasonSlot heap (p.reasonSlotOf instruction) rows) (wordCount rows)
    row

def reader (e : Executor) (heap : Heap) (p : Program) (row rows : Nat) : LaneReader where
  truth := e.instructionTruth heap p row rows
  reasons := e.instructionReasons heap p row rows

end Executor

namespace Program

def clauseEvidence (p : Program) (clauseRow : Nat) : List (Nat × Nat) :=
  let start := p.clauseEvidenceStarts.getD clauseRow 0
  let count := p.clauseEvidenceCounts.getD clauseRow 0
  List.zip (Region.read p.clauseEvidenceIDs start count)
    (Region.read p.clauseEvidenceSourceNodeIDs start count)

end Program

section Row

variable (p : Program) (read : LaneReader)

def executionResolutionRemediations (r : Resolver.Resolution) : List Nat :=
  if r.terminal then [] else r.remediations

def executionClauseRemediations (clauseRow outcome : Nat) : Except Panic (List Nat) :=
  match p.outcomes.lookup outcome with
  | none => .error "eval: invalid clause outcome"
  | some o =>
    if o.terminal then .ok []
    else .ok (Region.read p.clauseRemediationIDs (p.clauseRemediationStarts.getD clauseRow 0)
      (p.clauseRemediationCounts.getD clauseRow 0))

def resolveApplicability (requirement clause root sourceNode : Nat) :
    Except Panic OutcomeCandidate := do
  let reasons ← read.reasons root
  match ← p.resolver.resolve clause reasons with
  | none => .error "eval: unresolved applicability has no reason"
  | some r => return {
      remediations := executionResolutionRemediations r
      outcome := r.outcome
      explanation := r.explanation
      requirement := requirement
      clause := clause
      node := sourceNode
      driverReason := r.reason
      reasons := reasons
      applicability := true
    }

def firstEdge (c : Nat → Except Panic Bool) (text : String) :
    List (Nat × Nat) → Except Panic (Nat × Nat)
  | [] => .error text
  | (evidence, node) :: edges => do
    if ← c evidence then return (evidence, node) else firstEdge c text edges

def firstNegativeNode (clauseRow : Nat) : Except Panic Nat := do
  let assertion ← fetch p.clauseAssertionRoots clauseRow
  if (← read.truth assertion).negative then fetch p.clauseAssertionSourceNodeIDs clauseRow
  else
    let (_, node) ← firstEdge (fun evidence => return (← read.truth evidence).negative)
      "eval: false clause has no negative driver" (p.clauseEvidence clauseRow)
    return node

def firstReasonNode (clauseRow reason : Nat) : Except Panic Nat := do
  let assertion ← fetch p.clauseAssertionRoots clauseRow
  if (← read.reasons assertion).has reason then fetch p.clauseAssertionSourceNodeIDs clauseRow
  else
    let (_, node) ← firstEdge (fun evidence => return (← read.reasons evidence).has reason)
      "eval: unresolved clause has no reason driver" (p.clauseEvidence clauseRow)
    return node

def clauseLane (clauseRow : Nat) : Except Panic Lane := do
  let assertion ← fetch p.clauseAssertionRoots clauseRow
  let lane : Lane := ⟨← read.truth assertion, ← read.reasons assertion⟩
  (p.clauseEvidence clauseRow).foldlM (fun lane (evidence, _) => do
    return ⟨lane.truth.and (← read.truth evidence), lane.reasons ||| (← read.reasons evidence)⟩) lane

def resolveActiveClause (requirement clause : Nat) : Except Panic OutcomeCandidate := do
  let clauseRow := clause - 1
  let lane ← clauseLane p read clauseRow
  match lane.truth with
  | ⟨true, false⟩ =>
    let outcome ← fetch p.clauseOnSatisfied clauseRow
    return {
      requirement, clause, outcome
      explanation := ← fetch p.clauseExplanationIDs
        (clauseRow * clauseExplanationBranchCount + clauseSatisfiedExplanation)
      node := ← fetch p.clauseAssertionSourceNodeIDs clauseRow
      remediations := ← executionClauseRemediations p clauseRow outcome
    }
  | ⟨false, true⟩ =>
    let outcome ← fetch p.clauseOnFalse clauseRow
    return {
      requirement, clause, outcome
      explanation := ← fetch p.clauseExplanationIDs
        (clauseRow * clauseExplanationBranchCount + clauseFalseExplanation)
      node := ← firstNegativeNode p read clauseRow
      remediations := ← executionClauseRemediations p clauseRow outcome
    }
  | _ =>
    match ← p.resolver.resolve clause lane.reasons with
    | none => .error "eval: unresolved clause has no reason"
    | some r => return {
        requirement, clause
        outcome := r.outcome
        explanation := r.explanation
        driverReason := r.reason
        node := ← firstReasonNode p read clauseRow r.reason
        remediations := executionResolutionRemediations r
        reasons := lane.reasons
      }

-- The record that causes a reason. A conflict without a record that is in conflict by itself is
-- caused by the first record that takes a side, the participant.
def causalRecord (stateReasons : List Nat) (predicate : EvidencePredicate) (reason : Nat) :
    List EvidenceRecord → Nat × Nat → Except Panic (Nat × Nat)
  | [], participant =>
    if reason = reasonConflict ∧ participant.1 ≠ 0 then .ok participant
    else .error "eval: evidence reason has no causal record"
  | record :: records, participant =>
    if record.kind ≠ predicate.kind then
      causalRecord stateReasons predicate reason records participant
    else do
      let c := classifyEvidenceRecord record (← stateReason stateReasons record.state) predicate
      if c.reasons.has reason then return (record.id, record.state)
      else if reason = reasonConflict ∧ participant.1 = 0 ∧ (c.positive || c.negative) then
        causalRecord stateReasons predicate reason records (record.id, record.state)
      else causalRecord stateReasons predicate reason records participant

def firstEvidenceReasonRecord (stateReasons : List Nat) (records : List EvidenceRecord)
    (instruction reason : Nat) : Except Panic (Nat × Nat) :=
  if reason = reasonMissing then .ok (0, 0)
  else causalRecord stateReasons (p.evidencePredicate (instruction - 1)) reason records (0, 0)

structure ReasonEntry where
  reason : Nat
  node : Nat
  evidence : Nat
  evidenceState : Nat
  deriving DecidableEq, Repr

def reasonProvenance (stateReasons : List Nat) (records : List EvidenceRecord)
    (candidate : OutcomeCandidate) (reason : Nat) : Except Panic ReasonEntry := do
  if candidate.applicability then return ⟨reason, candidate.node, 0, 0⟩
  else
    let clauseRow := candidate.clause - 1
    let assertion ← fetch p.clauseAssertionRoots clauseRow
    if (← read.reasons assertion).has reason then
      return ⟨reason, ← fetch p.clauseAssertionSourceNodeIDs clauseRow, 0, 0⟩
    else
      let (evidence, node) ← firstEdge (fun evidence => return (← read.reasons evidence).has reason)
        "eval: unresolved clause has no reason provenance" (p.clauseEvidence clauseRow)
      let (id, state) ← firstEvidenceReasonRecord p stateReasons records evidence reason
      return ⟨reason, node, id, state⟩

def preferExecutionCandidate (best candidate : OutcomeCandidate) : Except Panic OutcomeCandidate :=
  match p.outcomes.prefer best.outcome candidate.outcome with
  | none => .error "eval: invalid outcome candidate"
  | some winner => .ok (if best.outcome = 0 ∨ winner ≠ best.outcome then candidate else best)

-- Resolves a clause of an applicable or undecided requirement against the best candidate so far.
def resolveClause (requirementRow requirement : Nat) (truth : Truth) (best : OutcomeCandidate)
    (clause : Nat) : Except Panic OutcomeCandidate := do
  if truth = ⟨true, false⟩ then
    preferExecutionCandidate p best (← resolveActiveClause p read requirement clause)
  else
    let root ← fetch p.requirementRoots requirementRow
    let sourceNode ← fetch p.requirementSourceNodeIDs requirementRow
    preferExecutionCandidate p best (← resolveApplicability p read requirement clause root sourceNode)

def resolveClauses (requirementRow requirement : Nat) (truth : Truth) (best : OutcomeCandidate) :
    Except Panic OutcomeCandidate :=
  let start := p.requirementClauseStarts.getD requirementRow 0
  let count := p.requirementClauseCounts.getD requirementRow 0
  (Region.read p.requirementClauseIDs start count).foldlM
    (resolveClause p read requirementRow requirement truth) best

structure RowScan where
  requirements : List Nat := []
  best : OutcomeCandidate := {}

def visitRequirement (candidates : List Word) (s : RowScan) (requirementRow : Nat) :
    Except Panic RowScan := do
  if !bit candidates requirementRow then return s
  else
    let truth ← read.truth (← fetch p.requirementRoots requirementRow)
    if truth = ⟨false, true⟩ then return s
    else
      let requirement ← fetch p.requirementIDs requirementRow
      return {
        requirements := s.requirements ++ [requirement]
        best := ← resolveClauses p read requirementRow requirement truth s.best
      }

structure Driver where
  requirement : Nat
  clause : Nat
  node : Nat
  reason : Nat
  explanation : Nat
  deriving DecidableEq, Repr

structure RowResult where
  outcome : Nat
  requirements : List Nat
  drivers : List Driver
  evidence : List Nat
  reasons : List ReasonEntry
  remediations : List Nat
  deriving DecidableEq, Repr

def finalizeRow (candidates : List Word) (stateReasons : List Nat) (records : List EvidenceRecord) :
    Except Panic RowResult := do
  let s ← (List.range p.requirementIDs.length).foldlM (visitRequirement p read candidates) {}
  let best := s.best
  let evidence := if p.usesEvidence then records.map (·.id) else []
  if best.outcome = 0 then
    return ⟨0, s.requirements, [], evidence, [], []⟩
  else
    let reasons ← (allReasons.filter best.reasons.has).mapM
      (reasonProvenance p read stateReasons records best)
    return {
      outcome := best.outcome
      requirements := s.requirements
      drivers := [⟨best.requirement, best.clause, best.node, best.driverReason,
        best.explanation⟩]
      evidence := evidence
      reasons := reasons
      remediations := best.remediations
    }

end Row

namespace ResultBatch

def appendRow (dst : ResultBatch) (row : Nat) (r : RowResult) : ResultBatch :=
  let requirementIDs := dst.requirementIDs ++ r.requirements
  let driverNodes := dst.driverNodes ++ r.drivers.map (·.node)
  let evidenceIDs := dst.evidenceIDs ++ r.evidence
  let reasonIDs := dst.reasonIDs ++ r.reasons.map (·.reason)
  let remediationIDs := dst.remediationIDs ++ r.remediations
  { dst with
    outcomeIDs := dst.outcomeIDs.set row r.outcome
    requirementOffsets := dst.requirementOffsets.set (row + 1) (requirementIDs.length % 2 ^ 32)
    requirementIDs := requirementIDs
    driverOffsets := dst.driverOffsets.set (row + 1) (driverNodes.length % 2 ^ 32)
    driverRequirements := dst.driverRequirements ++ r.drivers.map (·.requirement)
    driverClauses := dst.driverClauses ++ r.drivers.map (·.clause)
    driverNodes := driverNodes
    driverReasons := dst.driverReasons ++ r.drivers.map (·.reason)
    driverExplanations := dst.driverExplanations ++ r.drivers.map (·.explanation)
    evidenceOffsets := dst.evidenceOffsets.set (row + 1) (evidenceIDs.length % 2 ^ 32)
    evidenceIDs := evidenceIDs
    reasonOffsets := dst.reasonOffsets.set (row + 1) (reasonIDs.length % 2 ^ 32)
    reasonIDs := reasonIDs
    reasonNodes := dst.reasonNodes ++ r.reasons.map (·.node)
    reasonEvidenceIDs := dst.reasonEvidenceIDs ++ r.reasons.map (·.evidence)
    reasonEvidenceStates := dst.reasonEvidenceStates ++ r.reasons.map (·.evidenceState)
    remediationOffsets := dst.remediationOffsets.set (row + 1) (remediationIDs.length % 2 ^ 32)
    remediationIDs := remediationIDs
  }

end ResultBatch

namespace Executor

def selectors (p : Program) (batch : Batch) (row : Nat) : Except Panic (List (Nat × Bool)) :=
  p.applicabilityIndex.fieldIDs.mapM fun field => do
    let column := (p.fieldIndex.lookup field).elim 0 (·.2)
    let presence ← batch.wordColumn batch.presenceMasks (field - 1)
    if bit presence row then
      return ((← batch.rowColumn batch.symbolValues column).getD row 0, true)
    else return (0, false)

def selectRequirementCandidates (e : Executor) (heap : Heap) (p : Program) (batch : Batch)
    (row : Nat) : Except Panic Executor := do
  let entries ← selectors p batch row
  let selectorValues := e.selectorValues.write 0 (entries.map (·.1))
  let selectorPresent := e.selectorPresent.write 0 (entries.map (·.2))
  let candidates := e.query.bind fun addr =>
    (heap addr).applicabilityIndex.candidates e.candidateWords.toList selectorValues.toList
      selectorPresent.toList
  match candidates with
  | none => .error "eval: invalid bound applicability query"
  | some words =>
    return { e with selectorValues, selectorPresent,
                    candidateWords := e.candidateWords.write 0 words }

def finalizeStep (heap : Heap) (addr : Nat) (batch : Batch) (s : Executor × ResultBatch)
    (row : Nat) : Except Panic (Executor × ResultBatch) := do
  let p := heap addr
  let e ← s.1.selectRequirementCandidates heap p batch row
  let r ← finalizeRow p (e.reader heap p row batch.rows) e.candidateWords.toList e.states.reasons
    (batch.rowEvidence row)
  return (e, s.2.appendRow row r)

def finalizeResults (heap : Heap) (e : Executor) (dst : ResultBatch) (addr : Nat) (batch : Batch) :
    Except Panic (Executor × ResultBatch) :=
  (List.range batch.rows).foldlM (finalizeStep heap addr batch) (e, dst)

end Executor
end NornRune
