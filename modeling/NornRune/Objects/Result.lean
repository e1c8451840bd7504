import NornRune.Objects.Truth

namespace NornRune

structure OutcomeTable where
  names : List Nat
  precedence : List Nat
  terminal : List Bool

namespace OutcomeTable

def index (t : OutcomeTable) (id : Nat) : Option Nat :=
  if id = 0 ∨ t.names.length ≤ id - 1 ∨ t.precedence.length ≤ id - 1 ∨ t.terminal.length ≤ id - 1
  then none
  else some (id - 1)

structure Outcome where
  name : Nat
  precedence : Nat
  terminal : Bool

def lookup (t : OutcomeTable) (id : Nat) : Option Outcome :=
  (t.index id).map fun i => ⟨t.names.getD i 0, t.precedence.getD i 0, t.terminal.getD i false⟩

-- A higher precedence wins. On a tie the lower ID wins.
def preferKnown (t : OutcomeTable) (current candidate : Nat) : Nat :=
  if current = 0 then candidate
  else if candidate = 0 then current
  else
    let cur := t.precedence.getD (current - 1) 0
    let cand := t.precedence.getD (candidate - 1) 0
    if cur < cand ∨ (cand = cur ∧ candidate < current) then candidate else current

def prefer (t : OutcomeTable) (current candidate : Nat) : Option Nat :=
  if current = 0 then
    if candidate = 0 then some 0 else (t.index candidate).map fun _ => candidate
  else do
    let _ ← t.index current
    if candidate = 0 then some current
    else do
      let _ ← t.index candidate
      some (t.preferKnown current candidate)

def valid (t : OutcomeTable) : Bool :=
  let n := t.names.length
  n != 0 && t.precedence.length == n && t.terminal.length == n && t.names.all (· != 0)

end OutcomeTable

inductive RemediationKind
  | invalid
  | setField
  | addEvidence
  deriving DecidableEq, Repr

structure RemediationTable where
  kinds : List RemediationKind
  fields : List Nat
  values : List Nat
  evidenceKinds : List Nat

namespace RemediationTable

def index (t : RemediationTable) (id : Nat) : Option Nat :=
  if id = 0 ∨ t.kinds.length ≤ id - 1 ∨ t.fields.length ≤ id - 1 ∨ t.values.length ≤ id - 1 ∨
    t.evidenceKinds.length ≤ id - 1 then none
  else some (id - 1)

def validRow (t : RemediationTable) (i : Nat) : Bool :=
  match t.kinds.getD i .invalid with
  | .setField => t.fields.getD i 0 != 0 && t.values.getD i 0 != 0 && t.evidenceKinds.getD i 0 == 0
  | .addEvidence => t.fields.getD i 0 == 0 && t.values.getD i 0 == 0 && t.evidenceKinds.getD i 0 != 0
  | .invalid => false

def valid (t : RemediationTable) : Bool :=
  let n := t.kinds.length
  t.fields.length == n && t.values.length == n && t.evidenceKinds.length == n &&
  (List.range n).all t.validRow

end RemediationTable

-- Nine rows per rule set, one for each reason. Rule set `n` belongs to clause `n`.
structure ResolutionTable where
  outcomeIDs : List Nat
  explanationIDs : List Nat
  remediationStarts : List Nat
  remediationCounts : List Nat
  remediationIDs : List Nat

structure Resolver where
  outcomes : OutcomeTable
  remediations : RemediationTable
  rules : ResolutionTable

inductive TableError
  | invalidOutcomeTable
  | invalidRemediationTable
  | invalidResolutionTable
  | invalidOutcomeReference
  | invalidRemediationReference
  | invalidTemplateTable
  | invalidTemplateReference
  | invalidExplanationTable
  | invalidExplanationReference
  | invalidEvidenceIssueTable
  deriving DecidableEq, Repr

namespace Resolver

def zero : Resolver where
  outcomes := ⟨[], [], []⟩
  remediations := ⟨[], [], [], []⟩
  rules := ⟨[], [], [], [], []⟩

def new (outcomes : OutcomeTable) (remediations : RemediationTable) (rules : ResolutionTable) :
    Except TableError Resolver :=
  let n := rules.outcomeIDs.length
  if !outcomes.valid then .error .invalidOutcomeTable
  else if !remediations.valid then .error .invalidRemediationTable
  else if n = 0 ∨ rules.explanationIDs.length ≠ n ∨ rules.remediationStarts.length ≠ n ∨
      rules.remediationCounts.length ≠ n then .error .invalidResolutionTable
  else if n % reasonCount ≠ 0 then .error .invalidResolutionTable
  else if !rules.outcomeIDs.all (fun id => (outcomes.lookup id).isSome) then
    .error .invalidOutcomeReference
  else if !rules.explanationIDs.all (· != 0) then .error .invalidExplanationReference
  else if !(List.range n).all (fun i => decide
      (rules.remediationStarts.getD i 0 + rules.remediationCounts.getD i 0 ≤
        rules.remediationIDs.length)) then .error .invalidResolutionTable
  else if !rules.remediationIDs.all (fun id => (remediations.index id).isSome) then
    .error .invalidRemediationReference
  else .ok ⟨outcomes, remediations, rules⟩

structure Resolution where
  remediations : List Nat
  outcome : Nat
  explanation : Nat
  reason : Nat
  terminal : Bool

structure Scan where
  current : Nat
  reason : Nat
  winRow : Nat

def scanStep (r : Resolver) (base : Nat) (reasons : ReasonMask) (s : Scan) (off : Nat) : Scan :=
  if reasons.getLsbD off then
    let winner := r.outcomes.preferKnown s.current (r.rules.outcomeIDs.getD (base + off) 0)
    if winner ≠ s.current then ⟨winner, off + 1, base + off⟩ else s
  else s

def scan (r : Resolver) (base : Nat) (reasons : ReasonMask) : Scan :=
  (List.range reasonCount).foldl (r.scanStep base reasons) ⟨0, 0, base⟩

def resolve (r : Resolver) (ruleSet : Nat) (reasons : ReasonMask) :
    Except Panic (Option Resolution) := do
  require reasons.valid "result: invalid reason mask"
  require (ruleSet != 0 && decide (ruleSet ≤ r.rules.outcomeIDs.length / reasonCount))
    "result: invalid rule set"
  if reasons = 0#16 then return none
  else
    let s := r.scan ((ruleSet - 1) * reasonCount) reasons
    return some {
      outcome := s.current
      explanation := r.rules.explanationIDs.getD s.winRow 0
      reason := s.reason
      terminal := r.outcomes.terminal.getD (s.current - 1) false
      remediations := Region.read r.rules.remediationIDs (r.rules.remediationStarts.getD s.winRow 0)
        (r.rules.remediationCounts.getD s.winRow 0)
    }

end Resolver

def maxUncertaintyTemplates : Nat := 8

structure ExplanationTable where
  rationaleTemplateIDs : List Nat
  uncertaintyStarts : List Nat
  uncertaintyCounts : List Nat
  uncertaintyTemplateIDs : List Nat
  assumptionTemplateIDs : List Nat

namespace ExplanationTable

structure Explanation where
  uncertainty : List Nat
  rationale : Nat

def lookup (t : ExplanationTable) (id : Nat) : Option Explanation :=
  if id = 0 then none
  else match t.rationaleTemplateIDs[id - 1]?, t.uncertaintyStarts[id - 1]?,
      t.uncertaintyCounts[id - 1]? with
    | some rationale, some start, some count =>
      let uncertainty := Region.read t.uncertaintyTemplateIDs start count
      if rationale = 0 ∨ maxUncertaintyTemplates < count ∨
          t.uncertaintyTemplateIDs.length < start + count ∨ !uncertainty.all (· != 0) then none
      else some ⟨uncertainty, rationale⟩
    | _, _, _ => none

end ExplanationTable

-- One outcome per request row, and for each row a range of requirements, drivers, evidence, reasons
-- and remediations. The range of row `r` ends where the one of row `r + 1` starts.
@[ext]
structure ResultBatch where
  outcomeIDs : List Nat
  requirementOffsets : List Nat
  requirementIDs : List Nat
  driverOffsets : List Nat
  driverRequirements : List Nat
  driverClauses : List Nat
  driverNodes : List Nat
  driverReasons : List Nat
  driverExplanations : List Nat
  evidenceOffsets : List Nat
  evidenceIDs : List Nat
  reasonOffsets : List Nat
  reasonIDs : List Nat
  reasonNodes : List Nat
  reasonEvidenceIDs : List Nat
  reasonEvidenceStates : List Nat
  remediationOffsets : List Nat
  remediationIDs : List Nat
  rows : Nat
  deriving DecidableEq, Repr

namespace ResultBatch

def empty : ResultBatch where
  outcomeIDs := []
  requirementOffsets := []
  requirementIDs := []
  driverOffsets := []
  driverRequirements := []
  driverClauses := []
  driverNodes := []
  driverReasons := []
  driverExplanations := []
  evidenceOffsets := []
  evidenceIDs := []
  reasonOffsets := []
  reasonIDs := []
  reasonNodes := []
  reasonEvidenceIDs := []
  reasonEvidenceStates := []
  remediationOffsets := []
  remediationIDs := []
  rows := 0

-- Clears the batch and gives it a new shape. The capacity that is kept is not observable.
def reset (_ : ResultBatch) (rows : Nat) : Option ResultBatch :=
  if maxInt < rows + 1 then none
  else some { empty with
    outcomeIDs := List.replicate rows 0
    requirementOffsets := List.replicate (rows + 1) 0
    driverOffsets := List.replicate (rows + 1) 0
    evidenceOffsets := List.replicate (rows + 1) 0
    reasonOffsets := List.replicate (rows + 1) 0
    remediationOffsets := List.replicate (rows + 1) 0
    rows := rows
  }

end ResultBatch
end NornRune
