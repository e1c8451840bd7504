import NornRune.Execution.Row
import NornRune.Lib.Ragged

open Bitplane

-- What an execution delivers, request by request: no scratch, no cache and no choice of evaluators.
namespace NornRune

namespace Lanes

def clear : Lanes where
  truth := fun _ => .bottom
  reasons := fun _ => 0#16

def final (p : Program) (stateReasons : List Nat) (facts : Row) (code : List Instr) : Lanes :=
  run p stateReasons facts 0 code clear

def reader (p : Program) (s : Lanes) : LaneReader where
  truth instruction :=
    if p.truthSlotOf instruction = 0 then .error "eval: invalid truth slot"
    else .ok (s.truth (p.truthSlotOf instruction))
  reasons instruction :=
    if p.reasonSlotOf instruction = 0 then .error "eval: invalid reason slot"
    else .ok (s.reasons (p.reasonSlotOf instruction))

end Lanes

namespace Program

-- The instructions of a program, unless one of them lacks its field or its literals.
def code (p : Program) : Except Panic (List Instr) :=
  (List.range p.opcodes.length).mapM (resolveInstr p)

def selector (p : Program) (facts : Row) (field : Nat) : Nat × Bool :=
  let column := (p.fieldIndex.lookup field).elim 0 (·.2)
  if facts.present field then (facts.symbol column, true) else (0, false)

def candidates (p : Program) (facts : Row) : List Word :=
  let policy := p.applicabilityIndex
  let selectors := policy.fieldIDs.map (p.selector facts)
  policy.candidatesFrom (selectors.map (·.1)) (selectors.map (·.2)) (List.range policy.fieldIDs.length)
    policy.allMask

def evalRow (p : Program) (stateReasons : List Nat) (code : List Instr) (facts : Row) :
    Except Panic RowResult :=
  finalizeRow p (Lanes.reader p (Lanes.final p stateReasons facts code)) (p.candidates facts)
    stateReasons facts.evidence

end Program

namespace ResultBatch

-- Offsets are stored in 32 bits.
def offsets {α : Type} (rows : List (List α)) : List Nat :=
  (Ragged.offsets rows).map (· % 2 ^ 32)

def filled (n : Nat) (rs : List RowResult) : ResultBatch :=
  let rest := List.replicate (n - rs.length) 0
  {
    outcomeIDs := rs.map (·.outcome) ++ rest
    requirementOffsets := offsets (rs.map (·.requirements)) ++ rest
    requirementIDs := (rs.map (·.requirements)).flatten
    driverOffsets := offsets (rs.map (·.drivers)) ++ rest
    driverRequirements := (rs.map (·.drivers)).flatten.map (·.requirement)
    driverClauses := (rs.map (·.drivers)).flatten.map (·.clause)
    driverNodes := (rs.map (·.drivers)).flatten.map (·.node)
    driverReasons := (rs.map (·.drivers)).flatten.map (·.reason)
    driverExplanations := (rs.map (·.drivers)).flatten.map (·.explanation)
    evidenceOffsets := offsets (rs.map (·.evidence)) ++ rest
    evidenceIDs := (rs.map (·.evidence)).flatten
    reasonOffsets := offsets (rs.map (·.reasons)) ++ rest
    reasonIDs := (rs.map (·.reasons)).flatten.map (·.reason)
    reasonNodes := (rs.map (·.reasons)).flatten.map (·.node)
    reasonEvidenceIDs := (rs.map (·.reasons)).flatten.map (·.evidence)
    reasonEvidenceStates := (rs.map (·.reasons)).flatten.map (·.evidenceState)
    remediationOffsets := offsets (rs.map (·.remediations)) ++ rest
    remediationIDs := (rs.map (·.remediations)).flatten
    rows := n
  }

def ofRows (rs : List RowResult) : ResultBatch :=
  filled rs.length rs

end ResultBatch

-- The outcome of a call. The text of a panic is not observed.
inductive Outcome
  | returned (batch : ResultBatch)
  | failed (f : Fault)
  | panicked
  deriving DecidableEq, Repr

def Outcome.ofRows : Except Panic (List RowResult) → Outcome
  | .error _ => .panicked
  | .ok rs => .returned (.ofRows rs)

namespace Program

def evalRows (p : Program) (stateReasons : List Nat) (batch : Batch) : Except Panic (List RowResult) :=
  p.code.bind fun code => (List.range batch.rows).mapM fun r => p.evalRow stateReasons code (batch.row r)

def evaluate (p : Program) (batch : Batch) : Outcome :=
  match checkExecution true p batch with
  | .error f => .failed f
  | .ok _ =>
    if !p.applicabilityIndex.validBoundPolicy then .failed .invalidProgram
    else match EvidenceStateIndex.classify p with
      | none => .failed .invalidProgram
      | some stateReasons => .ofRows (p.evalRows stateReasons batch)

end Program
end NornRune
