import NornRune.Execution.Predicate

open Bitplane

namespace NornRune

-- The text of a string constant of the source.
def bytes (s : String) : List Byte :=
  s.toList.map fun c => BitVec.ofNat 8 c.toNat

-- Programs live at addresses. A binding to a program compares addresses, not contents.
abbrev Heap := Nat → Program

-- The reason that a record in a given state stands for, per evidence state of the bound program.
structure EvidenceStateIndex where
  program : Option Nat
  reasons : List Nat

namespace EvidenceStateIndex

def empty : EvidenceStateIndex := ⟨none, []⟩

def classifyName (name : List Byte) : Nat :=
  if name = bytes "stale" then reasonStale
  else if name = bytes "unclear" then reasonUnclear
  else if name = bytes "unverifiable" then reasonUnverifiable
  else if name = bytes "invalid" then reasonInvalid
  else if name = bytes "conflict" ∨ name = bytes "conflicting" then reasonConflict
  else 0

def classify (p : Program) : Option (List Nat) :=
  p.evidenceStateNames.mapM fun name => (p.symbol name).map classifyName

def bind (i : EvidenceStateIndex) (heap : Heap) (addr : Nat) : Option EvidenceStateIndex :=
  if i.program = some addr then some i
  else (classify (heap addr)).map fun reasons => ⟨some addr, reasons⟩

-- An index after some bindings. One that fails leaves the index as it was.
def binds (heap : Heap) (addrs : List Nat) : EvidenceStateIndex :=
  addrs.foldl (fun i addr => (i.bind heap addr).getD i) empty

end EvidenceStateIndex

structure EvidencePredicate where
  kind : Nat
  state : Nat
  subject : Nat
  scope : Nat
  timing : Nat

def evidenceQualifier (column : List Nat) (row : Nat) : Nat :=
  if column.length = 0 then 0 else column.getD row 0

def Program.evidencePredicate (p : Program) (row : Nat) : EvidencePredicate where
  kind := p.evidenceKinds.getD row 0
  state := p.evidenceStates.getD row 0
  subject := evidenceQualifier p.evidenceSubjects row
  scope := evidenceQualifier p.evidenceScopes row
  timing := evidenceQualifier p.evidenceTimings row

structure EvidenceRecordClassification where
  reasons : ReasonMask
  positive : Bool
  negative : Bool

def classifyEvidenceRecord (record : EvidenceRecord) (stateReason : Nat)
    (predicate : EvidencePredicate) : EvidenceRecordClassification :=
  let stateMatches := record.state == predicate.state
  let stateReason := if stateMatches then 0 else stateReason
  let wrong (expected actual reason : Nat) : ReasonMask :=
    if expected != 0 && actual != expected then ReasonMask.reasonBit reason else 0#16
  let qualifierReasons :=
    wrong predicate.subject record.subject reasonWrongSubject |||
    wrong predicate.scope record.scope reasonWrongScope |||
    wrong predicate.timing record.timing reasonWrongTiming
  {
    reasons := ReasonMask.reasonBit stateReason ||| qualifierReasons
    positive := (stateMatches && qualifierReasons == 0#16) || stateReason == reasonConflict
    negative := !stateMatches && (stateReason == 0 || stateReason == reasonConflict)
  }

namespace Batch

def rowEvidence (b : Batch) (row : Nat) : List EvidenceRecord :=
  let start := b.evidenceOffsets.getD row 0
  let stop := b.evidenceOffsets.getD (row + 1) 0
  (Region.read b.evidenceRefs start (stop - start)).map b.evidence.record

end Batch

def validEvidenceBatch (batch : Batch) (p : Program) : Bool :=
  let evidence := batch.evidence
  let rows := evidence.ids.length
  let offsets := batch.evidenceOffsets
  batch.requestIDs.length == batch.rows && offsets.length == batch.rows + 1 &&
  offsets.getD 0 0 == 0 && offsets.getD (offsets.length - 1) 0 == batch.evidenceRefs.length &&
  evidence.kinds.length == rows && evidence.states.length == rows &&
  evidence.subjects.length == rows && evidence.scopes.length == rows &&
  evidence.reviewers.length == rows && evidence.timings.length == rows &&
  evidence.timestamps.length == rows &&
  (List.range batch.rows).all (fun i => decide (offsets.getD i 0 ≤ offsets.getD (i + 1) 0) &&
    decide (offsets.getD (i + 1) 0 ≤ batch.evidenceRefs.length)) &&
  batch.evidenceRefs.all (fun ref => decide (ref < rows)) &&
  (List.range rows).all fun row =>
    evidence.ids.getD row 0 != 0 &&
    evidence.kinds.getD row 0 != 0 &&
    decide (evidence.kinds.getD row 0 ≤ p.evidenceKindNames.length) &&
    evidence.states.getD row 0 != 0 &&
    decide (evidence.states.getD row 0 ≤ p.evidenceStateNames.length)

def requireEvidencePredicate (heap : Heap) (addr : Nat) (states : EvidenceStateIndex)
    (predicate : EvidencePredicate) : Except Panic Unit :=
  let p := heap addr
  require (states.program == some addr && states.reasons.length == p.evidenceStateNames.length &&
    predicate.kind != 0 && decide (predicate.kind ≤ p.evidenceKindNames.length) &&
    predicate.state != 0 && decide (predicate.state ≤ p.evidenceStateNames.length))
    "eval: invalid evidence predicate"

def stateReason (reasons : List Nat) (state : Nat) : Except Panic Nat :=
  if state = 0 then .error outOfRange else fetch reasons (state - 1)

structure EvidenceScan where
  foundKind : Bool
  positive : Bool
  negative : Bool
  reasons : ReasonMask

def evidenceStep (reasons : List Nat) (predicate : EvidencePredicate) (s : EvidenceScan)
    (record : EvidenceRecord) : Except Panic EvidenceScan :=
  if record.kind ≠ predicate.kind then .ok s
  else do
    let c := classifyEvidenceRecord record (← stateReason reasons record.state) predicate
    return {
      foundKind := true
      positive := s.positive || c.positive
      negative := s.negative || c.negative
      reasons := s.reasons ||| c.reasons
    }

@[ext]
structure Lane where
  truth : Truth
  reasons : ReasonMask
  deriving DecidableEq, Repr

def EvidenceScan.lane (s : EvidenceScan) : Lane :=
  let reasons := if s.foundKind then s.reasons else s.reasons.with' reasonMissing
  let reasons := if s.positive && s.negative then reasons.with' reasonConflict else reasons
  ⟨⟨s.positive, s.negative⟩, reasons⟩

def evidenceLane (reasons : List Nat) (predicate : EvidencePredicate)
    (records : List EvidenceRecord) : Except Panic Lane := do
  let s ← records.foldlM (evidenceStep reasons predicate) ⟨false, false, false, 0#16⟩
  return s.lane

def evalEvidenceUnchecked (dst : Planes) (reasons : List Word) (batch : Batch)
    (states : EvidenceStateIndex) (predicate : EvidencePredicate) : Except Panic Leaf := do
  let words := wordCount batch.rows
  let leaf ← resetLeafOutputs dst reasons batch.rows
  let lanes ← (List.range batch.rows).mapM fun row =>
    evidenceLane states.reasons predicate (batch.rowEvidence row)
  let lane row := lanes.getD row ⟨⟨false, false⟩, 0#16⟩
  return {
    truth := {
      positive := setWhere (fun row => (lane row).truth.positive) batch.rows leaf.truth.positive
      negative := setWhere (fun row => (lane row).truth.negative) batch.rows leaf.truth.negative
    }
    reasons := allReasons.foldl (fun ws reason => ReasonPlanes.setPlane ws reason words
      (setWhere (fun row => (lane row).reasons.has reason) batch.rows
        (ReasonPlanes.plane ws reason words))) leaf.reasons
  }

def evalEvidenceValidated (dst : Planes) (reasons : List Word) (batch : Batch) (heap : Heap)
    (addr : Nat) (states : EvidenceStateIndex) (predicate : EvidencePredicate) :
    Except Panic Leaf := do
  requireEvidencePredicate heap addr states predicate
  evalEvidenceUnchecked dst reasons batch states predicate

def requireEvidenceBatch (batch : Batch) (heap : Heap) (addr : Nat) (states : EvidenceStateIndex) :
    Except Panic Unit := do
  require (states.program == some addr &&
    states.reasons.length == (heap addr).evidenceStateNames.length) "eval: invalid evidence program"
  require (validEvidenceBatch batch (heap addr)) "eval: invalid evidence batch"

def evalEvidence (dst : Planes) (reasons : List Word) (batch : Batch) (heap : Heap) (addr : Nat)
    (states : EvidenceStateIndex) (predicate : EvidencePredicate) : Except Panic Leaf := do
  requireEvidencePredicate heap addr states predicate
  requireEvidenceBatch batch heap addr states
  evalEvidenceUnchecked dst reasons batch states predicate

end NornRune
