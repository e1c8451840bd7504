import NornRune.Objects.Schema

-- The vocabulary of policy comparisons.
namespace NornRune.Diff

inductive Outcome
  | invalid
  | equivalent
  | widened
  | narrowed
  | changed
  | inconclusive
  deriving DecidableEq, Repr

-- A decision is a byte, which need not be the code of one.
structure Decision where
  code : Byte
  deriving DecidableEq, Repr

namespace Decision

def approve : Decision := ⟨1⟩
def reject : Decision := ⟨2⟩
def escalate : Decision := ⟨4⟩

def valid (decision : Decision) : Bool :=
  approve.code ≤ decision.code && decision.code ≤ escalate.code

end Decision

structure FieldKind where
  code : Byte
  deriving DecidableEq, Repr

namespace FieldKind

def presence : FieldKind := ⟨5⟩

end FieldKind

structure ValueState where
  code : Byte
  deriving DecidableEq, Repr

namespace ValueState

def present : ValueState := ⟨2⟩

end ValueState

structure Value where
  string : List Byte
  integer : BitVec 64
  state : ValueState
  kind : FieldKind
  boolean : Bool
  deriving DecidableEq, Repr

structure Evidence where
  kind : List Byte
  state : List Byte
  subject : List Byte
  scope : List Byte
  timing : List Byte
  deriving DecidableEq, Repr

structure CandidateField where
  name : List Byte
  value : Value
  deriving DecidableEq, Repr

abbrev Digest := BitVec 256

structure Evaluation where
  requirementIDs : List (BitVec 32)
  driverRequirements : List (BitVec 32)
  driverClauses : List (BitVec 32)
  driverNodes : List (BitVec 32)
  driverReasons : List (BitVec 32)
  driverExplanations : List (BitVec 32)
  evidenceIDs : List (BitVec 32)
  reasonIDs : List (BitVec 32)
  reasonNodes : List (BitVec 32)
  reasonEvidenceIDs : List (BitVec 32)
  reasonEvidenceStates : List (BitVec 32)
  remediationIDs : List (BitVec 32)
  index : BitVec 64
  assumptionsDigest : Digest
  driverTemplatesDigest : Digest
  evidenceIssuesDigest : Digest
  sourceStart : BitVec 32
  sourceEnd : BitVec 32
  outcomeID : BitVec 32
  decision : Decision
  deriving DecidableEq, Repr

structure Counterexample where
  fields : List CandidateField
  evidence : List Evidence
  old : Evaluation
  new : Evaluation
  index : BitVec 64
  deriving DecidableEq, Repr

inductive Uncertainty
  | none
  | unsupportedCatalog
  | candidateBudget
  | uncovered
  | evidenceBudget
  | prover
  | replay
  | unsupportedDecision
  | openDomain
  deriving DecidableEq, Repr

-- A counterexample that was not found is the zero value of its type, and not looked at.
structure Result where
  uncertainty : Uncertainty
  counterexample : Option Counterexample
  forbiddenCounterexample : Option Counterexample
  transitions : Fin 16 → Nat
  forbiddenTransitions : Fin 16 → Nat
  candidates : Nat
  outcome : Outcome
  complete : Bool
  forbidden : Bool

end NornRune.Diff
