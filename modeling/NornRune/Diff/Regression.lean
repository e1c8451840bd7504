import NornRune.Diff.Types
import NornRune.Execution.Evidence
import NornRune.Lib.Wire

-- The gate that lets a comparison with forbidden transitions pass if there is an exception for it.
namespace NornRune.Diff

section Encoding

def appendUint32 (dst : List Byte) (value : Nat) : List Byte :=
  dst ++ Wire.put 4 value

def appendUint64 (dst : List Byte) (value : Nat) : List Byte :=
  dst ++ Wire.put 8 value

-- Lengths are written in 32 bits.
def appendText (dst value : List Byte) : List Byte :=
  appendUint32 dst value.length ++ value

def appendField (dst : List Byte) (field : CandidateField) : List Byte :=
  let dst := appendText dst field.name
  let dst := appendText dst field.value.string
  let dst := appendUint64 dst field.value.integer.toNat
  let dst := dst ++ [field.value.state.code, field.value.kind.code]
  if field.value.boolean then dst ++ [1#8] else dst ++ [0#8]

def appendFields (dst : List Byte) (fields : List CandidateField) : List Byte :=
  fields.foldl appendField (appendUint32 dst fields.length)

def appendIDs (dst : List Byte) (values : List (BitVec 32)) : List Byte :=
  values.foldl (fun dst value => appendUint32 dst value.toNat) (appendUint32 dst values.length)

def digestBytes (digest : Digest) : List Byte :=
  Wire.put 32 digest.toNat

def Evaluation.lists (evaluation : Evaluation) : List (List (BitVec 32)) :=
  [evaluation.requirementIDs, evaluation.driverRequirements, evaluation.driverClauses,
    evaluation.driverNodes, evaluation.driverReasons, evaluation.driverExplanations,
    evaluation.evidenceIDs, evaluation.reasonIDs, evaluation.reasonNodes,
    evaluation.reasonEvidenceIDs, evaluation.reasonEvidenceStates, evaluation.remediationIDs]

def Evaluation.words (evaluation : Evaluation) : List (BitVec 32) :=
  [evaluation.sourceStart, evaluation.sourceEnd, evaluation.outcomeID,
    evaluation.decision.code.setWidth 32]

def appendEvaluation (dst : List Byte) (evaluation : Evaluation) : List Byte :=
  let dst := appendUint64 dst evaluation.index.toNat
  let dst := evaluation.words.foldl (fun dst value => appendUint32 dst value.toNat) dst
  let dst := evaluation.lists.foldl appendIDs dst
  let dst := dst ++ digestBytes evaluation.assumptionsDigest
  let dst := dst ++ digestBytes evaluation.driverTemplatesDigest
  dst ++ digestBytes evaluation.evidenceIssuesDigest

def appendEvidence (dst : List Byte) (record : Evidence) : List Byte :=
  let dst := appendText dst record.kind
  let dst := appendText dst record.state
  let dst := appendText dst record.subject
  let dst := appendText dst record.scope
  appendText dst record.timing

def appendCounterexample (dst : List Byte) (counterexample : Counterexample) : List Byte :=
  let dst := appendUint64 dst counterexample.index.toNat
  let dst := appendFields dst counterexample.fields
  let dst := appendUint32 dst counterexample.evidence.length
  let dst := counterexample.evidence.foldl appendEvidence dst
  let dst := appendEvaluation dst counterexample.old
  appendEvaluation dst counterexample.new

end Encoding

-- Times are counted from the zero time.
structure Exception where
  expires : Int
  id : List Byte
  reason : List Byte
  owner : List Byte
  oldDigest : Digest
  newDigest : Digest
  witnessDigest : Digest
  oldDecision : Decision
  newDecision : Decision
  deriving DecidableEq, Repr

def validException (exception : Exception) : Bool :=
  exception.id != [] && exception.reason != [] && exception.owner != [] && exception.expires != 0 &&
    exception.oldDecision.valid && exception.newDecision.valid

structure RegressionDecision where
  exceptionID : List Byte
  reason : List Byte
  allowed : Bool
  deriving DecidableEq, Repr

variable (sha256 : List Byte → Digest)

def counterexampleDigest (counterexample : Counterexample) : Digest :=
  sha256 (appendCounterexample [] counterexample)

def forbiddenCandidates (counts : List Nat) : Option Nat :=
  counts.foldlM (fun candidates count =>
    if maxUint64 - candidates < count then none else some (candidates + count)) 0

def Exception.covers (exception : Exception) (oldSource newSource : List Byte)
    (witness : Counterexample) (now : Int) : Bool :=
  validException exception && decide (now < exception.expires) &&
    exception.oldDigest == sha256 oldSource && exception.newDigest == sha256 newSource &&
    exception.witnessDigest == counterexampleDigest sha256 witness &&
    exception.oldDecision == witness.old.decision && exception.newDecision == witness.new.decision

def checkRegression (result : Result) (oldSource newSource : List Byte) (exceptions : List Exception)
    (now : Int) : RegressionDecision :=
  if result.outcome = .inconclusive then ⟨[], bytes "comparison is inconclusive", false⟩
  else if !result.complete then ⟨[], bytes "comparison is incomplete", false⟩
  else if !result.forbidden then ⟨[], bytes "no forbidden transition", true⟩
  else match forbiddenCandidates ((List.finRange 16).map result.forbiddenTransitions) with
    | none => ⟨[], bytes "forbidden candidate count is invalid", false⟩
    | some candidates =>
      if candidates ≠ 1 then ⟨[], bytes "exceptions require exactly one forbidden candidate", false⟩
      else match result.forbiddenCounterexample with
        | none => ⟨[], bytes "forbidden result has no forbidden counterexample", false⟩
        | some witness =>
          match exceptions.find? (·.covers sha256 oldSource newSource witness now) with
          | none => ⟨[], bytes "forbidden transition has no current exact-match exception", false⟩
          | some exception => ⟨exception.id, exception.reason, true⟩

end NornRune.Diff
