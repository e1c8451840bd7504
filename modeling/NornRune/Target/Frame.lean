import NornRune.Objects.Batch
import NornRune.Objects.Result
import NornRune.Target.Leaf

-- Frames carry the input and the result of an evaluation across the boundary of a module.
namespace NornRune

def frameMagic : Nat := 0x4e525746

inductive FrameKind
  | input
  | result
  deriving DecidableEq, Repr

def FrameKind.tag : FrameKind → Nat
  | input => 1
  | result => 2

inductive TargetError
  | incompatibleVersion
  | invalidManifest
  | invalidLimits
  | invalidArtifact
  | invalidFrame
  deriving DecidableEq, Repr

def frameFormat (maxBytes : UInt64) (maxSections : UInt32) : Format where
  magic := frameMagic
  headerBytes := frameHeaderBytes
  maxBytes := maxBytes.toNat
  maxSections := maxSections.toNat

-- An encoder keeps the buffers of its sections for the next call. All else of a section is
-- overwritten.
structure FrameEncoder where
  buffers : Slice (Slice Byte)

namespace FrameEncoder

variable {σ : Type}

def zero : FrameEncoder where
  buffers := .empty

def encode (sha : Digest) (encoder : FrameEncoder) (dst : List Byte) (kind : FrameKind)
    (leaves : List (ProgramLeaf σ)) (value : σ) (maxBytes : UInt64) (maxSections : UInt32) :
    FrameEncoder × Except TargetError (List Byte) :=
  let count := leaves.length
  if maxUint16 < count ∨ maxSections.toNat < count then (encoder, .error .invalidFrame)
  else
    match fillSections value leaves 0 (encoder.buffers.resize .empty count) with
    | (buffers, none) => (⟨buffers⟩, .error .invalidFrame)
    | (buffers, some sections) =>
      match buildSections sha dst (frameFormat maxBytes maxSections) kind.tag 0 .zero sections with
      | none => (⟨buffers⟩, .error .invalidFrame)
      | some encoded => (⟨buffers⟩, .ok encoded)

end FrameEncoder

-- The destination is replaced leaf by leaf, also if the call fails in the end.
def decodeFrame {σ : Type} (sha : Digest) (dst : σ) (leaves : List (ProgramLeaf σ)) (src : List Byte)
    (want : FrameKind) (maxBytes : UInt64) (maxSections : UInt32) : σ × Except TargetError Unit :=
  match preflightSections sha src (frameFormat maxBytes maxSections) with
  | none => (dst, .error .invalidFrame)
  | some (header, descriptors) =>
    if header.profile ≠ want.tag ∨ header.capabilities ≠ 0 then (dst, .error .invalidFrame)
    else
      match decodeSections src descriptors leaves 0 dst with
      | (dst, none) => (dst, .error .invalidFrame)
      | (dst, some row) => (dst, if row ≠ descriptors.length then .error .invalidFrame else .ok ())

def validOffsets (offsets : List Nat) (rows edgeCount : Nat) : Bool :=
  offsets.length == rows + 1 && offsets.head? == some 0 && offsets.getLast? == some edgeCount &&
  (offsets.zip offsets.tail).all fun (previous, offset) =>
    decide (previous ≤ offset) && decide (offset ≤ edgeCount)

namespace Batch

def leaves : List (ProgramLeaf Batch) := [
    .slice .uint32 (·.symbolValues) fun xs =>
      if h : xs.length ≤ maxInt / 4 then
        some fun b => { b with symbolValues := xs, symbolValues_le := h }
      else none,
    .column .int64 (·.integerValues) fun xs b => { b with integerValues := xs },
    .column .int64 (·.timestampValues) fun xs b => { b with timestampValues := xs },
    .column .word64 (·.booleanValues) fun xs b => { b with booleanValues := xs },
    .column .word64 (·.presenceMasks) fun xs b => { b with presenceMasks := xs },
    .column .uint32 (·.requestIDs) fun xs b => { b with requestIDs := xs },
    .column .uint32 (·.evidenceOffsets) fun xs b => { b with evidenceOffsets := xs },
    .column .uint32 (·.evidenceRefs) fun xs b => { b with evidenceRefs := xs },
    .column .uint32 (·.evidence.ids) fun xs b => { b with evidence.ids := xs },
    .column .uint32 (·.evidence.kinds) fun xs b => { b with evidence.kinds := xs },
    .column .uint32 (·.evidence.states) fun xs b => { b with evidence.states := xs },
    .column .uint32 (·.evidence.subjects) fun xs b => { b with evidence.subjects := xs },
    .column .uint32 (·.evidence.scopes) fun xs b => { b with evidence.scopes := xs },
    .column .uint32 (·.evidence.reviewers) fun xs b => { b with evidence.reviewers := xs },
    .column .uint32 (·.evidence.timings) fun xs b => { b with evidence.timings := xs },
    .column .int64 (·.evidence.timestamps) fun xs b => { b with evidence.timestamps := xs },
    .scalar .uint32 (·.rows) fun n => some fun b => { b with rows := n }
  ]

def typed (b : Batch) : Bool :=
  leaves.all (·.typed b)

def validInput (b : Batch) : Bool :=
  let evidenceRows := b.evidence.ids.length
  b.requestIDs.length == b.rows && validOffsets b.evidenceOffsets b.rows b.evidenceRefs.length &&
  b.requestIDs.all (· != 0) &&
  b.evidence.kinds.length == evidenceRows && b.evidence.states.length == evidenceRows &&
  b.evidence.subjects.length == evidenceRows && b.evidence.scopes.length == evidenceRows &&
  b.evidence.reviewers.length == evidenceRows && b.evidence.timings.length == evidenceRows &&
  b.evidence.timestamps.length == evidenceRows &&
  (List.range evidenceRows).all (fun row => b.evidence.ids.getD row 0 != 0 &&
    b.evidence.kinds.getD row 0 != 0 && b.evidence.states.getD row 0 != 0) &&
  b.evidenceRefs.all fun ref => decide (ref < evidenceRows)

end Batch

namespace ResultBatch

def leaves : List (ProgramLeaf ResultBatch) := [
    .column .uint32 (·.outcomeIDs) fun xs b => { b with outcomeIDs := xs },
    .column .uint32 (·.requirementOffsets) fun xs b => { b with requirementOffsets := xs },
    .column .uint32 (·.requirementIDs) fun xs b => { b with requirementIDs := xs },
    .column .uint32 (·.driverOffsets) fun xs b => { b with driverOffsets := xs },
    .column .uint32 (·.driverRequirements) fun xs b => { b with driverRequirements := xs },
    .column .uint32 (·.driverClauses) fun xs b => { b with driverClauses := xs },
    .column .uint32 (·.driverNodes) fun xs b => { b with driverNodes := xs },
    .column .uint32 (·.driverReasons) fun xs b => { b with driverReasons := xs },
    .column .uint32 (·.driverExplanations) fun xs b => { b with driverExplanations := xs },
    .column .uint32 (·.evidenceOffsets) fun xs b => { b with evidenceOffsets := xs },
    .column .uint32 (·.evidenceIDs) fun xs b => { b with evidenceIDs := xs },
    .column .uint32 (·.reasonOffsets) fun xs b => { b with reasonOffsets := xs },
    .column .uint32 (·.reasonIDs) fun xs b => { b with reasonIDs := xs },
    .column .uint32 (·.reasonNodes) fun xs b => { b with reasonNodes := xs },
    .column .uint32 (·.reasonEvidenceIDs) fun xs b => { b with reasonEvidenceIDs := xs },
    .column .uint32 (·.reasonEvidenceStates) fun xs b => { b with reasonEvidenceStates := xs },
    .column .uint32 (·.remediationOffsets) fun xs b => { b with remediationOffsets := xs },
    .column .uint32 (·.remediationIDs) fun xs b => { b with remediationIDs := xs },
    .scalar .uint32 (·.rows) fun n => some fun b => { b with rows := n }
  ]

def typed (b : ResultBatch) : Bool :=
  leaves.all (·.typed b)

def validResult (b : ResultBatch) : Bool :=
  let drivers := b.driverRequirements.length
  let reasons := b.reasonIDs.length
  b.outcomeIDs.length == b.rows &&
  validOffsets b.requirementOffsets b.rows b.requirementIDs.length &&
  validOffsets b.driverOffsets b.rows drivers &&
  validOffsets b.evidenceOffsets b.rows b.evidenceIDs.length &&
  validOffsets b.reasonOffsets b.rows reasons &&
  validOffsets b.remediationOffsets b.rows b.remediationIDs.length &&
  b.driverClauses.length == drivers && b.driverNodes.length == drivers &&
  b.driverReasons.length == drivers && b.driverExplanations.length == drivers &&
  b.reasonNodes.length == reasons && b.reasonEvidenceIDs.length == reasons &&
  b.reasonEvidenceStates.length == reasons

end ResultBatch

section Frames

variable (sha : Digest) (limits : Limits)

def FrameEncoder.encodeInput (encoder : FrameEncoder) (dst : List Byte) (input : Batch) :
    FrameEncoder × Except TargetError (List Byte) :=
  if limits.maxRows.toNat < input.rows ∨ !input.validInput then (encoder, .error .invalidFrame)
  else encoder.encode sha dst .input Batch.leaves input limits.maxInputBytes limits.maxProgramColumns

def FrameEncoder.encodeResult (encoder : FrameEncoder) (dst : List Byte) (output : ResultBatch) :
    FrameEncoder × Except TargetError (List Byte) :=
  if limits.maxRows.toNat < output.rows ∨ !output.validResult then (encoder, .error .invalidFrame)
  else
    encoder.encode sha dst .result ResultBatch.leaves output limits.maxOutputBytes
      limits.maxProgramColumns

def encodeInputFrame (dst : List Byte) (input : Batch) : Except TargetError (List Byte) :=
  (FrameEncoder.zero.encodeInput sha limits dst input).2

def decodeInputFrame (dst : Batch) (src : List Byte) : Batch × Except TargetError Unit :=
  match decodeFrame sha dst Batch.leaves src .input limits.maxInputBytes limits.maxProgramColumns with
  | (dst, .error _) => (dst, .error .invalidFrame)
  | (dst, .ok ()) =>
    (dst, if limits.maxRows.toNat < dst.rows ∨ !dst.validInput then .error .invalidFrame else .ok ())

def decodeResultFrame (dst : ResultBatch) (src : List Byte) : ResultBatch × Except TargetError Unit :=
  match decodeFrame sha dst ResultBatch.leaves src .result limits.maxOutputBytes
      limits.maxProgramColumns with
  | (dst, .error _) => (dst, .error .invalidFrame)
  | (dst, .ok ()) =>
    (dst, if limits.maxRows.toNat < dst.rows ∨ !dst.validResult then .error .invalidFrame else .ok ())

end Frames
end NornRune
