import NornRune.Scheduling.Shard

-- How the results of shards are merged into a destination in place. The destination shares no storage
-- with the shards, and the capacity of its columns is not observable.
namespace NornRune

inductive MergeEnding
  | returned
  | failed (e : MergeError)
  | panicked
  deriving DecidableEq, Repr

def rebaseCells (base : Nat) : List Nat → Nat → List Nat → Except (List Nat) (List Nat)
  | dst, _, [] => .ok dst
  | dst, cell, offset :: source =>
    if cell < dst.length then
      rebaseCells base (dst.set cell ((base + offset) % 2 ^ 32)) (cell + 1) source
    else .error dst

namespace ResultBatch

def rebaseOffsets (put : List Nat → ResultBatch) (offsets : List Nat) (rowStart : Nat)
    (source : List Nat) (base : Nat) : Except ResultBatch ResultBatch :=
  match rebaseCells base offsets rowStart source with
  | .ok offsets => .ok (put offsets)
  | .error offsets => .error (put offsets)

def copyOutcomes (dst batch : ResultBatch) (range : RowRange) : Except ResultBatch ResultBatch :=
  if range.start ≤ range.stop ∧ range.stop ≤ dst.outcomeIDs.length then
    .ok { dst with
      outcomeIDs := Region.write dst.outcomeIDs range.start
        (batch.outcomeIDs.take (range.stop - range.start)) }
  else .error dst

def copyShard (dst : ResultBatch) (shard : ResultBatch × RowRange) : Except ResultBatch ResultBatch := do
  let (batch, range) := shard
  let dst ← copyOutcomes dst batch range
  let dst ← rebaseOffsets (fun offsets => { dst with requirementOffsets := offsets })
    dst.requirementOffsets range.start batch.requirementOffsets dst.requirementIDs.length
  let dst := { dst with requirementIDs := dst.requirementIDs ++ batch.requirementIDs }
  let dst ← rebaseOffsets (fun offsets => { dst with driverOffsets := offsets })
    dst.driverOffsets range.start batch.driverOffsets dst.driverRequirements.length
  let dst := { dst with
    driverRequirements := dst.driverRequirements ++ batch.driverRequirements
    driverClauses := dst.driverClauses ++ batch.driverClauses
    driverNodes := dst.driverNodes ++ batch.driverNodes
    driverReasons := dst.driverReasons ++ batch.driverReasons
    driverExplanations := dst.driverExplanations ++ batch.driverExplanations }
  let dst ← rebaseOffsets (fun offsets => { dst with evidenceOffsets := offsets })
    dst.evidenceOffsets range.start batch.evidenceOffsets dst.evidenceIDs.length
  let dst := { dst with evidenceIDs := dst.evidenceIDs ++ batch.evidenceIDs }
  let dst ← rebaseOffsets (fun offsets => { dst with reasonOffsets := offsets })
    dst.reasonOffsets range.start batch.reasonOffsets dst.reasonIDs.length
  let dst := { dst with
    reasonIDs := dst.reasonIDs ++ batch.reasonIDs
    reasonNodes := dst.reasonNodes ++ batch.reasonNodes
    reasonEvidenceIDs := dst.reasonEvidenceIDs ++ batch.reasonEvidenceIDs
    reasonEvidenceStates := dst.reasonEvidenceStates ++ batch.reasonEvidenceStates }
  let dst ← rebaseOffsets (fun offsets => { dst with remediationOffsets := offsets })
    dst.remediationOffsets range.start batch.remediationOffsets dst.remediationIDs.length
  return { dst with remediationIDs := dst.remediationIDs ++ batch.remediationIDs }

def mergeInto (dst : ResultBatch) (shards : List ResultBatch) (ranges : List RowRange) (rows : Nat) :
    ResultBatch × MergeEnding :=
  if shards.length = 0 ∨ shards.length ≠ ranges.length then (dst, .failed .invalidShardResult)
  else match (List.zip shards ranges).foldlM (checkShard rows) (0, {}) with
    | none => (dst, .failed .invalidShardResult)
    | some (covered, _) =>
      if covered ≠ rows then (dst, .failed .invalidShardResult)
      else match dst.reset rows with
        | none => (dst, .failed .batchTooLarge)
        | some dst =>
          match (List.zip shards ranges).foldlM copyShard dst with
          | .ok dst => (dst, .returned)
          | .error dst => (dst, .panicked)

end ResultBatch
end NornRune
