import NornRune.Execution.Theorems.Reuse

open Bitplane

namespace NornRune

structure RowRange where
  start : Nat
  stop : Nat
  deriving DecidableEq, Repr

def partitionStep (rows perShard extra : Nat) (s : Nat × List RowRange) (shard : Nat) :
    Nat × List RowRange :=
  let wordStop := s.1 + if shard < extra then perShard + 1 else perShard
  (wordStop, s.2 ++ [⟨s.1 * 64, min (wordStop * 64) rows⟩])

def shardCount (capacity rows : Nat) (shards : Int) : Nat :=
  let count := min (max shards 1).toNat capacity
  if wordCount rows = 0 then 1 else min count (wordCount rows)

-- Splits the rows of a batch into ranges that start at multiples of 64 rows.
def partitionRows (capacity rows : Nat) (shards : Int) : List RowRange :=
  if capacity = 0 then []
  else
    let count := shardCount capacity rows shards
    let words := wordCount rows
    ((List.range count).foldl (partitionStep rows (words / count) (words % count)) (0, [])).2

inductive MergeError
  | invalidShardResult
  | batchTooLarge
  deriving DecidableEq, Repr

def validShardCSR (offsets : List Nat) (edgeCount rows : Nat) : Option Nat :=
  let last := offsets.getD (offsets.length - 1) 0
  if maxInt < rows + 1 ∨ offsets.length ≠ rows + 1 ∨ offsets.getD 0 0 ≠ 0 ∨
      !(List.range rows).all (fun i => decide (offsets.getD i 0 ≤ offsets.getD (i + 1) 0)) ∨
      last ≠ edgeCount then none
  else some last

def addMergeEdges (total count : Nat) : Option Nat :=
  if maxUint32 < total + count then none else some (total + count)

structure MergeTotals where
  requirements : Nat := 0
  drivers : Nat := 0
  evidence : Nat := 0
  reasons : Nat := 0
  remediations : Nat := 0

def checkShard (rows : Nat) (s : Nat × MergeTotals) (shard : ResultBatch × RowRange) :
    Option (Nat × MergeTotals) := do
  let (batch, range) := shard
  guard (range.start = s.1 ∧ range.start ≤ range.stop ∧ range.stop ≤ rows ∧
    range.stop - range.start = batch.rows ∧ batch.outcomeIDs.length = batch.rows)
  let requirements ← validShardCSR batch.requirementOffsets batch.requirementIDs.length batch.rows
  let drivers ← validShardCSR batch.driverOffsets batch.driverRequirements.length batch.rows
  guard (batch.driverClauses.length = drivers ∧ batch.driverNodes.length = drivers ∧
    batch.driverReasons.length = drivers ∧ batch.driverExplanations.length = drivers)
  let evidence ← validShardCSR batch.evidenceOffsets batch.evidenceIDs.length batch.rows
  let reasons ← validShardCSR batch.reasonOffsets batch.reasonIDs.length batch.rows
  guard (batch.reasonNodes.length = reasons ∧ batch.reasonEvidenceIDs.length = reasons ∧
    batch.reasonEvidenceStates.length = reasons)
  let remediations ← validShardCSR batch.remediationOffsets batch.remediationIDs.length batch.rows
  return (range.stop, {
    requirements := ← addMergeEdges s.2.requirements requirements
    drivers := ← addMergeEdges s.2.drivers drivers
    evidence := ← addMergeEdges s.2.evidence evidence
    reasons := ← addMergeEdges s.2.reasons reasons
    remediations := ← addMergeEdges s.2.remediations remediations
  })

-- Offsets are added in 32 bits.
def rebaseShardOffsets (dst : List Nat) (rowStart : Nat) (source : List Nat) (base : Nat) : List Nat :=
  Region.write dst rowStart (source.map fun offset => (base + offset) % 2 ^ 32)

def mergeShard (dst : ResultBatch) (shard : ResultBatch × RowRange) : ResultBatch :=
  let (batch, range) := shard
  { dst with
    outcomeIDs := Region.write dst.outcomeIDs range.start batch.outcomeIDs
    requirementOffsets := rebaseShardOffsets dst.requirementOffsets range.start
      batch.requirementOffsets dst.requirementIDs.length
    requirementIDs := dst.requirementIDs ++ batch.requirementIDs
    driverOffsets := rebaseShardOffsets dst.driverOffsets range.start batch.driverOffsets
      dst.driverRequirements.length
    driverRequirements := dst.driverRequirements ++ batch.driverRequirements
    driverClauses := dst.driverClauses ++ batch.driverClauses
    driverNodes := dst.driverNodes ++ batch.driverNodes
    driverReasons := dst.driverReasons ++ batch.driverReasons
    driverExplanations := dst.driverExplanations ++ batch.driverExplanations
    evidenceOffsets := rebaseShardOffsets dst.evidenceOffsets range.start batch.evidenceOffsets
      dst.evidenceIDs.length
    evidenceIDs := dst.evidenceIDs ++ batch.evidenceIDs
    reasonOffsets := rebaseShardOffsets dst.reasonOffsets range.start batch.reasonOffsets
      dst.reasonIDs.length
    reasonIDs := dst.reasonIDs ++ batch.reasonIDs
    reasonNodes := dst.reasonNodes ++ batch.reasonNodes
    reasonEvidenceIDs := dst.reasonEvidenceIDs ++ batch.reasonEvidenceIDs
    reasonEvidenceStates := dst.reasonEvidenceStates ++ batch.reasonEvidenceStates
    remediationOffsets := rebaseShardOffsets dst.remediationOffsets range.start
      batch.remediationOffsets dst.remediationIDs.length
    remediationIDs := dst.remediationIDs ++ batch.remediationIDs
  }

def mergeResults (dst : ResultBatch) (shards : List ResultBatch) (ranges : List RowRange)
    (rows : Nat) : Except MergeError ResultBatch :=
  if shards.length = 0 ∨ shards.length ≠ ranges.length then .error .invalidShardResult
  else match (List.zip shards ranges).foldlM (checkShard rows) (0, {}) with
    | none => .error .invalidShardResult
    | some (covered, _) =>
      if covered ≠ rows then .error .invalidShardResult
      else match dst.reset rows with
        | none => .error .batchTooLarge
        | some dst => .ok ((List.zip shards ranges).foldl mergeShard dst)

structure Worker where
  past : List Call
  dst : ResultBatch
  evidenceOffsets : Slice Nat

namespace Scheduler

variable (k : Kernels) (heap : Heap)

-- Runs one shard. A range that covers the whole batch is executed as the batch it is.
def executeShard (w : Worker) (addr : Nat) (batch : Batch) (range : RowRange) : Outcome :=
  let e := Executor.calls k heap w.past
  if range.start = 0 ∧ range.stop = batch.rows then
    let r := e.execute k heap w.dst addr batch
    Outcome.of r.2.1 r.2.2
  else
    let scratch := (w.evidenceOffsets.resize 0 (range.stop - range.start + 1)).toList
    let r := e.executeRange k heap w.dst addr batch range.start range.stop scratch
    Outcome.of r.2.1 r.2.2

inductive Result
  | merged (batch : ResultBatch)
  | shardFailed (f : Fault)
  | mergeFailed (f : MergeError)
  | panicked
  deriving DecidableEq, Repr

def collect : List Outcome → Except Result (List ResultBatch)
  | [] => .ok []
  | .returned b :: rest => (collect rest).map (b :: ·)
  | .failed f :: _ => .error (.shardFailed f)
  | .panicked :: _ => .error .panicked

def execute (worker : Nat → Worker) (dst : ResultBatch) (addr : Nat) (batch : Batch)
    (ranges : List RowRange) : Result :=
  match collect (ranges.mapIdx fun i range => executeShard k heap (worker i) addr batch range) with
  | .error r => r
  | .ok shards =>
    match mergeResults dst shards ranges batch.rows with
    | .ok b => .merged b
    | .error f => .mergeFailed f

end Scheduler
end NornRune
