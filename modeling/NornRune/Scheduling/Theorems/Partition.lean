import NornRune.Scheduling.Theorems.Execute

open Bitplane Checked

namespace NornRune

def Tiles (rows : Nat) : Nat → List RowRange → Prop
  | start, [] => start = rows
  | start, range :: rest => range.start = start ∧ range.Legal rows ∧ Tiles rows range.stop rest

section Partition

variable {rows : Nat}

def shardWord (perShard extra shard : Nat) : Nat :=
  shard * perShard + min shard extra

theorem shardWord_succ (perShard extra shard : Nat) :
    shardWord perShard extra (shard + 1) =
      shardWord perShard extra shard + if shard < extra then perShard + 1 else perShard := by
  simp only [shardWord, Nat.succ_mul]
  split <;> omega

def shardRange (rows perShard extra shard : Nat) : RowRange where
  start := shardWord perShard extra shard * 64
  stop := min (shardWord perShard extra (shard + 1) * 64) rows

theorem foldl_partitionStep (rows perShard extra first m : Nat) (ranges : List RowRange) :
    (List.range' first m).foldl (partitionStep rows perShard extra)
      (shardWord perShard extra first, ranges) =
      (shardWord perShard extra (first + m),
        ranges ++ (List.range' first m).map (shardRange rows perShard extra)) := by
  induction m generalizing first ranges
  case zero => simp
  case succ m hi =>
    rw [List.range'_succ, List.foldl_cons, partitionStep, ← shardWord_succ, hi, List.map_cons,
      List.append_assoc, Nat.add_right_comm, Nat.add_assoc]
    rfl

theorem shardWord_mul_le {count shard : Nat} (hcount : 0 < count)
    (hwords : wordCount rows = 0 ∧ count = 1 ∨ count ≤ wordCount rows) (hs : shard < count) :
    shardWord (wordCount rows / count) (wordCount rows % count) shard * 64 ≤ rows := by
  have hdiv := Nat.div_add_mod (wordCount rows) count
  rcases hwords with ⟨hz, rfl⟩ | hle
  case inl =>
    have : shard = 0 := by omega
    subst this
    simp [shardWord]
  case inr =>
    have hpos : 1 ≤ wordCount rows / count := Nat.div_pos hle hcount
    have hmul : shard * (wordCount rows / count) + wordCount rows / count ≤
        count * (wordCount rows / count) := by
      rw [← Nat.succ_mul]
      exact Nat.mul_le_mul_right _ hs
    have hlt : shardWord (wordCount rows / count) (wordCount rows % count) shard < wordCount rows := by
      simp only [shardWord]
      omega
    rw [wordCount_eq] at hlt hle
    rw [wordCount_eq]
    omega

theorem shardWord_count {count : Nat} (hcount : 0 < count) :
    shardWord (wordCount rows / count) (wordCount rows % count) count = wordCount rows := by
  have := Nat.div_add_mod (wordCount rows) count
  have := Nat.mod_lt (wordCount rows) hcount
  simp only [shardWord]
  omega

theorem legal_shardRange {count shard : Nat} (hcount : 0 < count)
    (hwords : wordCount rows = 0 ∧ count = 1 ∨ count ≤ wordCount rows) (hs : shard < count) :
    (shardRange rows (wordCount rows / count) (wordCount rows % count) shard).Legal rows where
  le := by
    have := shardWord_mul_le hcount hwords hs
    have := shardWord_succ (wordCount rows / count) (wordCount rows % count) shard
    simp only [shardRange]
    omega
  stop_le := Nat.min_le_right ..
  aligned := Nat.mul_mod_left ..
  tail := by
    simp only [shardRange]
    omega

theorem tiles_shardRange {count first m : Nat} (hcount : 0 < count)
    (hwords : wordCount rows = 0 ∧ count = 1 ∨ count ≤ wordCount rows) (hm : first + m = count) :
    Tiles rows (min (shardWord (wordCount rows / count) (wordCount rows % count) first * 64) rows)
      ((List.range' first m).map
        (shardRange rows (wordCount rows / count) (wordCount rows % count))) := by
  induction m generalizing first
  case zero =>
    have : first = count := by omega
    subst this
    rw [shardWord_count hcount, wordCount_eq]
    simp only [List.range'_zero, List.map_nil, Tiles]
    omega
  case succ m hi =>
    have hlt : first < count := by omega
    refine ⟨?_, legal_shardRange hcount hwords hlt, hi (by omega)⟩
    exact (Nat.min_eq_left (shardWord_mul_le hcount hwords hlt)).symm

theorem tiles_partitionRows {capacity : Nat} (h : 0 < capacity) (rows : Nat) (shards : Int) :
    Tiles rows 0 (partitionRows capacity rows shards) ∧ partitionRows capacity rows shards ≠ [] := by
  have hcount : 0 < shardCount capacity rows shards := by
    simp only [shardCount]
    split <;> omega
  have hwords : wordCount rows = 0 ∧ shardCount capacity rows shards = 1 ∨
      shardCount capacity rows shards ≤ wordCount rows := by
    simp only [shardCount]
    split <;> omega
  have hfold := foldl_partitionStep rows (wordCount rows / shardCount capacity rows shards)
    (wordCount rows % shardCount capacity rows shards) 0 (shardCount capacity rows shards) []
  have hzero : shardWord (wordCount rows / shardCount capacity rows shards)
      (wordCount rows % shardCount capacity rows shards) 0 = 0 := by simp [shardWord]
  have htiles := @tiles_shardRange rows _ 0 _ hcount hwords (Nat.zero_add _)
  rw [hzero] at hfold htiles
  have heq : partitionRows capacity rows shards =
      (List.range' 0 (shardCount capacity rows shards)).map
        (shardRange rows (wordCount rows / shardCount capacity rows shards)
          (wordCount rows % shardCount capacity rows shards)) := by
    rw [partitionRows, if_neg (Nat.ne_of_gt h)]
    simp only [List.range_eq_range', hfold, List.nil_append]
  rw [heq]
  refine ⟨by simpa using htiles, ?_⟩
  rw [ne_eq, List.map_eq_nil_iff, List.range'_eq_nil_iff]
  omega

end Partition

section Tiles

variable {rows start : Nat} {ranges : List RowRange} {rs : List RowResult}

theorem Tiles.legal (h : Tiles rows start ranges) : ∀ range ∈ ranges, range.Legal rows := by
  induction ranges generalizing start
  case nil => simp
  case cons range rest hi =>
    intro r hr
    rcases List.mem_cons.mp hr with rfl | hr
    · exact h.2.1
    · exact hi h.2.2 r hr

def RowRange.part (rs : List RowResult) (range : RowRange) : List RowResult :=
  Region.read rs range.start (range.stop - range.start)

theorem Tiles.parts (h : Tiles rs.length start ranges) :
    spans start (ranges.map (RowRange.part rs)) = ranges ∧
      (ranges.map (RowRange.part rs)).flatten = rs.drop start := by
  induction ranges generalizing start
  case nil =>
    refine ⟨rfl, ?_⟩
    rw [show start = rs.length from h, List.drop_length]
    rfl
  case cons range rest hi =>
    have ⟨rfl, legal, h⟩ := h
    have hle := legal.le
    have hstop := legal.stop_le
    have ⟨hspans, hflat⟩ := hi h
    have hlen : (RowRange.part rs range).length = range.stop - range.start :=
      Region.length_read (by omega)
    have hend : range.start + (range.stop - range.start) = range.stop := by omega
    constructor
    · rw [List.map_cons, spans, hlen, hend, hspans]
    · rw [List.map_cons, List.flatten_cons, hflat, RowRange.part, Region.read]
      conv_rhs => rw [← List.take_append_drop (range.stop - range.start) (rs.drop range.start)]
      rw [List.drop_drop, hend]

end Tiles

namespace Scheduler

theorem collect_returned (bs : List ResultBatch) : collect (bs.map .returned) = .ok bs := by
  induction bs
  case nil => rfl
  case cons b bs hi => rw [List.map_cons, collect, hi, Except.map]

variable {k : Kernels} {heap : Heap} {addr : Nat} {batch : Batch} {sizes : ExecutionSizes}
  {stateReasons : List Nat} {rs : List RowResult} {ranges : List RowRange}

theorem execute_tiles (worker : Nat → Worker) (dst : ResultBatch) (hstride : batch.rowStride = 0)
    (checked : ExecutionChecked (heap addr) batch sizes)
    (hv : (heap addr).applicabilityIndex.validBoundPolicy)
    (hr : EvidenceStateIndex.classify (heap addr) = some stateReasons)
    (hrs : (heap addr).evalRows stateReasons batch = .ok rs)
    (tiles : Tiles batch.rows 0 ranges) (hne : ranges ≠ []) :
    execute k heap worker dst addr batch ranges = .merged (.ofRows rs) := by
  have ⟨_, _, hlen, _⟩ := evalRows_eq_ok hrs
  have hshards : ranges.mapIdx (fun i range => executeShard k heap (worker i) addr batch range) =
      ((ranges.map (RowRange.part rs)).map ResultBatch.ofRows).map .returned := by
    rw [List.map_map, List.map_map]
    apply List.ext_getElem (by simp)
    intro i h₁ h₂
    rw [List.getElem_mapIdx, List.getElem_map]
    exact executeShard_eq (worker i) (tiles.legal _ (List.getElem_mem _)) hstride checked hv hr hrs
  rw [← hlen] at tiles
  have ⟨hspans, hflat⟩ := tiles.parts
  rw [List.drop_zero] at hflat
  have hmerge := @mergeResults_eq_ok (ranges.map (RowRange.part rs)) (by simpa using hne)
    (hflat.symm ▸ bounded_evalRows checked hrs) (by
      have := checked.rows_le
      rw [hflat, hlen]
      simp only [maxUint32, maxInt] at *
      omega) dst
  rw [hspans, hflat, hlen] at hmerge
  rw [execute, hshards, collect_returned]
  simp only [hmerge]

-- Sharded evaluation delivers what serial evaluation delivers. Only the evaluator makes views, so a
-- batch that a caller passes is never one.
theorem execute_partitionRows (k k' : Kernels) (heap : Heap) (cs : List Call) (worker : Nat → Worker)
    (dst dst' b : ResultBatch) (addr : Nat) (batch : Batch) (hstride : batch.rowStride = 0)
    (h : (Executor.calls k heap cs).outcome k heap dst addr batch .auto = .returned b)
    (capacity : Nat) (hcapacity : 0 < capacity) (shards : Int) :
    execute k' heap worker dst' addr batch (partitionRows capacity batch.rows shards) = .merged b := by
  rw [Executor.outcome_eq (Executor.cached_calls k heap cs)] at h
  have ⟨_, _, _, checked, hv, hr, hrs, hb⟩ := evaluate_eq_returned h
  have ⟨tiles, hne⟩ := tiles_partitionRows hcapacity batch.rows shards
  rw [execute_tiles worker dst' hstride checked hv hr hrs tiles hne, hb]

def definedField : Program where
  opcodes := [.defined]
  fields := [1]
  values := [0]
  listStarts := [0]
  listCounts := [0]
  operandStarts := [0]
  operandCounts := [0]
  evidenceKinds := [0]
  evidenceStates := [0]
  evidenceSubjects := []
  evidenceScopes := []
  evidenceTimings := []
  rootFlags := [RootFlags.applicability ||| RootFlags.assertion]
  truthSlots := [1]
  reasonSlots := [1]
  instructionNodes := [1]
  instructionSourceStarts := [0]
  instructionSourceEnds := [0]
  listValues := []
  operands := []
  opcodeRunOpcodes := [.defined]
  opcodeRunStarts := [1]
  opcodeRunCounts := [1]
  nodeInstructionStarts := [0]
  nodeInstructionCounts := [1]
  nodeInstructionIDs := [1]
  symbolBytes := bytes "flag"
  symbolStarts := [0]
  symbolLengths := [4]
  symbolHashes := []
  symbolIDs := []
  valueKinds := []
  valueRefs := []
  integerValues := []
  booleanValues := []
  timestampValues := []
  fieldNames := [1]
  fieldKinds := [.boolean]
  fieldGroups := [.subject]
  evidenceKindNames := []
  evidenceStateNames := []
  requirementIDs := [1]
  requirementRoots := [1]
  requirementSourceNodeIDs := [1]
  requirementClauseStarts := [0]
  requirementClauseCounts := [1]
  requirementClauseIDs := [1]
  clauseAssertionRoots := [1]
  clauseAssertionSourceNodeIDs := [1]
  clauseEvidenceStarts := [0]
  clauseEvidenceCounts := [0]
  clauseEvidenceIDs := []
  clauseEvidenceSourceNodeIDs := []
  clauseOnSatisfied := [1]
  clauseOnFalse := [1]
  clauseExplanationIDs := List.replicate clauseExplanationBranchCount 1
  clauseRemediationStarts := [0]
  clauseRemediationCounts := [0]
  clauseRemediationIDs := []
  templates := .empty
  explanations := ⟨[1], [0], [0], [], []⟩
  evidenceIssueNodeIDs := []
  evidenceIssueTemplateIDs := []
  outcomes := ⟨[1], [1], [true]⟩
  remediations := ⟨[], [], [], []⟩
  resolutions := ⟨List.replicate reasonCount 1, List.replicate reasonCount 1,
    List.replicate reasonCount 0, List.replicate reasonCount 0, []⟩
  resolver := .zero
  applicabilityIndex := ⟨[], [], [], [], [], [], [1#64], 1, 1⟩
  factIndexSpec := ⟨[], [], [], [], [], []⟩
  fieldIndex := ⟨[.boolean], [0], fun kind => if kind = .boolean then 1 else 0, by decide⟩
  policyName := 1
  policyVersion := 1
  programSymbolCount := 1
  truthSlotCount := 1
  reasonSlotCount := 1
  programSymbolCount_le := by decide
  resolver_eq := .inl rfl

theorem two_le_maxUint32 : 2 ≤ maxUint32 := by decide

def alternating (rows : Nat) : Batch where
  symbolValues := []
  integerValues := []
  timestampValues := []
  booleanValues := List.replicate (wordCount rows) 0#64
  presenceMasks := List.replicate (wordCount rows) 0x5555555555555555#64
  requestIDs := List.replicate rows 1
  evidenceOffsets := List.replicate (rows + 1) 0
  evidenceRefs := []
  evidence := ⟨[], [], [], [], [], [], [], []⟩
  rows := rows
  rowBase := 0
  rowStride := 0
  symbolValues_le := by decide

-- Two shards, of which the second one consists of a single row.
theorem execute_partitionRows_alternating :
    execute .portable (fun _ => definedField) (fun _ => ⟨[], .empty, .empty⟩) .empty 0 (alternating 65)
      (partitionRows 2 65 2) =
      .merged (.ofRows ((List.range 65).map fun r =>
        if r % 2 = 0 then ⟨1, [1], [⟨1, 1, 1, 0, 1⟩], [], [], []⟩ else ⟨0, [], [], [], [], []⟩)) := by
  refine execute_partitionRows .portable .portable _ [] _ .empty .empty _ 0 _ rfl ?_ 2 (by decide) 2
  rw [Executor.outcome_eq (Executor.cached_calls ..)]
  decide +kernel

end Scheduler
end NornRune
