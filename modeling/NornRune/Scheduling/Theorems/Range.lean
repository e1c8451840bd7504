import NornRune.Execution.Theorems.Size
import NornRune.Scheduling.Shard

open Bitplane Checked

namespace NornRune

variable {p : Program} {batch : Batch} {sizes : ExecutionSizes} {range : RowRange}

structure RowRange.Legal (rows : Nat) (range : RowRange) : Prop where
  le : range.start ≤ range.stop
  stop_le : range.stop ≤ rows
  aligned : range.start % 64 = 0
  tail : range.stop % 64 = 0 ∨ range.stop = rows

def RowRange.view (range : RowRange) (p : Program) (batch : Batch) : Batch :=
  let base := batch.evidenceOffsets.getD range.start 0
  { batch with
    rows := range.stop - range.start
    rowBase := range.start
    rowStride := batch.rows
    requestIDs := Region.read batch.requestIDs range.start (range.stop - range.start)
    evidenceOffsets :=
      if p.usesEvidence then
        (List.range (range.stop - range.start + 1)).map fun row =>
          batch.evidenceOffsets.getD (range.start + row) 0 - base
      else List.replicate (range.stop - range.start + 1) 0
    evidenceRefs :=
      if p.usesEvidence then
        Region.read batch.evidenceRefs base (batch.evidenceOffsets.getD range.stop 0 - base)
      else []
  }

theorem rowBase_eq_zero (hstride : batch.rowStride = 0) (checked : ExecutionChecked p batch sizes) :
    batch.rowBase = 0 := by
  have h := checked.columns
  simp only [validExecutionBatchColumns, Batch.validPhysicalRange, hstride, Bool.and_eq_true,
    Bool.or_eq_true, bne_self_eq_false, Bool.false_eq_true, false_or, beq_iff_eq] at h
  exact h.1.1.1.1.1.1.2

namespace RowRange

variable (legal : range.Legal batch.rows)

include legal

theorem sourceRows_view : (range.view p batch).sourceRows = batch.rows := by
  change (if batch.rows = 0 then range.stop - range.start else batch.rows) = batch.rows
  have := legal.stop_le
  split <;> omega

omit legal in
theorem wordBase_view : (range.view p batch).wordBase = range.start / 64 := by
  simp only [Batch.wordBase, view, Nat.shiftRight_eq_div_pow]

theorem row_view (hstride : batch.rowStride = 0) (hbase : batch.rowBase = 0) (r : Nat) :
    (range.view p batch).row r =
      { batch.row (range.start + r) with evidence := (range.view p batch).rowEvidence r } := by
  have hrows : (range.view p batch).sourceRows = batch.sourceRows := by
    rw [sourceRows_view legal, Batch.sourceRows, if_pos hstride]
  have hwords : (range.view p batch).sourceWords = batch.sourceWords := by
    rw [Batch.sourceWords, hrows, Batch.sourceWords]
  have hword : batch.wordBase = 0 := by
    rw [Batch.wordBase, hbase]
    rfl
  have haligned := legal.aligned
  have hdiv : (range.start + r) / 64 = range.start / 64 + r / 64 := by omega
  have hmod : (range.start + r) % 64 = r % 64 := by omega
  simp only [Batch.row, hrows, hwords, wordBase_view, hword, hbase, hdiv, hmod, Nat.add_zero,
    Nat.add_assoc]
  rfl

omit legal in
theorem getD_evidenceOffsets_view (hu : p.usesEvidence) {i : Nat}
    (hi : i ≤ range.stop - range.start) :
    (range.view p batch).evidenceOffsets.getD i 0 =
      batch.evidenceOffsets.getD (range.start + i) 0 - batch.evidenceOffsets.getD range.start 0 := by
  simp only [view, hu, if_true]
  rw [List.getD_eq_getElem _ _ (by simp; omega), List.getElem_map, List.getElem_range]

theorem rowEvidence_view (hu : p.usesEvidence) (shape : batch.EvidenceShape) {r : Nat}
    (hr : r < range.stop - range.start) :
    (range.view p batch).rowEvidence r = batch.rowEvidence (range.start + r) := by
  have hle := legal.le
  have hstop := legal.stop_le
  have h₁ := shape.mono (i := range.start) (j := range.start + r) (by omega) (by omega)
  have h₂ := shape.mono (i := range.start + r) (j := range.start + (r + 1)) (by omega) (by omega)
  have h₃ := shape.mono (i := range.start + (r + 1)) (j := range.stop) (by omega) (by omega)
  simp only [Batch.rowEvidence, getD_evidenceOffsets_view hu (Nat.le_of_lt hr),
    getD_evidenceOffsets_view hu (i := r + 1) hr]
  simp only [view, hu, if_true, Nat.add_assoc]
  congr 1
  apply List.ext_getElem?
  intro i
  simp only [Region.getElem?_read]
  by_cases hi : i < batch.evidenceOffsets.getD (range.start + (r + 1)) 0 -
      batch.evidenceOffsets.getD (range.start + r) 0
  case pos =>
    rw [if_pos (by omega), if_pos (by omega), if_pos hi]
    congr 1
    omega
  case neg => rw [if_neg (by omega), if_neg hi]

theorem rangeView_eq_some (hstride : batch.rowStride = 0) (checked : ExecutionChecked p batch sizes)
    {scratch : List Nat} (hscratch : scratch.length = range.stop - range.start + 1) :
    Executor.rangeView p batch range.start range.stop scratch = some (range.view p batch) := by
  have hle := legal.le
  have hstop := legal.stop_le
  have hbase : batch.rowBase = 0 := rowBase_eq_zero hstride checked
  have hrows := checked.rows_le
  have hshape : ¬ (batch.rowStride ≠ 0 ∨ batch.rowBase ≠ 0 ∨ range.stop < range.start ∨
      batch.rows < range.stop ∨ range.start % 64 ≠ 0 ∨
      (range.stop % 64 ≠ 0 ∧ range.stop ≠ batch.rows)) := by
    have := legal.aligned
    have := legal.tail
    omega
  have hsize : ¬ (maxInt < range.stop - range.start + 1 ∨
      scratch.length ≠ range.stop - range.start + 1 ∨ batch.requestIDs.length ≠ batch.rows) := by
    have := checked.requests
    simp only [maxInt, maxUint32] at *
    omega
  simp only [Executor.rangeView, if_neg hshape, if_neg hsize]
  cases hu : p.usesEvidence
  case false => simp only [Bool.false_eq_true, if_false, view, hu]
  case true =>
    have shape := Batch.EvidenceShape.of_valid (checked.evidence hu)
    have hlen := shape.length
    have hlimit := shape.mono hle hstop
    have hrefs := shape.le hstop
    have hoffsets : (List.range (range.stop - range.start + 1)).all (fun row =>
        decide ((if row = 0 then batch.evidenceOffsets.getD range.start 0
          else batch.evidenceOffsets.getD (range.start + (row - 1)) 0) ≤
          batch.evidenceOffsets.getD (range.start + row) 0) &&
        decide (batch.evidenceOffsets.getD (range.start + row) 0 ≤
          batch.evidenceOffsets.getD range.stop 0)) = true := by
      simp only [List.all_eq_true, List.mem_range, Bool.and_eq_true, decide_eq_true_eq]
      intro row hrow
      refine ⟨?_, shape.mono (by omega) hstop⟩
      split
      case isTrue => exact shape.mono (by omega) (by omega)
      case isFalse => exact shape.mono (by omega) (by omega)
    have hbounds : ¬ (batch.evidenceOffsets.length ≠ batch.rows + 1 ∨
        batch.evidenceOffsets.getD range.stop 0 < batch.evidenceOffsets.getD range.start 0 ∨
        batch.evidenceRefs.length < batch.evidenceOffsets.getD range.stop 0) := by omega
    simp only [if_true, if_neg hbounds, hoffsets, Bool.not_true, Bool.false_eq_true, if_false, view, hu]

theorem columns_view (hstride : batch.rowStride = 0) (h : validExecutionBatchColumns p batch) :
    validExecutionBatchColumns p (range.view p batch) := by
  have hle := legal.le
  have hstop := legal.stop_le
  have hrows : (range.view p batch).sourceRows = batch.sourceRows := by
    rw [sourceRows_view legal, Batch.sourceRows, if_pos hstride]
  have hwords : (range.view p batch).sourceWords = batch.sourceWords := by
    rw [Batch.sourceWords, hrows, Batch.sourceWords]
  have hphysical : (range.view p batch).validPhysicalRange := by
    have haligned := legal.aligned
    rw [Batch.validPhysicalRange, sourceRows_view legal]
    change (range.start % 64 == 0 && (batch.rows != 0 || range.start == 0) &&
      decide (range.start + (range.stop - range.start) ≤ batch.rows)) = true
    simp only [Bool.and_eq_true, beq_iff_eq, Bool.or_eq_true, bne_iff_ne, decide_eq_true_eq]
    omega
  simp only [validExecutionBatchColumns, hrows, hwords, hphysical, Bool.true_and]
  simp only [validExecutionBatchColumns, Bool.and_eq_true] at h
  simp only [Bool.and_eq_true]
  exact ⟨⟨⟨⟨h.1.1.1.1.2, h.1.1.1.2⟩, h.1.1.2⟩, h.1.2⟩, h.2⟩

theorem evidence_view (hu : p.usesEvidence) (h : validEvidenceBatch batch p) :
    validEvidenceBatch (range.view p batch) p := by
  have hle := legal.le
  have hstop := legal.stop_le
  have shape := Batch.EvidenceShape.of_valid h
  have hlimit := shape.mono hle hstop
  have hrefs := shape.le hstop
  have hread : (Region.read batch.evidenceRefs (batch.evidenceOffsets.getD range.start 0)
      (batch.evidenceOffsets.getD range.stop 0 - batch.evidenceOffsets.getD range.start 0)).length =
      batch.evidenceOffsets.getD range.stop 0 - batch.evidenceOffsets.getD range.start 0 :=
    Region.length_read (by omega)
  simp only [validEvidenceBatch, Bool.and_eq_true, List.all_eq_true, List.mem_range, beq_iff_eq,
    decide_eq_true_eq] at h
  have hrequests : (Region.read batch.requestIDs range.start (range.stop - range.start)).length =
      range.stop - range.start :=
    Region.length_read (by
      have := h.1.1.1.1.1.1.1.1.1.1.1.1.1
      omega)
  have hfields := h.1.1.1
  have hsteps : ∀ i < range.stop - range.start,
      batch.evidenceOffsets.getD (range.start + i) 0 - batch.evidenceOffsets.getD range.start 0 ≤
        batch.evidenceOffsets.getD (range.start + (i + 1)) 0 -
          batch.evidenceOffsets.getD range.start 0 ∧
      batch.evidenceOffsets.getD (range.start + (i + 1)) 0 -
          batch.evidenceOffsets.getD range.start 0 ≤
        batch.evidenceOffsets.getD range.stop 0 - batch.evidenceOffsets.getD range.start 0 := by
    intro i hi
    have := shape.mono (i := range.start + i) (j := range.start + (i + 1)) (by omega) (by omega)
    have := shape.mono (i := range.start + (i + 1)) (j := range.stop) (by omega) (by omega)
    omega
  have hlen : (range.view p batch).evidenceOffsets.length = range.stop - range.start + 1 := by
    simp only [view, hu, if_true, List.length_map, List.length_range]
  have hrefs : (range.view p batch).evidenceRefs.length =
      batch.evidenceOffsets.getD range.stop 0 - batch.evidenceOffsets.getD range.start 0 := by
    simp only [view, hu, if_true, hread]
  have hlast : (range.view p batch).evidenceOffsets.getD (range.stop - range.start) 0 =
      batch.evidenceOffsets.getD range.stop 0 - batch.evidenceOffsets.getD range.start 0 := by
    rw [getD_evidenceOffsets_view hu (Nat.le_refl _), Nat.add_sub_cancel' hle]
  simp only [validEvidenceBatch, Bool.and_eq_true, List.all_eq_true, List.mem_range, beq_iff_eq,
    decide_eq_true_eq, hlen, hrefs, Nat.add_sub_cancel, hlast]
  refine ⟨⟨⟨⟨⟨⟨⟨⟨⟨⟨⟨⟨⟨hrequests, rfl⟩, ?_⟩, trivial⟩, hfields.1.1.1.1.1.1.2⟩, hfields.1.1.1.1.1.2⟩,
    hfields.1.1.1.1.2⟩, hfields.1.1.1.2⟩, hfields.1.1.2⟩, hfields.1.2⟩, hfields.2⟩, ?_⟩, ?_⟩, h.2⟩
  case refine_1 =>
    rw [getD_evidenceOffsets_view hu (Nat.zero_le _), Nat.add_zero, Nat.sub_self]
  case refine_2 =>
    intro i hi
    rw [getD_evidenceOffsets_view hu (Nat.le_of_lt hi),
      getD_evidenceOffsets_view hu (i := i + 1) hi]
    exact hsteps i hi
  case refine_3 =>
    intro ref href
    simp only [view, hu, if_true] at href
    exact h.1.2 ref (List.mem_of_mem_drop (List.mem_of_mem_take href))

end RowRange

section Sizes

theorem executorScratchLen_mono {a b c c' : Nat} (hc : c' ≤ c)
    (h : (executorScratchLen a b c).isSome) : (executorScratchLen a b c').isSome := by
  have hmul : a * b * c' ≤ a * b * c := Nat.mul_le_mul_left _ hc
  simp only [executorScratchLen] at h ⊢
  split at h
  case isTrue => cases h
  case isFalse h₁ =>
  split at h
  case isTrue => cases h
  case isFalse h₂ =>
  split at h
  case isTrue => cases h
  case isFalse h₃ =>
    rw [if_neg h₁, if_neg (fun h => h₂ ⟨h.1, Nat.lt_of_lt_of_le h.2 hc⟩),
      if_neg (fun h => h₃ (Nat.lt_of_lt_of_le h hmul))]
    rfl

theorem executorResultLen_eq {rows perRow bytes : Nat}
    (h : (executorResultLen rows perRow bytes).isSome) :
    rows * perRow ≤ maxUint32 ∧ rows * perRow ≤ maxInt / bytes := by
  simp only [executorResultLen] at h
  split at h
  case isTrue => cases h
  split at h
  case isTrue => cases h
  case isFalse h => omega

theorem executorResultLen_isSome {rows perRow bytes : Nat} (h : rows * perRow ≤ maxUint32)
    (hb : rows * perRow ≤ maxInt / bytes) : (executorResultLen rows perRow bytes).isSome := by
  simp only [executorResultLen]
  have h₁ : ¬ (rows ≠ 0 ∧ maxUint64 / rows < perRow) := by
    rintro ⟨h0, hlt⟩
    have := (Nat.div_lt_iff_lt_mul (Nat.pos_of_ne_zero h0)).mp hlt
    rw [Nat.mul_comm] at this
    simp only [maxUint32, maxUint64] at *
    omega
  rw [if_neg h₁, if_neg (by omega)]
  rfl

theorem executorResultLen_mono {rows rows' perRow bytes : Nat} (hr : rows' ≤ rows)
    (h : (executorResultLen rows perRow bytes).isSome) :
    (executorResultLen rows' perRow bytes).isSome := by
  have ⟨h₁, h₂⟩ := executorResultLen_eq h
  have := Nat.mul_le_mul_right perRow hr
  exact executorResultLen_isSome (by omega) (by omega)

end Sizes

namespace RowRange

theorem checked_view (legal : range.Legal batch.rows) (hstride : batch.rowStride = 0)
    (checked : ExecutionChecked p batch sizes) :
    ∃ sizes', ExecutionChecked p (range.view p batch) sizes' := by
  have hle := legal.le
  have hstop := legal.stop_le
  have hrows : (range.view p batch).rows ≤ batch.rows :=
    Nat.le_trans (Nat.sub_le ..) hstop
  have hwords : wordCount (range.view p batch).rows ≤ wordCount batch.rows := by
    rw [wordCount_eq, wordCount_eq]
    exact Nat.div_le_div_right (Nat.add_le_add_right hrows _)
  obtain ⟨truthLen, ht⟩ := Option.isSome_iff_exists.mp
    (executorScratchLen_mono hwords (Option.isSome_of_eq_some checked.truth))
  obtain ⟨reasonLen, hr⟩ := Option.isSome_iff_exists.mp
    (executorScratchLen_mono hwords (Option.isSome_of_eq_some checked.reason))
  refine ⟨⟨truthLen, reasonLen⟩, checked.semantics, ?_, columns_view legal hstride checked.columns,
    fun hu => evidence_view legal hu (checked.evidence hu), ht, hr, ?_⟩
  case refine_1 =>
    have := checked.requests
    exact Region.length_read (by omega)
  case refine_2 =>
    have h := checked.results
    simp only [validResultSizes, Bool.and_eq_true, Bool.or_eq_true, Bool.not_eq_true'] at h ⊢
    refine ⟨⟨⟨⟨executorResultLen_mono hrows h.1.1.1.1, executorResultLen_mono hrows h.1.1.1.2⟩,
      executorResultLen_mono hrows h.1.1.2⟩, executorResultLen_mono hrows h.1.2⟩, ?_⟩
    rcases h.2 with hu | h
    case inl => exact .inl hu
    case inr =>
      have hrefs : (range.view p batch).evidenceRefs.length ≤ batch.evidenceRefs.length := by
        simp only [view]
        split
        case isTrue =>
          simp only [Region.read, List.length_take, List.length_drop]
          omega
        case isFalse => exact Nat.zero_le _
      obtain ⟨h₁, h₂⟩ := executorResultLen_eq h
      exact .inr (executorResultLen_isSome (by omega) (by omega))

end RowRange
end NornRune
