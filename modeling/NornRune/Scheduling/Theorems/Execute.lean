import NornRune.Scheduling.Theorems.Merge
import NornRune.Scheduling.Theorems.Range

open Bitplane Checked

namespace NornRune

variable {p : Program} {batch : Batch} {sizes : ExecutionSizes} {range : RowRange}
  {stateReasons : List Nat} {rs : List RowResult}

theorem evalRows_view (legal : range.Legal batch.rows) (hstride : batch.rowStride = 0)
    (checked : ExecutionChecked p batch sizes) (h : p.evalRows stateReasons batch = .ok rs) :
    p.evalRows stateReasons (range.view p batch) =
      .ok (Region.read rs range.start (range.stop - range.start)) := by
  have hle := legal.le
  have hstop := legal.stop_le
  have ⟨code, hc, hlen, hrow⟩ := evalRows_eq_ok h
  have hbase := rowBase_eq_zero hstride checked
  have alike (r : Nat) (hr : r < range.stop - range.start) :
      Row.Alike p code ((range.view p batch).row r) (batch.row (range.start + r)) := by
    rw [RowRange.row_view legal hstride hbase]
    refine ⟨fun _ _ => rfl, fun _ _ => rfl, fun hu => ?_⟩
    exact RowRange.rowEvidence_view legal hu (.of_valid (checked.evidence hu)) hr
  have hmap : (List.range (range.stop - range.start)).mapM
      (fun r => p.evalRow stateReasons code ((range.view p batch).row r)) =
      .ok ((List.range (range.stop - range.start)).map fun r =>
        rs.getD (range.start + r) ⟨0, [], [], [], [], []⟩) := by
    refine mapM_eq_ok fun r hr => ?_
    rw [List.mem_range] at hr
    have hlt : range.start + r < rs.length := by omega
    rw [evalRow_congr hc (alike r hr), hrow _ hlt, List.getD_eq_getElem _ _ hlt]
  have hread : (List.range (range.stop - range.start)).map (fun r =>
      rs.getD (range.start + r) ⟨0, [], [], [], [], []⟩) =
      Region.read rs range.start (range.stop - range.start) := by
    apply List.ext_getElem
    case hl => rw [List.length_map, List.length_range, Region.length_read (by omega)]
    case h =>
      intro r h₁ h₂
      have hlt : range.start + r < rs.length := by
        simp only [List.length_map, List.length_range] at h₁
        omega
      simp only [List.getElem_map, List.getElem_range, Region.read, List.getElem_take,
        List.getElem_drop, List.getD_eq_getElem _ _ hlt]
  rw [Program.evalRows, hc]
  exact hmap.trans (congrArg _ hread)

theorem executeShard_eq {k : Kernels} {heap : Heap} {addr : Nat} (w : Worker)
    (legal : range.Legal batch.rows) (hstride : batch.rowStride = 0)
    (checked : ExecutionChecked (heap addr) batch sizes)
    (hv : (heap addr).applicabilityIndex.validBoundPolicy)
    (hr : EvidenceStateIndex.classify (heap addr) = some stateReasons)
    (h : (heap addr).evalRows stateReasons batch = .ok rs) :
    Scheduler.executeShard k heap w addr batch range =
      .returned (.ofRows (Region.read rs range.start (range.stop - range.start))) := by
  have cached := Executor.cached_calls k heap w.past
  simp only [Scheduler.executeShard]
  split
  case isTrue hall =>
    have hlen := (evalRows_eq_ok h).choose_spec.2.1
    have := (Executor.executeMode_spec k cached w.dst addr batch .auto).2
    rw [Executor.execute, this, evaluate_eq checked hv hr h, hall.1, hall.2, Region.read, List.drop_zero,
      Nat.sub_zero, ← hlen, List.take_length]
  case isFalse =>
    obtain ⟨sizes', checked'⟩ := range.checked_view legal hstride checked
    have hscratch : (w.evidenceOffsets.resize 0 (range.stop - range.start + 1)).toList.length =
      range.stop - range.start + 1 := by simp
    have hview := RowRange.rangeView_eq_some legal hstride checked hscratch
    have := (Executor.executeMode_spec k cached w.dst addr (range.view (heap addr) batch) .auto).2
    rw [Executor.executeRange, Executor.executeRangeMode, hview, this,
      evaluate_eq checked' hv hr (evalRows_view legal hstride checked h)]
theorem bounded_evalRows (checked : ExecutionChecked p batch sizes)
    (h : p.evalRows stateReasons batch = .ok rs) : Bounded rs := by
  have sized := sized_evalRows checked h
  have hres := checked.results
  simp only [validResultSizes, Bool.and_eq_true, Bool.or_eq_true, Bool.not_eq_true'] at hres
  refine ⟨?_, ?_, ?_, ?_, ?_⟩
  case refine_1 => exact Nat.le_trans sized.requirements (executorResultLen_eq hres.1.1.1.1).1
  case refine_2 => exact Nat.le_trans sized.drivers (executorResultLen_eq hres.1.1.1.2).1
  case refine_3 =>
    refine Nat.le_trans sized.evidence ?_
    split
    case isFalse => exact Nat.zero_le _
    case isTrue hu =>
      have hrefs := (executorResultLen_eq (hres.2.resolve_left (by simp [hu]))).1
      rwa [Nat.one_mul] at hrefs
  case refine_4 => exact Nat.le_trans sized.reasons (executorResultLen_eq hres.1.1.2).1
  case refine_5 => exact Nat.le_trans sized.remediations (executorResultLen_eq hres.1.2).1

end NornRune
