import NornRune.Execution.Theorems.Schedule

open Bitplane Checked Reduction

namespace NornRune.Executor

variable {heap : Heap} {addr row rows : Nat} {e : Executor}

def groupTruth (opcode : Opcode) : Truth → Truth → Truth :=
  if opcode = .all then Truth.and else Truth.or

def groupUnit (opcode : Opcode) : Truth :=
  if opcode = .all then .top else .bottom

theorem meet_groupTruth (opcode : Opcode) : Meet (groupTruth opcode) := by
  unfold groupTruth
  split
  · exact Truth.meet_and
  · exact Truth.meet_or

theorem groupTruth_unit (opcode : Opcode) (t : Truth) :
    groupTruth opcode t (groupUnit opcode) = t := by
  unfold groupTruth groupUnit
  split <;> simp

theorem combineTruth_computes (k : Kernels) (opcode : Opcode) (mode : ExecutionMode)
    {dst src : Planes} (hd : dst.Shaped (wordCount rows))
    (hs : src.Shaped (wordCount rows)) :
    Planes.Computes (combineTruth k opcode rows mode dst src) rows fun r =>
      groupTruth opcode (dst.lane r) (src.lane r) := by
  have hp := hd.positive.trans hs.positive.symm
  have hn := hd.negative.trans hs.negative.symm
  -- The vector kernels compute the same words as the loops.
  have hand : Planes.and dst dst src rows = .ok (simdTruthAnd k dst src rows) := by
    simp [Planes.and, Planes.requireShape_of hd, Planes.requireShape_of hs, simdTruthAnd,
      k.andWords_eq _ _ hp, k.orWords_eq _ _ hn]
  have hor : Planes.or dst dst src rows = .ok (simdTruthOr k dst src rows) := by
    simp [Planes.or, Planes.requireShape_of hd, Planes.requireShape_of hs, simdTruthOr,
      k.andWords_eq _ _ hn, k.orWords_eq _ _ hp]
  have hc : combineTruth k opcode rows mode dst src =
      if opcode = .all then Planes.and dst dst src rows else Planes.or dst dst src rows := by
    rw [combineTruth, hand, hor]
    split <;> split <;> rfl
  rw [hc, groupTruth]
  split
  · exact Planes.and_computes hd hd hs
  · exact Planes.or_computes hd hd hs

theorem combineReasons_eq (k : Kernels) (mode : ExecutionMode) {dst src : List Word} (h : dst.length = src.length) :
    combineReasons k mode dst src = List.zipWith (· ||| ·) dst src := by
  rw [combineReasons, k.orWords_eq _ _ h, ite_self]

theorem groupDriver_eq (slotOf : Nat → Nat) (operands : List Nat) (dst : Nat) :
    groupDriver slotOf operands dst = driver slotOf operands dst :=
  rfl

theorem Drives.fetch_first {slotOf : Nat → Nat} {operands : List Nat} {dst o : Nat}
    (h : Drives slotOf operands dst o) (hn : driver slotOf operands dst = none) :
    fetch operands 0 = .ok o := by
  have := h.mem
  rw [hn] at this
  exact fetch_eq_ok_iff.mpr this

section Group

variable (sched : Scheduled (heap addr)) (hrow : row < (heap addr).opcodes.length)
  (hg : ((heap addr).opcodes.getD row .invalid).isGroup) (ready : e.Ready heap addr rows)

include sched hrow hg ready

theorem reduceTruthGroup_spec (k : Kernels) (opcode : Opcode) (mode : ExecutionMode) :
    ∃ e', reduceTruthGroup k heap e (heap addr) row opcode rows mode = .ok e' ∧
      (Frame e e' ∧ e'.reasonWords = e.reasonWords) ∧ ∀ r < rows,
        (e'.lanes rows r).truth = Function.update (e.lanes rows r).truth
          ((heap addr).truthSlots.getD row 0) ((((heap addr).operandsOf row).map fun o =>
            (e.lanes rows r).truth ((heap addr).truthSlotOf o)).foldl (groupTruth opcode)
              (groupUnit opcode)) := by
  have hdst := (sched.row row hrow).truthSlot
  have ⟨o, drives⟩ := exists_drives (heap addr).truthSlotOf ((heap addr).truthSlots.getD row 0)
    ((sched.row row hrow).operands_ne_nil hg)
  have ho := sched.truthSlotOf hrow (List.mem_of_getElem? drives.mem)
  have ⟨e₁, h₁, inv₁, view₁⟩ : ∃ e₁, loadTruthDriver heap e (heap addr) row rows
        (driver (heap addr).truthSlotOf ((heap addr).operandsOf row)
          ((heap addr).truthSlots.getD row 0)) = Except.ok e₁ ∧
      (Frame e e₁ ∧ e₁.reasonWords = e.reasonWords) ∧ ∀ r < rows,
        (e₁.lanes rows r).truth = Function.update (e.lanes rows r).truth
          ((heap addr).truthSlots.getD row 0) ((e.lanes rows r).truth ((heap addr).truthSlotOf o)) := by
    cases hd : driver (heap addr).truthSlotOf ((heap addr).operandsOf row)
      ((heap addr).truthSlots.getD row 0)
    case some =>
      refine ⟨e, rfl, ⟨.refl e, rfl⟩, fun r _ => ?_⟩
      rw [drives.isSome (by rw [hd]; rfl), Function.update_eq_self]
    case none =>
      refine ⟨_, by
        simp only [loadTruthDriver, Drives.fetch_first drives hd, ok_bind, ready.truthSlot_eq_ok ho]
        rfl,
        ⟨.setTruthSlot .., rfl⟩, fun r _ => ?_⟩
      rw [lanes_setTruthSlot ready hdst (ready.shaped ho), lane_truthPlanes ho.ne_zero]
      rfl
  simp only [reduceTruthGroup, groupDriver_eq, h₁, ok_bind]
  refine foldlM_inPlace (meet_groupTruth opcode) drives (fun s x => by simp)
    (fun s x i hx hi ⟨frame, hw⟩ => ?_) (groupTruth_unit opcode) inv₁ view₁
  have ready' := frame.ready ready
  have hx := sched.truthSlotOf hrow hx
  have ⟨t, ht, hs, hl⟩ := combineTruth_computes k opcode mode (ready'.shaped hdst)
    (ready'.shaped hx)
  simp only [hi, if_false, ready'.truthSlot_eq_ok hx, ready'.truthSlot_eq_ok hdst, ok_bind, ht]
  refine ⟨_, rfl, ⟨frame.trans (.setTruthSlot ..), hw⟩, fun r hr => ?_⟩
  simp only [lanes_setTruthSlot ready' hdst hs, hl r hr, lane_truthPlanes hdst.ne_zero,
    lane_truthPlanes hx.ne_zero, Lanes.setTruth]

theorem reduceReasonGroup_spec (k : Kernels) (mode : ExecutionMode) :
    ∃ e', reduceReasonGroup k heap e (heap addr) row rows mode = .ok e' ∧
      (Frame e e' ∧ e'.truthWords = e.truthWords) ∧ ∀ r < rows,
        (e'.lanes rows r).reasons = Function.update (e.lanes rows r).reasons
          ((heap addr).reasonSlots.getD row 0) ((((heap addr).operandsOf row).map fun o =>
            (e.lanes rows r).reasons ((heap addr).reasonSlotOf o)).foldl (· ||| ·) 0#16) := by
  have hdst := (sched.row row hrow).reasonSlot
  have ⟨o, drives⟩ := exists_drives (heap addr).reasonSlotOf ((heap addr).reasonSlots.getD row 0)
    ((sched.row row hrow).operands_ne_nil hg)
  have ho := sched.reasonSlotOf hrow (List.mem_of_getElem? drives.mem)
  have ⟨e₁, h₁, inv₁, view₁⟩ : ∃ e₁, loadReasonDriver heap e (heap addr) row rows
        (driver (heap addr).reasonSlotOf ((heap addr).operandsOf row)
          ((heap addr).reasonSlots.getD row 0)) = Except.ok e₁ ∧
      (Frame e e₁ ∧ e₁.truthWords = e.truthWords) ∧ ∀ r < rows,
        (e₁.lanes rows r).reasons = Function.update (e.lanes rows r).reasons
          ((heap addr).reasonSlots.getD row 0)
          ((e.lanes rows r).reasons ((heap addr).reasonSlotOf o)) := by
    cases hd : driver (heap addr).reasonSlotOf ((heap addr).operandsOf row)
      ((heap addr).reasonSlots.getD row 0)
    case some =>
      refine ⟨e, rfl, ⟨.refl e, rfl⟩, fun r _ => ?_⟩
      rw [drives.isSome (by rw [hd]; rfl), Function.update_eq_self]
    case none =>
      refine ⟨_, by
        simp only [loadReasonDriver, Drives.fetch_first drives hd, ok_bind, ready.reasonSlot_eq_ok ho]
        rfl,
        ⟨.setReasonSlot .., rfl⟩, fun r _ => ?_⟩
      rw [lanes_setReasonSlot ready hdst (ready.length_reasonPlanes ho), lane_reasonPlanes ho.ne_zero]
      rfl
  simp only [reduceReasonGroup, groupDriver_eq, h₁, ok_bind]
  refine foldlM_inPlace ReasonMask.meet_or drives (fun s x => by simp)
    (fun s x i hx hi ⟨frame, hw⟩ => ?_) (fun _ => BitVec.or_zero) inv₁ view₁
  have ready' := frame.ready ready
  have hx := sched.reasonSlotOf hrow hx
  have hld := ready'.length_reasonPlanes hdst
  have hlx := ready'.length_reasonPlanes hx
  simp only [hi, if_false, ready'.reasonSlot_eq_ok hx, ready'.reasonSlot_eq_ok hdst, ok_bind,
    combineReasons_eq k mode (hld.trans hlx.symm)]
  refine ⟨_, rfl, ⟨frame.trans (.setReasonSlot ..), hw⟩, fun r hr => ?_⟩
  rw [lanes_setReasonSlot ready' hdst (by rw [List.length_zipWith, hld, hlx, Nat.min_self]),
    ReasonPlanes.lane_zipWith_or (hld.trans hlx.symm), lane_reasonPlanes hdst.ne_zero,
    lane_reasonPlanes hx.ne_zero]
  rfl

end Group
end NornRune.Executor
