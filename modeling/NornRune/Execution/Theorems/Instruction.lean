import NornRune.Execution.Theorems.Evidence
import NornRune.Execution.Theorems.Groups
import NornRune.Execution.Theorems.PredicateIndex
import NornRune.Execution.Theorems.Simd

open Bitplane Checked

namespace NornRune.Executor

variable {k : Kernels} {heap : Heap} {addr row : Nat} {e e' : Executor} {batch : Batch}
  {mode : ExecutionMode}

structure Accepted (heap : Heap) (addr : Nat) (batch : Batch) : Prop where
  sched : Scheduled (heap addr)
  queries : validFactIndexQueries (heap addr)
  fits : batch.Fits (heap addr)
  evidence : (heap addr).usesEvidence → ∀ row, EvidenceFits (heap addr) (batch.rowEvidence row)

structure Bound (heap : Heap) (addr : Nat) (batch : Batch) (e : Executor) : Prop where
  states : e.states.program = some addr
  length : e.states.reasons.length = (heap addr).evidenceStateNames.length
  sound : e.factIndex.Sound heap addr batch

theorem Frame.bound (frame : Frame e e') (h : e.Bound heap addr batch) :
    e'.Bound heap addr batch where
  states := frame.states ▸ h.states
  length := frame.states ▸ h.length
  sound := frame.factIndex ▸ h.sound

def groupLane (opcode : Opcode) (lanes : List Lane) : Lane :=
  ⟨(lanes.map (·.truth)).foldl (groupTruth opcode) (groupUnit opcode),
    (lanes.map (·.reasons)).foldl (· ||| ·) 0#16⟩

theorem groupLane_all (lanes : List Lane) : groupLane .all lanes = Lane.all lanes := by
  have : ∀ a : Lane, lanes.foldl Lane.and a = ⟨(lanes.map (·.truth)).foldl Truth.and a.truth,
      (lanes.map (·.reasons)).foldl (· ||| ·) a.reasons⟩ := by
    induction lanes <;> simp_all [Lane.and]
  rw [Lane.all, this]
  rfl

theorem groupLane_any (lanes : List Lane) : groupLane .any lanes = Lane.any lanes := by
  have : ∀ a : Lane, lanes.foldl Lane.or a = ⟨(lanes.map (·.truth)).foldl Truth.or a.truth,
      (lanes.map (·.reasons)).foldl (· ||| ·) a.reasons⟩ := by
    induction lanes <;> simp_all [Lane.or]
  rw [Lane.any, this]
  rfl

-- What an instruction has to deliver: it succeeds and changes nothing but its own slots, on each row
-- by itself.
def Steps (x : Except Panic Executor) (heap : Heap) (addr : Nat) (batch : Batch) (e : Executor)
    (row : Nat) (lane : Nat → Lane) : Prop :=
  ∃ e', x = .ok e' ∧ Frame e e' ∧
    ∀ r < batch.rows, e'.lanes batch.rows r = (e.lanes batch.rows r).set (heap addr) row (lane r)

theorem Steps.congr {x : Except Panic Executor} {f g : Nat → Lane}
    (h : Steps x heap addr batch e row f) (hfg : ∀ r < batch.rows, f r = g r) :
    Steps x heap addr batch e row g := by
  have ⟨e', hx, frame, hl⟩ := h
  exact ⟨e', hx, frame, fun r hr => hfg r hr ▸ hl r hr⟩

theorem setLeaf_steps {leaf : Leaf} {f : Nat → Lane} (h : leaf.Holds batch.rows f)
    (ready : e.Ready heap addr batch.rows) (srow : ScheduledRow (heap addr) row) :
    Steps (.ok (e.setLeaf (heap addr) row batch.rows leaf)) heap addr batch e row f := by
  refine ⟨_, rfl, (Frame.setTruthSlot ..).trans (.setReasonSlot ..), fun r hr => ?_⟩
  rw [setLeaf, lanes_setReasonSlot ((Frame.setTruthSlot ..).ready ready) srow.reasonSlot h.length,
    lanes_setTruthSlot ready srow.truthSlot h.shaped, h.truth r hr, h.reasons r hr]
  rfl

theorem Steps.of_compareMask {x : Except Panic Executor} {f : Nat → Lane} (mask : Slice Bool)
    (h : Steps x heap addr batch { e with compareMask := mask } row f) :
    Steps x heap addr batch e row f := by
  have ⟨e', hx, frame, hl⟩ := h
  exact ⟨e', hx, { frame with }, hl⟩

section Instruction

variable (acc : Accepted heap addr batch) (ready : e.Ready heap addr batch.rows)
  (bound : e.Bound heap addr batch) (hrow : row < (heap addr).opcodes.length)

include acc ready bound hrow

theorem executePredicate_steps {q : Predicate} (h : resolvePredicate (heap addr) row = .ok q)
    (hop : ((heap addr).opcodes.getD row .invalid).isPredicate) :
    Steps (executePredicate k heap e addr row batch mode
      (e.truthPlanes ((heap addr).truthSlots.getD row 0) batch.rows)
      (e.reasonPlanes ((heap addr).reasonSlots.getD row 0) batch.rows)) heap addr batch e row
      fun r => q.lane (batch.row r) := by
  have resolved := resolvePredicate_eq_ok h
  have srow := acc.sched.row row hrow
  have hd := ready.shaped srow.truthSlot
  have hr := ready.length_reasonPlanes srow.reasonSlot
  rw [executePredicate]
  rcases evalPredicateIndex_holds k mode acc.fits bound.sound acc.queries hd hr hrow resolved
    with hi | ⟨leaf, hi, holds⟩
  case inr =>
    rw [hi]
    exact setLeaf_steps holds ready srow
  case inl =>
    have ⟨mask, leaf?, hs, holds⟩ :=
      evalPredicateSIMD_holds (k := k) e.compareMask mode acc.fits hd hr resolved
    simp only [hi, hs, ok_bind]
    refine Steps.of_compareMask mask ?_
    have ready' : Ready heap addr batch.rows { e with compareMask := mask } := { ready with }
    cases leaf?
    case some leaf => exact setLeaf_steps (holds leaf rfl) ready' srow
    case none =>
      have ⟨leaf, he, holds⟩ := evalPredicate_holds acc.fits hd hr hrow
        (acc.sched.fields ▸ hrow) (acc.sched.values ▸ hrow) hop resolved
      simp only [he, ok_bind]
      exact setLeaf_steps holds ready' srow

omit bound in
theorem executeNot_steps {o : Nat} (ho : (heap addr).operandsOf row = [o])
    (hf : fetch (heap addr).operands ((heap addr).operandStarts.getD row 0) = .ok o) :
    Steps (executeNot heap e (heap addr) row batch.rows
      (e.truthPlanes ((heap addr).truthSlots.getD row 0) batch.rows)) heap addr batch e row
      fun r => ((e.lanes batch.rows r).value (heap addr) o).not := by
  have srow := acc.sched.row row hrow
  have hto := acc.sched.truthSlotOf hrow (ho ▸ List.mem_singleton_self o)
  have hro := acc.sched.reasonSlotOf hrow (ho ▸ List.mem_singleton_self o)
  have ⟨t, ht, hs, hl⟩ := Planes.not_computes (ready.shaped srow.truthSlot) (ready.shaped hto)
  have ready' := (Frame.setTruthSlot e ((heap addr).truthSlots.getD row 0) batch.rows t).ready ready
  simp only [executeNot, hf, ready.truthSlot_eq_ok hto, ht, ok_bind, ready'.reasonSlot_eq_ok hro]
  split
  case isTrue hne =>
    refine ⟨_, rfl, (Frame.setTruthSlot ..).trans (.setReasonSlot ..), fun r hr => ?_⟩
    rw [lanes_setReasonSlot ready' srow.reasonSlot (ready'.length_reasonPlanes hro),
      lane_reasonPlanes hro.ne_zero, lanes_setTruthSlot ready srow.truthSlot hs, hl r hr]
    simp only [lane_truthPlanes hto.ne_zero]
    rfl
  case isFalse he =>
    refine ⟨_, rfl, Frame.setTruthSlot .., fun r hr => ?_⟩
    rw [lanes_setTruthSlot ready srow.truthSlot hs, hl r hr]
    simp only [lane_truthPlanes hto.ne_zero]
    refine Lanes.ext rfl ?_
    have he : (heap addr).reasonSlots.getD row 0 = (heap addr).reasonSlotOf o := by simpa using he
    simp only [Lanes.set, Lanes.setTruth, Lanes.setReasons, he]
    exact (Function.update_eq_self _ _).symm

omit bound in
theorem executeGroup_steps (hg : ((heap addr).opcodes.getD row .invalid).isGroup) (opcode : Opcode) :
    Steps (do
        let e ← reduceTruthGroup k heap e (heap addr) row opcode batch.rows mode
        reduceReasonGroup k heap e (heap addr) row batch.rows mode) heap addr batch e row
      fun r => groupLane opcode (((heap addr).operandsOf row).map
        ((e.lanes batch.rows r).value (heap addr))) := by
  have ⟨e₁, h₁, ⟨frame₁, hr₁⟩, hl₁⟩ := reduceTruthGroup_spec acc.sched hrow hg ready k opcode mode
  have ⟨e₂, h₂, ⟨frame₂, ht₂⟩, hl₂⟩ := reduceReasonGroup_spec acc.sched hrow hg
    (frame₁.ready ready) k mode
  simp only [h₁, ok_bind, h₂]
  refine ⟨e₂, rfl, frame₁.trans frame₂, fun r hr => ?_⟩
  have reasons_eq : (e₁.lanes batch.rows r).reasons = (e.lanes batch.rows r).reasons := by
    simp only [lanes, reasonPlanes, hr₁]
  refine Lanes.ext ?_ ?_
  case refine_1 =>
    have : (e₂.lanes batch.rows r).truth = (e₁.lanes batch.rows r).truth := by
      simp only [lanes, truthPlanes, ht₂]
    rw [this, hl₁ r hr]
    simp only [Lanes.set, Lanes.setTruth, Lanes.setReasons, groupLane, List.map_map]
    rfl
  case refine_2 =>
    rw [hl₂ r hr, reasons_eq]
    simp only [Lanes.set, Lanes.setTruth, Lanes.setReasons, groupLane, List.map_map]
    rfl

theorem executeEvidence_steps (ho : (heap addr).opcodes.getD row .invalid = .evidence)
    {instr : Instr} (h : resolveInstr (heap addr) row = .ok instr) :
    Steps (do
        return e.setLeaf (heap addr) row batch.rows (← evalEvidenceValidated
          (e.truthPlanes ((heap addr).truthSlots.getD row 0) batch.rows)
          (e.reasonPlanes ((heap addr).reasonSlots.getD row 0) batch.rows) batch heap addr e.states
          ((heap addr).evidencePredicate row))) heap addr batch e row
      fun r => instr.lane e.states.reasons (batch.row r) ((e.lanes batch.rows r).value (heap addr)) := by
  have srow := acc.sched.row row hrow
  have uses : (heap addr).usesEvidence := by
    rw [Program.usesEvidence, List.any_eq_true]
    refine ⟨_, List.getElem_mem hrow, ?_⟩
    rw [List.getD_eq_getElem _ _ hrow] at ho
    simp [ho]
  simp only [resolveInstr, ho, require_bind_eq_ok_iff, Bool.and_eq_true] at h
  have ⟨⟨⟨⟨hk, hkl⟩, hs⟩, hsl⟩, h⟩ := h
  cases h
  have ⟨leaf, he, holds⟩ := evalEvidenceUnchecked_holds (q := (heap addr).evidencePredicate row)
    (ready.shaped srow.truthSlot) (ready.length_reasonPlanes srow.reasonSlot) (acc.evidence uses)
    bound.length
  simp only [evalEvidenceValidated, requireEvidencePredicate, bound.states, bound.length, hk, hkl, hs,
    hsl, beq_self_eq_true, Bool.and_self, require_of, ok_bind, he]
  exact setLeaf_steps holds ready srow

theorem executeInstructionMode_steps (k : Kernels) (mode : ExecutionMode) {instr : Instr}
    (h : resolveInstr (heap addr) row = .ok instr) :
    Steps (executeInstructionMode k heap e addr batch mode row) heap addr batch e row
      fun r => instr.lane e.states.reasons (batch.row r) ((e.lanes batch.rows r).value (heap addr)) := by
  have srow := acc.sched.row row hrow
  have hd := ready.shaped srow.truthSlot
  have hr := ready.length_reasonPlanes srow.reasonSlot
  have hop : fetch (heap addr).opcodes row = .ok ((heap addr).opcodes.getD row .invalid) := by
    rw [fetch_of_lt hrow, List.getD_eq_getElem _ _ hrow]
  simp only [executeInstructionMode, hop, ready.truthSlot_eq_ok srow.truthSlot,
    ready.reasonSlot_eq_ok srow.reasonSlot, ok_bind]
  cases ho : (heap addr).opcodes.getD row .invalid
  case invalid => exact absurd ho srow.opcode
  case evidence => exact executeEvidence_steps acc ready bound hrow ho h
  case all =>
    simp only [resolveInstr, ho] at h
    cases h
    exact (executeGroup_steps acc ready hrow (by rw [ho]; rfl) .all).congr fun r _ =>
      groupLane_all _
  case any =>
    simp only [resolveInstr, ho] at h
    cases h
    exact (executeGroup_steps acc ready hrow (by rw [ho]; rfl) .any).congr fun r _ =>
      groupLane_any _
  case not =>
    have ⟨o, hos, hf⟩ := srow.operands_of_not ho
    simp only [resolveInstr, ho, hos] at h
    cases h
    exact executeNot_steps acc ready hrow hos hf
  case boolean =>
    simp only [resolveInstr, ho] at h
    have ⟨v, hv, h⟩ := of_bind h
    cases h
    have ⟨t, ht, hs, hl⟩ := Planes.set_computes hd v.boolean
    simp only [hv, ht, ok_bind]
    exact setLeaf_steps ⟨hs, by rw [List.length_replicate, hr], hl,
      fun r _ => ReasonPlanes.lane_replicate_zero ..⟩ ready srow
  case defined =>
    simp only [resolveInstr, ho] at h
    have ⟨q, hq, h⟩ := of_bind h
    cases h
    have ⟨leaf, he, holds⟩ := evalPredicate_holds acc.fits hd hr hrow (acc.sched.fields ▸ hrow)
      (acc.sched.values ▸ hrow) (by rw [ho]; rfl) (resolvePredicate_eq_ok hq)
    simp only [he, ok_bind]
    exact setLeaf_steps holds ready srow
  all_goals
    simp only [resolveInstr, ho] at h
    have ⟨q, hq, h⟩ := of_bind h
    cases h
    exact executePredicate_steps acc ready bound hrow hq (by rw [ho]; rfl)

end Instruction

theorem resolved_of_executePredicate {dst : Planes} {reasons : List Word}
    (h : executePredicate k heap e addr row batch mode dst reasons = .ok e') :
    ∃ q, resolvePredicate (heap addr) row = .ok q := by
  simp only [executePredicate] at h
  have ⟨leaf?, hi, h⟩ := of_bind h
  cases leaf?
  case some => exact resolved_of_evalPredicateIndex hi
  case none =>
    have ⟨⟨mask, leaf?⟩, hs, h⟩ := of_bind h
    cases leaf?
    case some => exact resolved_of_evalPredicateSIMD hs
    case none =>
      have ⟨leaf, he, _⟩ := of_bind h
      exact resolved_of_evalPredicate he

theorem resolved_of_executeInstructionMode
    (h : executeInstructionMode k heap e addr batch mode row = .ok e') :
    ∃ instr, resolveInstr (heap addr) row = .ok instr := by
  simp only [executeInstructionMode] at h
  have ⟨opcode, ho, h⟩ := of_bind h
  have ho : (heap addr).opcodes.getD row .invalid = opcode := by
    rw [List.getD_eq_getElem?_getD, fetch_eq_ok_iff.mp ho, Option.getD_some]
  have ⟨dst, _, h⟩ := of_bind h
  have ⟨reasons, _, h⟩ := of_bind h
  simp only [resolveInstr, ho]
  cases opcode
  case invalid => cases h
  case all => exact ⟨_, rfl⟩
  case any => exact ⟨_, rfl⟩
  case not => exact ⟨_, rfl⟩
  case boolean =>
    have ⟨v, hv, _⟩ := of_bind h
    exact ⟨_, by simp only [hv, ok_bind]; rfl⟩
  case evidence =>
    have ⟨leaf, he, _⟩ := of_bind h
    simp only [evalEvidenceValidated, requireEvidencePredicate, require_bind_eq_ok_iff,
      Bool.and_eq_true] at he
    have hr := he.1
    refine ⟨_, require_bind_eq_ok_iff.mpr ⟨?_, rfl⟩⟩
    simp only [Bool.and_eq_true]
    exact ⟨⟨⟨hr.1.1.1.2, hr.1.1.2⟩, hr.1.2⟩, hr.2⟩
  case defined =>
    have ⟨leaf, he, _⟩ := of_bind h
    have ⟨q, hq⟩ := resolved_of_evalPredicate he
    exact ⟨_, by simp only [hq, ok_bind]; rfl⟩
  all_goals
    have ⟨q, hq⟩ := resolved_of_executePredicate h
    exact ⟨_, by simp only [hq, ok_bind]; rfl⟩

end NornRune.Executor
