import NornRune.Execution.Theorems.Slots

open Bitplane Checked

namespace NornRune

-- What the execution of one instruction, given by its row, needs to know about the schedule. A group
-- with a single operand would do.
structure ScheduledRow (p : Program) (row : Nat) : Prop where
  opcode : p.opcodes.getD row .invalid ≠ .invalid
  truthSlot : Executor.TruthSlot p (p.truthSlots.getD row 0)
  reasonSlot : Executor.ReasonSlot p (p.reasonSlots.getD row 0)
  node : p.instructionNodes.getD row 0 ≠ 0
  operands_ne_nil : (p.opcodes.getD row .invalid).isGroup → p.operandsOf row ≠ []
  length_of_not : p.opcodes.getD row .invalid = .not → (p.operandsOf row).length = 1
  operand_ne : ∀ o ∈ p.operandsOf row, o ≠ 0
  operand_le : ∀ o ∈ p.operandsOf row, o ≤ row

structure Scheduled (p : Program) : Prop where
  fields : p.fields.length = p.opcodes.length
  values : p.values.length = p.opcodes.length
  truths : p.truthSlots.length = p.opcodes.length
  reasons : p.reasonSlots.length = p.opcodes.length
  row : ∀ row < p.opcodes.length, ScheduledRow p row

variable {p : Program} {row : Nat}

theorem scheduledRow_of_valid (h : validExecutionInstruction p row) : ScheduledRow p row := by
  simp only [validExecutionInstruction, Bool.and_eq_true, bne_iff_ne, decide_eq_true_eq,
    List.all_eq_true] at h
  have hlen : (p.operandsOf row).length = p.operandCounts.getD row 0 := Region.length_read h.1.1.2
  have hcount := h.1.2
  rw [← hlen] at hcount
  exact {
    opcode := fun he => absurd (he ▸ h.1.1.1.1.1.1.1.1.1.1) (by decide)
    truthSlot := ⟨h.1.1.1.1.1.1.1.1.2, h.1.1.1.1.1.1.1.2⟩
    reasonSlot := ⟨h.1.1.1.1.1.1.2, h.1.1.1.1.1.2⟩
    node := h.1.1.1.1.2
    operands_ne_nil := fun hg he => by
      rw [he, List.length_nil] at hcount
      generalize p.opcodes.getD row .invalid = opcode at hg hcount
      cases opcode <;> first | exact absurd hcount (by decide) | exact absurd hg (by decide)
    length_of_not := fun hn => by
      rw [hn] at hcount
      simpa [validOperandCount] using hcount
    operand_ne := fun o ho => (h.2 o ho).1
    operand_le := fun o ho => Nat.lt_succ_iff.mp (h.2 o ho).2
  }

theorem scheduled_of_valid (h : validExecutionSchedule p) : Scheduled p := by
  simp only [validExecutionSchedule, Bool.and_eq_true, beq_iff_eq, List.all_eq_true,
    List.mem_range] at h
  have hrow := h.2
  have h := h.1
  exact {
    fields := h.1.1.1.1.1.1.1.1.1.1.1.1.1.1.1.1.1.1.2
    values := h.1.1.1.1.1.1.1.1.1.1.1.1.1.1.1.1.1.2
    truths := h.1.1.1.1.1.1.2
    reasons := h.1.1.1.1.1.2
    row := fun row hr => scheduledRow_of_valid (hrow row hr)
  }

namespace Scheduled

variable {o : Nat}

theorem operand_lt (h : Scheduled p) (hr : row < p.opcodes.length) (ho : o ∈ p.operandsOf row) :
    o - 1 < p.opcodes.length := by
  have := (h.row row hr).operand_le o ho
  omega

theorem truthSlotOf (h : Scheduled p) (hr : row < p.opcodes.length) (ho : o ∈ p.operandsOf row) :
    Executor.TruthSlot p (p.truthSlotOf o) :=
  (h.row _ (h.operand_lt hr ho)).truthSlot

theorem reasonSlotOf (h : Scheduled p) (hr : row < p.opcodes.length) (ho : o ∈ p.operandsOf row) :
    Executor.ReasonSlot p (p.reasonSlotOf o) :=
  (h.row _ (h.operand_lt hr ho)).reasonSlot

end Scheduled

namespace ScheduledRow

theorem operands_of_not (h : ScheduledRow p row) (hn : p.opcodes.getD row .invalid = .not) :
    ∃ o, p.operandsOf row = [o] ∧ fetch p.operands (p.operandStarts.getD row 0) = .ok o := by
  have ⟨o, ho⟩ := List.length_eq_one_iff.mp (h.length_of_not hn)
  refine ⟨o, ho, fetch_eq_ok_iff.mpr ?_⟩
  have : (p.operandsOf row)[0]? = some o := by simp [ho]
  rw [Program.operandsOf, Region.getElem?_read] at this
  split at this
  · simpa using this
  · cases this

end ScheduledRow
end NornRune
