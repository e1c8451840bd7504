import NornRune.Execution.Theorems.Execute
import NornRune.Execution.Theorems.Reader
import NornRune.Lib.Dataflow

open Checked

namespace NornRune

-- The instructions of a program as straight-line code. What an instruction computes on a row depends
-- on the values of its operands only, not on slots.
def instrSemantics (stateReasons : List Nat) (facts : Row) : Dataflow.Semantics Instr Lane where
  operands := Instr.operands
  denote instr value := instr.lane stateReasons facts value
  congr instr v v' h := by
    cases instr
    case all os => exact congrArg Lane.all (List.map_congr_left h)
    case any os => exact congrArg Lane.any (List.map_congr_left h)
    case not o => exact congrArg Lane.not (h o (List.mem_singleton_self o))
    all_goals rfl

namespace Program

-- An instruction is needed from a row on if it is a root or an operand of an instruction there.
def needed (p : Program) (row instruction : Nat) : Bool :=
  p.rootFlags.getD (instruction - 1) 0#8 != 0#8 ||
  (List.range' row (p.opcodes.length - row)).any fun user => (p.operandsOf user).contains instruction

-- No slot is given to another instruction as long as what it holds is needed.
def slotsKept (p : Program) : Bool :=
  (List.range p.opcodes.length).all fun row => (List.range row).all fun earlier =>
    !p.needed (row + 1) (earlier + 1) ||
    (p.truthSlots.getD earlier 0 != p.truthSlots.getD row 0 &&
      p.reasonSlots.getD earlier 0 != p.reasonSlots.getD row 0)

variable {p : Program} {row instruction : Nat}

theorem needed_iff : p.needed row instruction ↔
    p.rootFlags.getD (instruction - 1) 0#8 ≠ 0#8 ∨
      ∃ user, row ≤ user ∧ user < p.opcodes.length ∧ instruction ∈ p.operandsOf user := by
  simp only [needed, Bool.or_eq_true, bne_iff_ne, List.any_eq_true, List.mem_range'_1,
    List.contains_iff_mem]
  refine or_congr_right ⟨fun ⟨user, hu, hm⟩ => ⟨user, by omega, by omega, hm⟩,
    fun ⟨user, hle, hlt, hm⟩ => ⟨user, by omega, hm⟩⟩

theorem needed_mono {row' : Nat} (hle : row ≤ row') (h : p.needed row' instruction) :
    p.needed row instruction := by
  rw [needed_iff] at *
  exact h.imp_right fun ⟨user, hu, hlt, hm⟩ => ⟨user, by omega, hlt, hm⟩

theorem slots_ne_of_slotsKept (h : p.slotsKept) {i : Nat} (hi : i < row)
    (hrow : row < p.opcodes.length) (hn : p.needed (row + 1) (i + 1)) :
    p.truthSlots.getD i 0 ≠ p.truthSlots.getD row 0 ∧
      p.reasonSlots.getD i 0 ≠ p.reasonSlots.getD row 0 := by
  simp only [slotsKept, List.all_eq_true, List.mem_range, Bool.or_eq_true, Bool.not_eq_true',
    Bool.and_eq_true, bne_iff_ne] at h
  rcases h row hrow i hi with hn' | hne
  · rw [hn] at hn'
    cases hn'
  · exact hne

end Program

namespace Lanes

variable {p : Program} {stateReasons : List Nat} {facts : Row} {code : List Instr}

theorem value_set_self (s : Lanes) (row : Nat) (lane : Lane) : (s.set p row lane).value p (row + 1) = lane := by
  simp only [value, set, setTruth, setReasons, Program.truthSlotOf, Program.reasonSlotOf,
    Nat.add_sub_cancel, Function.update_self]

theorem value_set_of_ne (s : Lanes) {i row : Nat} (lane : Lane)
    (ht : p.truthSlots.getD i 0 ≠ p.truthSlots.getD row 0)
    (hr : p.reasonSlots.getD i 0 ≠ p.reasonSlots.getD row 0) :
    (s.set p row lane).value p (i + 1) = s.value p (i + 1) := by
  simp only [value, set, setTruth, setReasons, Program.truthSlotOf, Program.reasonSlotOf,
    Nat.add_sub_cancel, Function.update_of_ne ht, Function.update_of_ne hr]

theorem run_eq_exec (start : Nat) (s : Lanes) : run p stateReasons facts start code s =
    Dataflow.exec (instrSemantics stateReasons facts) (value p) (set p) start code s := by
  induction code generalizing start s
  case nil => rfl
  case cons instr code ih => exact ih (start + 1) _

end Lanes

variable {p : Program} {stateReasons : List Nat} {code : List Instr}

theorem ordered_code (sched : Scheduled p) (hc : p.code = .ok code) (stateReasons : List Nat)
    (facts : Row) :
    Dataflow.Ordered (instrSemantics stateReasons facts) code := by
  intro i instr hi o ho
  have ⟨hlt, hr⟩ := getElem?_code hc hi
  exact operands_le_of_resolveInstr sched hlt hr o ho

def codeValues (code : List Instr) (stateReasons : List Nat) (facts : Row) : Nat → Lane :=
  Dataflow.solve (instrSemantics stateReasons facts) 0 code fun _ => ⟨.bottom, 0#16⟩

theorem codeValues_succ (sched : Scheduled p) (hc : p.code = .ok code) {i : Nat} {instr : Instr}
    (hi : code[i]? = some instr) (stateReasons : List Nat) (facts : Row) :
    codeValues code stateReasons facts (i + 1) =
      instr.lane stateReasons facts (codeValues code stateReasons facts) :=
  (ordered_code sched hc stateReasons facts).solves _ i instr hi

variable {id : Nat} {sizes : ExecutionSizes}

theorem value_run_of_slotsKept (kept : p.slotsKept) (sched : Scheduled p) (hc : p.code = .ok code)
    (facts : Row) (s : Lanes) {n : Nat} (hn : n ≤ code.length) (h0 : id ≠ 0) (hid : id ≤ n)
    (hneed : p.needed n id ∨ id = n) (stateReasons : List Nat) :
    (Lanes.run p stateReasons facts 0 (code.take n) s).value p id =
      codeValues code stateReasons facts id := by
  have ordered := ordered_code sched hc stateReasons facts
  have hlen := length_code hc
  have htake : ∀ i instr, (code.take n)[i]? = some instr → code[i]? = some instr := fun i instr hi => by
    rw [List.getElem?_take] at hi
    split at hi
    · exact hi
    · cases hi
  rw [Lanes.run_eq_exec]
  refine Dataflow.read_exec (fun row id => p.needed row id ∨ id = n ∨ id = row)
    (fun i instr hi => ordered i instr (htake i instr hi)) ?_
    (fun i instr hi => ordered.solves _ i instr (htake i instr hi)) h0 ?_ ?_
  case refine_1 =>
    refine ⟨fun s row x _ _ => Lanes.value_set_self .., fun s row x id hrow h0 hle hneed => ?_,
      fun i instr hi o ho => ?_⟩
    case refine_1 =>
      rw [List.length_take, Nat.min_eq_left hn] at hrow
      have hneed : p.needed (row + 1) id := by
        rcases hneed with h | h | h
        · exact h
        · omega
        · omega
      obtain ⟨i, rfl⟩ := Nat.exists_eq_succ_of_ne_zero h0
      have hne := Program.slots_ne_of_slotsKept kept hle (by omega) hneed
      exact ⟨.inl (Program.needed_mono (Nat.le_succ row) hneed), Lanes.value_set_of_ne s x hne.1 hne.2⟩
    case refine_2 =>
      have ⟨hlt, hr⟩ := getElem?_code hc (htake i instr hi)
      exact .inl (Program.needed_iff.mpr
        (.inr ⟨i, Nat.le_refl i, hlt, operands_of_resolveInstr sched hlt hr ho⟩))
  case refine_2 => rwa [List.length_take, Nat.min_eq_left hn]
  case refine_3 =>
    rw [List.length_take, Nat.min_eq_left hn]
    exact hneed.imp_right .inl

structure ResultRoot (p : Program) (id : Nat) : Prop where
  ne_zero : id ≠ 0
  le : id ≤ p.opcodes.length
  flag : p.rootFlags.getD (id - 1) 0#8 ≠ 0#8

theorem resultRoot_of_valid {flag : RootFlags} (hf : flag ≠ 0#8) (h : validExecutionRoot p id flag) :
    ResultRoot p id := by
  simp only [validExecutionRoot, Bool.and_eq_true, bne_iff_ne, decide_eq_true_eq, RootFlags.has,
    beq_iff_eq] at h
  refine ⟨h.1.1, h.1.2, fun hz => hf ?_⟩
  rw [← h.2, hz, BitVec.zero_and]

theorem ExecutionChecked.resultRoot {batch : Batch} (h : ExecutionChecked p batch sizes)
    (hid : id ∈ p.resultRoots) : ResultRoot p id := by
  have hs := h.semantics
  simp only [validExecutionSemantics, Bool.and_eq_true, List.all_eq_true, List.mem_range] at hs
  have hclauses := hs.2
  have hrequirements := hs.1.2
  have htables := hs.1.1.1.1.1.2
  simp only [Program.resultRoots, List.mem_append, List.mem_flatMap, List.mem_range] at hid
  rcases hid with (hid | hid) | ⟨row, hrow, hid⟩
  case inl.inl =>
    obtain ⟨row, hrow, he⟩ := List.getElem_of_mem hid
    have hlen : p.requirementRoots.length = p.requirementIDs.length := by
      simp only [validExecutionTables, Bool.and_eq_true, beq_iff_eq] at htables
      exact htables.1.1.1.1.1.1.1.1.1.1.1.1.1.1.2
    have hv := hrequirements row (hlen ▸ hrow)
    simp only [validExecutionRequirement, Bool.and_eq_true] at hv
    have := hv.1.1.1.2
    rw [List.getD_eq_getElem _ _ hrow, he] at this
    exact resultRoot_of_valid (by decide) this
  case inl.inr =>
    obtain ⟨row, hrow, he⟩ := List.getElem_of_mem hid
    have hv := hclauses row hrow
    simp only [validExecutionClause, Bool.and_eq_true] at hv
    have := hv.1.1.1.1.1.1.2
    rw [List.getD_eq_getElem _ _ hrow, he] at this
    exact resultRoot_of_valid (by decide) this
  case inr =>
    obtain ⟨edge, hm, he⟩ := List.mem_map.mp hid
    have hv := hclauses row hrow
    simp only [validExecutionClause, Bool.and_eq_true, List.all_eq_true] at hv
    exact he ▸ resultRoot_of_valid (by decide) (hv.1.1.1.1.2 edge hm).2

def valueReader (value : Nat → Lane) : LaneReader where
  truth id := .ok (value id).truth
  reasons id := .ok (value id).reasons

theorem evalRow_eq_values {batch : Batch} (kept : p.slotsKept)
    (checked : ExecutionChecked p batch sizes) (hc : p.code = .ok code) (facts : Row) :
    p.evalRow stateReasons code facts = finalizeRow p (valueReader (codeValues code stateReasons facts))
      (p.candidates facts) stateReasons facts.evidence := by
  refine finalizeRow_congr (fun id hid => ?_) _ _
  have root := checked.resultRoot hid
  have hlen := length_code hc
  have hvalue := value_run_of_slotsKept kept checked.sched hc facts Lanes.clear (Nat.le_refl _)
    root.ne_zero (hlen ▸ root.le) (.inl (Program.needed_iff.mpr (.inl root.flag))) stateReasons
  rw [List.take_length] at hvalue
  have hrow := root.ne_zero
  have hle := root.le
  have srow := checked.sched.row (id - 1) (by omega)
  simp only [valueReader, ← hvalue, Lanes.reader, if_neg (show p.truthSlotOf id ≠ 0 from srow.truthSlot.ne_zero),
    if_neg (show p.reasonSlotOf id ≠ 0 from srow.reasonSlot.ne_zero)]
  exact ⟨rfl, rfl⟩

end NornRune
