import NornRune.Execution.Theorems.Instruction

open Bitplane Checked

namespace NornRune

namespace Lanes

structure Agree (p : Program) (n : Nat) (s t : Lanes) : Prop where
  truth : ∀ row < n, s.truth (p.truthSlots.getD row 0) = t.truth (p.truthSlots.getD row 0)
  reasons : ∀ row < n, s.reasons (p.reasonSlots.getD row 0) = t.reasons (p.reasonSlots.getD row 0)

namespace Agree

variable {p : Program} {n row : Nat} {s t : Lanes} {instr : Instr}

theorem refl (p : Program) (n : Nat) (s : Lanes) : Agree p n s s :=
  ⟨fun _ _ => rfl, fun _ _ => rfl⟩

theorem value (h : Agree p n s t) {o : Nat} (h0 : o ≠ 0) (ho : o ≤ n) :
    s.value p o = t.value p o := by
  have hlt : o - 1 < n := by omega
  simp only [Lanes.value, Program.truthSlotOf, Program.reasonSlotOf, h.truth _ hlt, h.reasons _ hlt]

theorem set (h : Agree p row s t) (lane : Lane) :
    Agree p (row + 1) (s.set p row lane) (t.set p row lane) := by
  constructor
  all_goals
    intro i hi
    simp only [Lanes.set, setTruth, setReasons, Function.update_apply]
    split
    case isTrue => rfl
    case isFalse hne =>
      have hlt : i < row := by
        rcases Nat.lt_succ_iff_lt_or_eq.mp hi with hi | rfl
        · exact hi
        · exact absurd rfl hne
      first | exact h.truth i hlt | exact h.reasons i hlt

theorem step (stateReasons : List Nat) (facts : Row) (h : Agree p row s t)
    (hi : ∀ o ∈ instr.operands, o ≠ 0 ∧ o ≤ row) :
    Agree p (row + 1) (s.step p stateReasons facts row instr)
      (t.step p stateReasons facts row instr) := by
  have : instr.lane stateReasons facts (s.value p) = instr.lane stateReasons facts (t.value p) := by
    have hv : ∀ o ∈ instr.operands, s.value p o = t.value p o := fun o ho =>
      h.value (hi o ho).1 (hi o ho).2
    cases instr
    case all os => exact congrArg _ (List.map_congr_left hv)
    case any os => exact congrArg _ (List.map_congr_left hv)
    case not o => exact congrArg Lane.not (hv o (List.mem_singleton_self o))
    all_goals rfl
  rw [Lanes.step, Lanes.step, this]
  exact h.set _

theorem run (stateReasons : List Nat) (facts : Row) {code : List Instr} (h : Agree p row s t)
    (hi : ∀ i instr, code[i]? = some instr → ∀ o ∈ instr.operands, o ≠ 0 ∧ o ≤ row + i) :
    Agree p (row + code.length) (Lanes.run p stateReasons facts row code s)
      (Lanes.run p stateReasons facts row code t) := by
  induction code generalizing row s t
  case nil => exact h
  case cons instr code ih =>
    have hs := h.step stateReasons facts (hi 0 instr rfl)
    have := ih hs fun i instr' he o ho => by
      have := hi (i + 1) instr' he o ho
      omega
    rwa [List.length_cons, ← Nat.add_assoc, Nat.add_right_comm]

end Agree
end Lanes

variable {p : Program} {code : List Instr}

theorem operands_of_resolveInstr (sched : Scheduled p) {row : Nat} (hrow : row < p.opcodes.length)
    {instr : Instr} (h : resolveInstr p row = .ok instr) {o : Nat} (ho : o ∈ instr.operands) :
    o ∈ p.operandsOf row := by
  have resolved := resolveInstr_eq_ok h
  cases instr
  case constant | predicate | evidence => cases ho
  case all | any => exact resolved.2 ▸ ho
  case not =>
    have ⟨o', hos, _⟩ := (sched.row row hrow).operands_of_not resolved.1
    rw [Instr.operands, resolved.2, hos] at ho
    exact hos ▸ ho

theorem operands_le_of_resolveInstr (sched : Scheduled p) {row : Nat} (hrow : row < p.opcodes.length)
    {instr : Instr} (h : resolveInstr p row = .ok instr) :
    ∀ o ∈ instr.operands, o ≠ 0 ∧ o ≤ row := by
  intro o ho
  have hm := operands_of_resolveInstr sched hrow h ho
  exact ⟨(sched.row row hrow).operand_ne o hm, (sched.row row hrow).operand_le o hm⟩

theorem length_code (h : p.code = .ok code) : code.length = p.opcodes.length := by
  simpa using (forall₂_of_mapM_eq_ok h).length_eq.symm

theorem getElem?_code (h : p.code = .ok code) {i : Nat} {instr : Instr} (hi : code[i]? = some instr) :
    i < p.opcodes.length ∧ resolveInstr p i = .ok instr := by
  have hlen := length_code h
  have ⟨hlt, he⟩ := List.getElem?_eq_some_iff.mp hi
  have := (forall₂_of_mapM_eq_ok h).get (i := i) (by simpa [← hlen] using hlt) hlt
  simp only [List.get_eq_getElem, List.getElem_range, he] at this
  exact ⟨hlen ▸ hlt, this⟩

theorem agree_final (sched : Scheduled p) (h : p.code = .ok code) (stateReasons : List Nat)
    (facts : Row) (s : Lanes) :
    Lanes.Agree p p.opcodes.length (Lanes.run p stateReasons facts 0 code s)
      (Lanes.final p stateReasons facts code) := by
  have := @Lanes.Agree.run p 0 s Lanes.clear stateReasons facts code ⟨by simp, by simp⟩
    fun i instr hi o ho => by
      have ⟨hlt, hr⟩ := getElem?_code h hi
      simpa using operands_le_of_resolveInstr sched hlt hr o ho
  rwa [length_code h, Nat.zero_add] at this

namespace Executor

variable {k : Kernels} {heap : Heap} {addr : Nat} {e : Executor} {batch : Batch}
  {mode : ExecutionMode}

theorem executeRows_run (k : Kernels) (mode : ExecutionMode) (acc : Accepted heap addr batch)
    {start : Nat} (ready : e.Ready heap addr batch.rows) (bound : e.Bound heap addr batch)
    (hc : (List.range' start code.length).mapM (resolveInstr (heap addr)) = .ok code)
    (hle : start + code.length ≤ (heap addr).opcodes.length) :
    ∃ e', executeRows k heap addr batch mode (List.range' start code.length) e = (e', .ok ()) ∧
      Frame e e' ∧ ∀ r < batch.rows, e'.lanes batch.rows r =
        Lanes.run (heap addr) e.states.reasons (batch.row r) start code (e.lanes batch.rows r) := by
  induction code generalizing start e
  case nil => exact ⟨e, rfl, .refl e, fun _ _ => rfl⟩
  case cons instr code hi =>
    rw [List.length_cons, List.range'_succ, List.mapM_cons] at hc
    rw [List.length_cons] at hle
    have ⟨instr', hr, hc⟩ := of_bind hc
    have ⟨code', hc', hc⟩ := of_bind hc
    cases hc
    have ⟨e₁, h₁, frame₁, hl₁⟩ := executeInstructionMode_steps acc ready bound (by omega) k mode hr
    have ⟨e₂, h₂, frame₂, hl₂⟩ := hi (frame₁.ready ready) (frame₁.bound bound) hc' (by omega)
    refine ⟨e₂, ?_, frame₁.trans frame₂, fun r hr => ?_⟩
    · simp only [List.length_cons, List.range'_succ, executeRows, h₁, h₂]
    · rw [hl₂ r hr, hl₁ r hr, frame₁.states]
      rfl

-- A run that stops half way leaves everything but the slots as it was, and only stops at an
-- instruction that lacks its field or its literals.
theorem executeRows_frame (acc : Accepted heap addr batch) (ready : e.Ready heap addr batch.rows)
    (bound : e.Bound heap addr batch) {rows : List Nat}
    (hlt : ∀ row ∈ rows, row < (heap addr).opcodes.length) :
    Frame e (executeRows k heap addr batch mode rows e).1 ∧
      ((executeRows k heap addr batch mode rows e).2 = .ok () →
        ∃ code, rows.mapM (resolveInstr (heap addr)) = .ok code) := by
  induction rows generalizing e
  case nil => exact ⟨.refl e, fun _ => ⟨[], rfl⟩⟩
  case cons row rows hi =>
    cases h : executeInstructionMode k heap e addr batch mode row
    case error text =>
      simp only [executeRows, h]
      exact ⟨.refl e, fun h => by cases h⟩
    case ok e₁ =>
      have ⟨instr, hr⟩ := resolved_of_executeInstructionMode h
      have ⟨e₂, h₂, frame, _⟩ := executeInstructionMode_steps acc ready bound
        (hlt row List.mem_cons_self) k mode hr
      obtain rfl : e₁ = e₂ := by simpa [h] using h₂
      have ⟨frame', hc⟩ := hi (frame.ready ready) (frame.bound bound)
        fun row hr => hlt row (List.mem_cons_of_mem _ hr)
      simp only [executeRows, h]
      refine ⟨frame.trans frame', fun h => ?_⟩
      have ⟨code, hc⟩ := hc h
      exact ⟨instr :: code, by simp [List.mapM_cons, hr, hc]⟩

-- A schedule runs to its end exactly if all of its instructions have their fields and literals. Each
-- slot of an instruction then holds what the program means for the row.
theorem executeScheduleMode_spec (k : Kernels) (mode : ExecutionMode) (acc : Accepted heap addr batch)
    (ready : e.Ready heap addr batch.rows) (bound : e.Bound heap addr batch) :
    ∃ e' res, executeScheduleMode k heap e addr batch mode = (e', res) ∧ Frame e e' ∧
      ((∃ text, res = .error text ∧ ∀ code, (heap addr).code ≠ .ok code) ∨
        ∃ code, res = .ok () ∧ (heap addr).code = .ok code ∧ ∀ r < batch.rows,
          Lanes.Agree (heap addr) (heap addr).opcodes.length (e'.lanes batch.rows r)
            (Lanes.final (heap addr) e.states.reasons (batch.row r) code)) := by
  cases hc : (heap addr).code
  case error text =>
    have ⟨frame, hr⟩ := @executeRows_frame k heap addr e batch mode acc ready bound
      (List.range (heap addr).opcodes.length) (by simp)
    refine ⟨_, _, rfl, frame, .inl ?_⟩
    cases hres : (executeScheduleMode k heap e addr batch mode).2
    case error text => exact ⟨text, hres, by simp⟩
    case ok =>
      have ⟨code, hc'⟩ := hr hres
      exact absurd (hc.symm.trans hc') (by simp)
  case ok code =>
    have hlen := length_code hc
    have hc' : (List.range' 0 code.length).mapM (resolveInstr (heap addr)) = .ok code := by
      rw [hlen, ← List.range_eq_range']
      exact hc
    have ⟨e', h, frame, hl⟩ := executeRows_run k mode acc ready bound hc' (by omega)
    rw [hlen, ← List.range_eq_range'] at h
    refine ⟨e', _, h, frame, .inr ⟨code, rfl, rfl, fun r hr => ?_⟩⟩
    rw [hl r hr]
    exact agree_final acc.sched hc _ _ _

end Executor
end NornRune
