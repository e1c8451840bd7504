import NornRune.Compile.Theorems.Lower
import NornRune.Debugging.Theorems.Session
import NornRune.Execution.Theorems.Kept
import NornRune.Scheduling.Theorems.Partition

open Bitplane Checked

namespace NornRune

section Retained

variable (p : Program) (read : LaneReader)

theorem resolveClause_retained : resolveClause p.retained read = resolveClause p read :=
  rfl

theorem visitRequirement_retained : visitRequirement p.retained read = visitRequirement p read := by
  funext candidates s row
  unfold visitRequirement resolveClauses
  rw [resolveClause_retained]
  rfl

theorem reasonProvenance_retained : reasonProvenance p.retained read = reasonProvenance p read :=
  rfl

theorem finalizeRow_retained : finalizeRow p.retained read = finalizeRow p read := by
  funext candidates stateReasons records
  unfold finalizeRow
  rw [visitRequirement_retained, reasonProvenance_retained]
  rfl

end Retained

namespace Program

variable {p : Program}

theorem slotsKept_of_separate (h : p.Separate) : p.slotsKept := by
  simp only [slotsKept, List.all_eq_true, List.mem_range, Bool.or_eq_true, Bool.and_eq_true, bne_iff_ne]
  exact fun row hrow i hi => .inr ⟨h.truth i row hi hrow, h.reason i row hi hrow⟩

theorem code_retained (p : Program) : p.retained.code = p.code :=
  rfl

theorem candidates_retained (p : Program) : p.retained.candidates = p.candidates :=
  rfl

theorem evalRows_retained {batch : Batch} {sizes sizes' : ExecutionSizes} (kept : p.slotsKept)
    (checked : ExecutionChecked p batch sizes) (checked' : ExecutionChecked p.retained batch sizes')
    (stateReasons : List Nat) :
    p.retained.evalRows stateReasons batch = p.evalRows stateReasons batch := by
  rw [evalRows, evalRows, code_retained]
  cases hc : p.code
  case error => simp only [Except.bind]
  case ok code =>
    refine mapM_congr fun row _ => ?_
    rw [evalRow_eq_values kept checked hc,
      evalRow_eq_values (slotsKept_of_separate p.separate_retained) checked'
        ((code_retained p).trans hc), finalizeRow_retained,
      candidates_retained]

end Program

namespace RetainedSession

variable {s : RetainedSession} {reasons : List Nat}

structure Running (s : RetainedSession) (reasons : List Nat) : Prop where
  code : ∃ code, s.program.code = .ok code
  rows : ∃ rs, s.program.evalRows reasons s.batch = .ok rs
  next_le : s.next ≤ s.program.opcodes.length
  complete : s.complete = decide (s.next = s.program.opcodes.length)

def at' (s : RetainedSession) (cursor : Nat) : RetainedSession :=
  { s with next := cursor, complete := decide (cursor = s.program.opcodes.length) }

variable (h : s.Running reasons)
include h

theorem Running.at_next : s.at' s.next = s := by
  rw [at', ← h.complete]

theorem Running.at' {cursor : Nat} (hle : cursor ≤ s.program.opcodes.length) :
    (s.at' cursor).Running reasons :=
  ⟨h.code, h.rows, hle, rfl⟩

theorem Running.finished (next : Nat) (complete : Bool) :
    RetainedSession.finished { s with next, complete } reasons =
      some { s with next, complete := true } := by
  have ⟨rs, hrs⟩ := h.rows
  simp only [RetainedSession.finished, hrs]

theorem Running.step (hlt : s.next < s.program.opcodes.length) :
    s.advance reasons .step = some (s.at' (s.next + 1)) := by
  have ⟨code, hc⟩ := h.code
  have ⟨instr, _, hi⟩ := ok_of_mem_mapM hc (List.mem_range.mpr hlt)
  have hcomplete : ¬(s.complete ∨ s.program.opcodes.length ≤ s.next) := by
    rw [h.complete, decide_eq_true_eq]
    omega
  simp only [advance, hcomplete, if_false, hi]
  split
  case isTrue hlast =>
    rw [h.finished, RetainedSession.at', decide_eq_true hlast]
  case isFalse hlast =>
    simp [RetainedSession.at', hlast, h.complete, Nat.ne_of_lt hlt]

theorem Running.back (cursor : Nat) :
    ∃ c ≤ s.program.opcodes.length, advance.back s reasons cursor = some (s.at' c) := by
  unfold advance.back
  split
  case isTrue => exact ⟨s.next, h.next_le, by rw [h.at_next]⟩
  case isFalse hc =>
    refine ⟨cursor, by omega, ?_⟩
    simp only
    split
    case isTrue hlast =>
      rw [h.finished, RetainedSession.at', decide_eq_true hlast]
    case isFalse hlast => simp [RetainedSession.at', hlast]

theorem Running.advance (m : RetainedExecutor.Move) :
    ∃ c ≤ s.program.opcodes.length, s.advance reasons m = some (s.at' c) := by
  cases m
  case step =>
    by_cases hlt : s.next < s.program.opcodes.length
    case pos => exact ⟨s.next + 1, hlt, h.step hlt⟩
    case neg =>
      refine ⟨s.next, h.next_le, ?_⟩
      simp only [RetainedSession.advance, Nat.le_of_not_lt hlt, or_true, if_true, h.at_next]
  case rewind cursor => exact h.back cursor
  case restart => exact h.back 0

theorem Running.advances (ms : List RetainedExecutor.Move) :
    ∃ c ≤ s.program.opcodes.length, ms.foldlM (·.advance reasons) s = some (s.at' c) := by
  induction ms generalizing s
  case nil => exact ⟨s.next, h.next_le, by rw [h.at_next]; rfl⟩
  case cons m ms ih =>
    have ⟨c, hc, hm⟩ := h.advance m
    have ⟨c', hc', hms⟩ := ih (h.at' hc)
    exact ⟨c', hc', by simp only [List.foldlM_cons, hm, Option.bind_eq_bind, Option.bind_some, hms]; rfl⟩

theorem Running.straight (hs : s.next = 0) {cursor : Nat} (hle : cursor ≤ s.program.opcodes.length) :
    (List.replicate cursor RetainedExecutor.Move.step).foldlM (·.advance reasons) s =
      some (s.at' cursor) := by
  induction cursor
  case zero => rw [← hs, h.at_next]; simp [hs]
  case succ cursor ih =>
    rw [List.replicate_succ', List.foldlM_append, ih (by omega)]
    simp only [Option.bind_eq_bind, Option.bind_some, List.foldlM_cons, List.foldlM_nil,
      (h.at' (Nat.le_of_succ_le hle)).step hle]
    rfl

end RetainedSession

theorem value_run_of_separate {p : Program} {code : List Instr} (separate : p.Separate)
    (sched : Scheduled p) (hc : p.code = .ok code) (facts : Row) (s : Lanes) {n : Nat}
    (hn : n ≤ code.length) {id : Nat} (h0 : id ≠ 0) (hid : id ≤ n) (stateReasons : List Nat) :
    (Lanes.run p stateReasons facts 0 (code.take n) s).value p id =
      codeValues code stateReasons facts id := by
  have hsplit : code.take n = code.take id ++ (code.take n).drop id := by
    have h := (List.take_append_drop id (code.take n)).symm
    rwa [List.take_take, Nat.min_eq_left hid] at h
  have hlen : (code.take id).length = id := List.length_take_of_le (Nat.le_trans hid hn)
  have hle : id + ((code.take n).drop id).length ≤ p.opcodes.length := by
    rw [← length_code hc, List.length_drop, List.length_take]
    omega
  rw [hsplit, Lanes.run_append, Nat.zero_add, hlen]
  refine ((separate.agree_run _ hle).value h0 (Nat.le_refl id)).trans ?_
  exact value_run_of_slotsKept (Program.slotsKept_of_separate separate) sched hc facts s
    (Nat.le_trans hid hn) h0 (Nat.le_refl id) (.inr rfl) stateReasons

namespace Executor

def straight (k : Kernels) (heap : Heap) (e : Executor) (addr : Nat) (batch : Batch)
    (mode : ExecutionMode) (instruction row : Nat) : Except Panic (Truth × ReasonMask) :=
  match executeRows k heap addr batch mode (List.range instruction) e with
  | (_, .error text) => .error text
  | (e, .ok ()) => do
    return (← e.instructionTruth heap (heap addr) row batch.rows instruction,
      ← e.instructionReasons heap (heap addr) row batch.rows instruction)

theorem straight_eq_ok {k : Kernels} {heap : Heap} {e : Executor} {addr : Nat} {batch : Batch}
    {mode : ExecutionMode} {code : List Instr} (acc : Accepted heap addr batch)
    (ready : e.Ready heap addr batch.rows) (bound : e.Bound heap addr batch)
    (kept : (heap addr).slotsKept) (hc : (heap addr).code = .ok code) {instruction row : Nat}
    (h0 : instruction ≠ 0) (hle : instruction ≤ code.length) (hrow : row < batch.rows) :
    e.straight k heap addr batch mode instruction row =
      .ok ((codeValues code e.states.reasons (batch.row row) instruction).truth,
        (codeValues code e.states.reasons (batch.row row) instruction).reasons) := by
  have hlen := length_code hc
  have htake : (code.take instruction).length = instruction := List.length_take_of_le hle
  have hmap := mapM_take_eq_ok hc instruction
  rw [List.take_range, Nat.min_eq_left (hlen ▸ hle), List.range_eq_range'] at hmap
  have ⟨e', he, frame, hl⟩ := @executeRows_run (code.take instruction) heap addr e batch k mode acc 0
    ready bound (by rwa [htake]) (by omega)
  rw [htake, ← List.range_eq_range'] at he
  have ⟨ht, hr⟩ := instruction_eq_ok acc.sched (frame.ready ready)
    (show instruction - 1 < (heap addr).opcodes.length by omega) row
  have hvalue := value_run_of_slotsKept kept acc.sched hc (batch.row row) (e.lanes batch.rows row) hle
    h0 (Nat.le_refl _) (.inr rfl) e.states.reasons
  simp only [straight, he, ht, hr, hl row hrow, hvalue, ok_bind, pure_eq_ok]

end Executor

namespace RetainedExecutor

variable {k : Kernels} {r : RetainedExecutor} {s : RetainedSession} {reasons : List Nat}

theorem Sound.shown (h : r.Sound s reasons) {code : List Instr} (hc : s.program.code = .ok code)
    {instruction row : Nat} (h0 : instruction ≠ 0) (hle : instruction ≤ s.next)
    (hrow : row < s.batch.rows) :
    r.instructionTruth instruction row =
        .ok (some (codeValues code reasons (s.batch.row row) instruction).truth) ∧
      r.instructionReasons instruction row =
        .ok (some (codeValues code reasons (s.batch.row row) instruction).reasons) := by
  have hnext := h.next_le
  have hs : shows s instruction row := by
    simp only [shows, Bool.and_eq_true, bne_iff_ne, decide_eq_true_eq]
    exact ⟨⟨⟨h0, hle⟩, Nat.le_trans hle hnext⟩, hrow⟩
  have htake := mapM_take_eq_ok hc s.next
  rw [List.take_range, Nat.min_eq_left hnext] at htake
  have hvalue := value_run_of_separate h.separate h.accepted.sched hc (s.batch.row row) Lanes.clear
    (length_code hc ▸ hnext) h0 hle reasons
  rw [← hvalue]
  exact h.truth_eq htake hs

theorem Sound.reached {s' : RetainedSession} {ms : List Move} (h : r.Sound s reasons)
    (hms : ms.foldlM (·.advance reasons) s = some s') :
    ∃ r', r.moves k ms = .ok r' ∧ r'.Sound s' reasons := by
  rcases h.moves (k := k) ms with ⟨r', s₁, hr, hs, h'⟩ | ⟨_, hs⟩
  case inl =>
    cases hms.symm.trans hs
    exact ⟨r', hr, h'⟩
  case inr => cases hms.symm.trans hs

def nestedRows : List RowResult :=
  [⟨1, [7], [⟨7, 1, 1, 0, 1⟩], [], [], []⟩, ⟨1, [7], [⟨7, 1, 5, 1, 2⟩], [], [⟨1, 5, 0, 0⟩], []⟩]

theorem evaluate_nestedProgram :
    nestedProgram.evaluate (Scheduler.alternating 2) = .returned (.ofRows nestedRows) := by
  decide +kernel

end RetainedExecutor
end NornRune
