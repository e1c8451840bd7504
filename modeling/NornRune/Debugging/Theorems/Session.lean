import NornRune.Debugging.Retained
import NornRune.Execution.Theorems.Execute

open Bitplane Checked

namespace NornRune

namespace Lanes

variable {p : Program} {reasons : List Nat} {facts : Row}

theorem run_append (start : Nat) (code code' : List Instr) (s : Lanes) :
    run p reasons facts start (code ++ code') s =
      run p reasons facts (start + code.length) code' (run p reasons facts start code s) := by
  induction code generalizing start s
  case nil => rfl
  case cons instr code ih =>
    rw [List.cons_append, run, run, ih, List.length_cons, Nat.add_right_comm, ← Nat.add_assoc]

theorem Agree.trans {n : Nat} {s t u : Lanes} (h₁ : Agree p n s t) (h₂ : Agree p n t u) :
    Agree p n s u where
  truth i hi := (h₁.truth i hi).trans (h₂.truth i hi)
  reasons i hi := (h₁.reasons i hi).trans (h₂.reasons i hi)

theorem Agree.mono {m n : Nat} {s t : Lanes} (h : Agree p n s t) (hle : m ≤ n) : Agree p m s t where
  truth i hi := h.truth i (Nat.lt_of_lt_of_le hi hle)
  reasons i hi := h.reasons i (Nat.lt_of_lt_of_le hi hle)

end Lanes

structure Program.Separate (p : Program) : Prop where
  truth : ∀ i j, i < j → j < p.opcodes.length → p.truthSlots.getD i 0 ≠ p.truthSlots.getD j 0
  reason : ∀ i j, i < j → j < p.opcodes.length → p.reasonSlots.getD i 0 ≠ p.reasonSlots.getD j 0

theorem Program.separate_retained (source : Program) : source.retained.Separate := by
  have hslot : ∀ i < source.opcodes.length, (List.range' 1 source.opcodes.length).getD i 0 = i + 1 :=
    fun i hi => by simp [hi, Nat.add_comm]
  constructor
  all_goals
    intro i j hij hj
    change (List.range' 1 source.opcodes.length).getD i 0 ≠
      (List.range' 1 source.opcodes.length).getD j 0
    rw [hslot i (Nat.lt_trans hij hj), hslot j hj]
    omega

namespace Program.Separate

variable {p : Program} {reasons : List Nat} {facts : Row}

theorem agree_run (h : p.Separate) {start : Nat} {code : List Instr} (s : Lanes)
    (hle : start + code.length ≤ p.opcodes.length) :
    Lanes.Agree p start (Lanes.run p reasons facts start code s) s := by
  induction code generalizing start s
  case nil => exact .refl p start s
  case cons instr code ih =>
    rw [List.length_cons] at hle
    have hstep : Lanes.Agree p start (s.step p reasons facts start instr) s := by
      constructor
      all_goals
        intro i hi
        simp only [Lanes.step, Lanes.set, Lanes.setTruth, Lanes.setReasons]
        first
        | exact Function.update_of_ne (h.truth i start hi (by omega)) _ _
        | exact Function.update_of_ne (h.reason i start hi (by omega)) _ _
    exact ((ih (s.step p reasons facts start instr) (by omega)).mono (by omega)).trans hstep

end Program.Separate

namespace RetainedSession

variable (s : RetainedSession) (reasons : List Nat)

def finished : Option RetainedSession :=
  match s.program.evalRows reasons s.batch with
  | .ok _ => some { s with complete := true }
  | .error _ => none

def advance : RetainedExecutor.Move → Option RetainedSession
  | .step =>
    if s.complete ∨ s.program.opcodes.length ≤ s.next then some s
    else match resolveInstr s.program s.next with
      | .error _ => none
      | .ok _ =>
        let s := { s with next := s.next + 1 }
        if s.next = s.program.opcodes.length then s.finished reasons else some s
  | .rewind cursor => back cursor
  | .restart => back 0
where
  back (cursor : Nat) : Option RetainedSession :=
    if s.next < cursor ∨ s.program.opcodes.length < cursor then some s
    else
      let s := { s with next := cursor, complete := false }
      if cursor = s.program.opcodes.length then s.finished reasons else some s

end RetainedSession

namespace RetainedExecutor

-- What holds of a retained executor in a session, whatever it was used for before: the executed
-- instructions have their results in their slots, and the results of the rows are reported exactly
-- if the session is complete.
structure Sound (r : RetainedExecutor) (s : RetainedSession) (reasons : List Nat) : Prop where
  session : r.session = some s
  checked : ∃ sizes, ExecutionChecked s.program s.batch sizes
  separate : s.program.Separate
  states : r.executor.states.reasons = reasons
  clean : Clean r.executor.factBuilder.valueRows
  ready : r.executor.Ready s.heap RetainedSession.address s.batch.rows
  bound : r.executor.Bound s.heap RetainedSession.address s.batch
  selecting : r.executor.Selecting s.heap RetainedSession.address
  next_le : s.next ≤ s.program.opcodes.length
  values : ∃ code, (List.range s.next).mapM (resolveInstr s.program) = .ok code ∧
    ∀ row < s.batch.rows, Lanes.Agree s.program s.next (r.executor.lanes s.batch.rows row)
      (Lanes.run s.program reasons (s.batch.row row) 0 code Lanes.clear)
  pending : s.complete = false → r.result = .filled s.batch.rows []
  reported : s.complete → s.next = s.program.opcodes.length ∧
    ∃ rs, s.program.evalRows reasons s.batch = .ok rs ∧ rs.length = s.batch.rows ∧
      r.result = .filled s.batch.rows rs

variable {k : Kernels} {r : RetainedExecutor} {s : RetainedSession} {reasons : List Nat}

namespace Sound

variable (h : r.Sound s reasons)
include h

theorem accepted :
    Executor.Accepted s.heap RetainedSession.address s.batch :=
  have ⟨_, checked⟩ := h.checked
  Executor.accepted_of_checked checked

theorem finish (hs : s.complete = false) (hn : s.next = s.program.opcodes.length) :
    (∃ r' s', r.finish s = .ok r' ∧ s.finished reasons = some s' ∧ r'.Sound s' reasons) ∨
      ((∃ text, r.finish s = .error text) ∧ s.finished reasons = none) := by
  have ⟨sizes, checked⟩ := h.checked
  have ⟨code, hcode, hl⟩ := h.values
  rw [hn] at hcode
  have hfinal : ∀ row < s.batch.rows, Lanes.Agree s.program s.program.opcodes.length
      (r.executor.lanes s.batch.rows row)
      (Lanes.final s.program r.executor.states.reasons (s.batch.row row) code) := fun row hr => by
    rw [h.states]
    exact hn ▸ hl row hr
  have hrows : s.program.evalRows reasons s.batch = (List.range s.batch.rows).mapM fun row =>
      s.program.evalRow reasons code (s.batch.row row) := by
    rw [Program.evalRows, Program.code, hcode]
    rfl
  rcases Executor.finalizeResults_spec
    h.accepted.sched h.accepted.fits checked.selectors h.selecting h.ready hfinal (Nat.le_refl _) with
    ⟨rs, hm, hlen, e', selected, selecting, hf⟩ | ⟨⟨text, hm⟩, text', hf⟩
  case inl =>
    have hm : s.program.evalRows reasons s.batch = .ok rs := by
      rw [hrows, ← h.states]
      exact hm
    refine .inl ⟨⟨.filled s.batch.rows rs, e', some { s with complete := true }⟩,
      { s with complete := true }, ?_, ?_, ?_⟩
    · simp only [RetainedExecutor.finish, Executor.finalizeResults, h.pending hs, hf, ok_bind]
      rfl
    · simp only [RetainedSession.finished, hm]
    · exact {
        session := rfl
        checked := h.checked
        separate := h.separate
        states := selected.states ▸ h.states
        clean := selected.factBuilder ▸ h.clean
        ready := selected.ready h.ready
        bound := ⟨selected.states ▸ h.bound.states, selected.states ▸ h.bound.length,
          selected.factIndex ▸ h.bound.sound⟩
        selecting := selecting
        next_le := h.next_le
        values := ⟨code, hn ▸ hcode, fun row hr => by
          rw [selected.lanes]
          exact hl row hr⟩
        pending := by rintro ⟨⟩
        reported := fun _ => ⟨hn, rs, hm, hlen, rfl⟩
      }
  case inr =>
    refine .inr ⟨⟨text', ?_⟩, ?_⟩
    · simp only [RetainedExecutor.finish, Executor.finalizeResults, h.pending hs, hf, error_bind]
    · have hm : s.program.evalRows reasons s.batch = .error text := by
        rw [hrows, ← h.states]
        exact hm
      simp only [RetainedSession.finished, hm]

theorem execute (hs : s.complete = false) (hn : s.next < s.program.opcodes.length) {instr : Instr}
    (hi : resolveInstr s.program s.next = .ok instr) :
    ∃ e, Executor.executeInstructionMode k s.heap r.executor RetainedSession.address s.batch .scalar
        s.next = .ok e ∧
      Sound { r with executor := e, session := some { s with next := s.next + 1 } }
        { s with next := s.next + 1 } reasons := by
  have ⟨code, hcode, hl⟩ := h.values
  have ⟨e, he, frame, hlanes⟩ := Executor.executeInstructionMode_steps
    h.accepted h.ready h.bound hn k .scalar hi
  have hops := operands_le_of_resolveInstr h.accepted.sched hn hi
  have hlen : code.length = s.next := by simpa using length_of_mapM_eq_ok hcode
  refine ⟨e, he, ?_⟩
  exact {
    session := rfl
    checked := h.checked
    separate := h.separate
    states := frame.states ▸ h.states
    clean := frame.factBuilder ▸ h.clean
    ready := frame.ready h.ready
    bound := frame.bound h.bound
    selecting := ⟨frame.query ▸ h.selecting.query, h.selecting.valid,
      frame.candidateWords ▸ h.selecting.candidates, frame.selectorValues ▸ h.selecting.values,
      frame.selectorPresent ▸ h.selecting.present⟩
    next_le := hn
    values := by
      refine ⟨code ++ [instr], ?_, fun row hr => ?_⟩
      · simp only [List.range_succ, List.mapM_append, hcode, List.mapM_cons, hi, List.mapM_nil,
          ok_bind, pure_eq_ok]
      · rw [hlanes row hr, Lanes.run_append, Nat.zero_add, hlen, h.states]
        exact (hl row hr).step reasons (s.batch.row row) hops
    pending := fun _ => h.pending hs
    reported := fun hc => by
      rw [hs] at hc
      cases hc
  }

theorem step :
    (∃ r' s', (r.step k).map (·.1) = .ok r' ∧ s.advance reasons .step = some s' ∧
      r'.Sound s' reasons) ∨
      ((∃ text, (r.step k).map (·.1) = .error text) ∧ s.advance reasons .step = none) := by
  simp only [RetainedExecutor.step, h.session, RetainedSession.advance]
  by_cases hs : s.complete ∨ s.program.opcodes.length ≤ s.next
  case pos =>
    simp only [hs, if_true]
    exact .inl ⟨r, s, rfl, rfl, h⟩
  case neg =>
    simp only [hs, if_false]
    rw [not_or, Bool.not_eq_true, Nat.not_le] at hs
    have hnode : ∃ node, fetch s.program.instructionNodes s.next = .ok node := by
      have := (h.accepted.sched.row s.next hs.2).node
      by_contra hne
      refine this (List.getD_eq_default _ _ ?_)
      by_contra hlt
      exact hne ⟨_, fetch_of_lt (Nat.lt_of_not_le hlt)⟩
    have ⟨node, hnode⟩ := hnode
    simp only [hnode, ok_bind]
    cases hi : resolveInstr s.program s.next
    case error text =>
      refine .inr ⟨?_, rfl⟩
      cases he : Executor.executeInstructionMode k s.heap r.executor RetainedSession.address s.batch
        .scalar s.next
      case error text' => exact ⟨text', rfl⟩
      case ok e =>
        have ⟨instr, hi'⟩ := Executor.resolved_of_executeInstructionMode he
        exact absurd (hi.symm.trans hi') (by simp)
    case ok instr =>
      have ⟨e, he, sound⟩ := h.execute (k := k) hs.1 hs.2 hi
      simp only [he, ok_bind]
      by_cases hlast : s.next + 1 = s.program.opcodes.length
      case pos =>
        simp only [if_pos hlast]
        rcases sound.finish hs.1 hlast with ⟨r', s', hf, hs', sound'⟩ | ⟨⟨text, hf⟩, hs'⟩
        · refine .inl ⟨r', s', ?_, hs', sound'⟩
          simp only [hf, ok_bind]
          rfl
        · refine .inr ⟨⟨text, ?_⟩, hs'⟩
          simp only [hf, error_bind]
          rfl
      case neg =>
        simp only [if_neg hlast]
        exact .inl ⟨_, _, rfl, rfl, sound⟩

theorem back {cursor : Nat} (hle : cursor ≤ s.next) :
    Sound ⟨.filled s.batch.rows [], r.executor, some { s with next := cursor, complete := false }⟩
      { s with next := cursor, complete := false } reasons := by
  have ⟨code, hcode, hl⟩ := h.values
  have hlen : code.length = s.next := by simpa using length_of_mapM_eq_ok hcode
  exact {
    session := rfl
    checked := h.checked
    separate := h.separate
    states := h.states
    clean := h.clean
    ready := h.ready
    bound := h.bound
    selecting := h.selecting
    next_le := Nat.le_trans hle h.next_le
    values := by
      refine ⟨code.take cursor, ?_, fun row hr => ?_⟩
      · have := mapM_take_eq_ok hcode cursor
        rwa [List.take_range, Nat.min_eq_left hle] at this
      · have hsplit : Lanes.run s.program reasons (s.batch.row row) 0 code Lanes.clear =
            Lanes.run s.program reasons (s.batch.row row) cursor (code.drop cursor)
              (Lanes.run s.program reasons (s.batch.row row) 0 (code.take cursor) Lanes.clear) := by
          rw [← List.take_append_drop cursor code, Lanes.run_append, List.take_append_drop]
          simp [hlen, hle]
        have := (hl row hr).mono hle
        rw [hsplit] at this
        refine this.trans (h.separate.agree_run _ ?_)
        have := h.next_le
        simp only [List.length_drop, hlen]
        omega
    pending := fun _ => rfl
    reported := by rintro ⟨⟩
  }

theorem rewind (cursor : Nat) :
    (∃ r' s', (r.rewind cursor).map (·.1) = .ok r' ∧
      RetainedSession.advance.back s reasons cursor = some s' ∧ r'.Sound s' reasons) ∨
      ((∃ text, (r.rewind cursor).map (·.1) = .error text) ∧
        RetainedSession.advance.back s reasons cursor = none) := by
  simp only [RetainedExecutor.rewind, h.session, RetainedSession.advance.back]
  by_cases hc : s.next < cursor ∨ s.program.opcodes.length < cursor
  case pos =>
    simp only [hc, if_true]
    exact .inl ⟨r, s, rfl, rfl, h⟩
  case neg =>
    simp only [hc, if_false]
    rw [not_or, Nat.not_lt, Nat.not_lt] at hc
    have ⟨_, checked⟩ := h.checked
    have hreset := r.result.reset_eq (n := s.batch.rows) (by
      have := checked.rows_le
      simp only [maxUint32, maxInt] at *
      omega)
    simp only [hreset]
    have sound := h.back hc.1
    by_cases hlast : cursor = s.program.opcodes.length
    case pos =>
      simp only [if_pos hlast]
      rcases sound.finish rfl hlast with ⟨r', s', hf, hs', sound'⟩ | ⟨⟨text, hf⟩, hs'⟩
      · refine .inl ⟨r', s', ?_, hs', sound'⟩
        simp only [hf, ok_bind]
        rfl
      · refine .inr ⟨⟨text, ?_⟩, hs'⟩
        simp only [hf, error_bind]
        rfl
    case neg =>
      simp only [if_neg hlast]
      exact .inl ⟨_, _, rfl, rfl, sound⟩

theorem move (m : Move) :
    (∃ r' s', r.move k m = .ok r' ∧ s.advance reasons m = some s' ∧ r'.Sound s' reasons) ∨
      ((∃ text, r.move k m = .error text) ∧ s.advance reasons m = none) := by
  cases m
  case step => exact h.step
  case rewind cursor => exact h.rewind cursor
  case restart => exact h.rewind 0

theorem moves (ms : List Move) :
    (∃ r' s', r.moves k ms = .ok r' ∧ ms.foldlM (·.advance reasons) s = some s' ∧
      r'.Sound s' reasons) ∨
      ((∃ text, r.moves k ms = .error text) ∧ ms.foldlM (·.advance reasons) s = none) := by
  induction ms generalizing r s
  case nil => exact .inl ⟨r, s, rfl, rfl, h⟩
  case cons m ms ih =>
    simp only [RetainedExecutor.moves, List.foldlM_cons]
    rcases h.move (k := k) m with ⟨r₁, s₁, hr, hs, h₁⟩ | ⟨⟨text, hr⟩, hs⟩
    case inl =>
      simp only [hr, hs, ok_bind, Option.bind_eq_bind, Option.bind_some]
      exact ih h₁
    case inr =>
      refine .inr ⟨⟨text, ?_⟩, ?_⟩
      · simp only [hr, error_bind]
      · simp only [hs, Option.bind_eq_bind, Option.bind_none]

theorem truth_eq {code : List Instr}
    (hc : (List.range s.next).mapM (resolveInstr s.program) = .ok code) {instruction row : Nat}
    (hs : shows s instruction row) :
    r.instructionTruth instruction row = .ok (some ((Lanes.run s.program reasons (s.batch.row row) 0
      code Lanes.clear).value s.program instruction).truth) ∧
    r.instructionReasons instruction row = .ok (some ((Lanes.run s.program reasons (s.batch.row row) 0
      code Lanes.clear).value s.program instruction).reasons) := by
  have ⟨code', hc', hl⟩ := h.values
  obtain rfl : code = code' := by
    rw [hc, Except.ok.injEq] at hc'
    exact hc'
  have hshow := hs
  simp only [shows, Bool.and_eq_true, bne_iff_ne, decide_eq_true_eq] at hs
  have agree := hl row hs.2
  have hlt : instruction - 1 < s.program.opcodes.length := by omega
  have ⟨ht, hr⟩ := Executor.instruction_eq_ok h.accepted.sched h.ready hlt row
  rw [← agree.value hs.1.1.1 hs.1.1.2]
  simp only [RetainedExecutor.instructionTruth, RetainedExecutor.instructionReasons, h.session, hshow,
    if_true]
  change r.executor.instructionTruth s.heap s.program row _ _ = _ at ht
  change r.executor.instructionReasons s.heap s.program row _ _ = _ at hr
  rw [ht, hr]
  exact ⟨rfl, rfl⟩

theorem view_eq {r' : RetainedExecutor} (h' : r'.Sound s reasons) :
    r.view = r'.view := by
  have ⟨code, hc, _⟩ := h.values
  have hresult : r.resultBatch = r'.resultBatch := by
    simp only [resultBatch, complete, h.session, h'.session, Option.elim_some]
    split
    case isFalse => rfl
    case isTrue hcomplete =>
      have ⟨_, rs, hrs, _, he⟩ := h.reported hcomplete
      have ⟨_, rs', hrs', _, he'⟩ := h'.reported hcomplete
      rw [hrs, Except.ok.injEq] at hrs'
      rw [he, he', hrs']
  simp only [view, View.mk.injEq, cursor, h.session, h'.session, Option.elim_some, hresult, true_and]
  constructor
  all_goals
    funext instruction row
    by_cases hs : shows s instruction row
    case pos =>
      first
      | rw [(h.truth_eq hc hs).1, (h'.truth_eq hc hs).1]
      | rw [(h.truth_eq hc hs).2, (h'.truth_eq hc hs).2]
    case neg =>
      simp only [RetainedExecutor.instructionTruth, RetainedExecutor.instructionReasons, h.session,
        h'.session, hs, Bool.false_eq_true, if_false]

theorem observe_moves {r' : RetainedExecutor} (h' : r'.Sound s reasons) (ms : List Move) :
    ((r.moves k ms).toOption.map view) = ((r'.moves k ms).toOption.map view) := by
  rcases h.moves (k := k) ms with ⟨r₁, s₁, hr, hs, h₁⟩ | ⟨⟨_, hr⟩, hs⟩ <;>
    rcases h'.moves (k := k) ms with ⟨r₂, s₂, hr', hs', h₂⟩ | ⟨⟨_, hr'⟩, hs'⟩ <;>
    rw [hs] at hs'
  case inl.inl =>
    cases hs'
    rw [hr, hr']
    exact congrArg some (h₁.view_eq h₂)
  case inl.inr => cases hs'
  case inr.inl => cases hs'
  case inr.inr =>
    rw [hr, hr']
    rfl

end Sound

structure Accepts (source : Program) (batch : Batch) : Prop where
  count : source.opcodes.length ≠ 0 ∧ source.opcodes.length ≤ maxUint32
  checked : ∃ sizes, checkExecution true source.retained batch = .ok sizes
  index : source.applicabilityIndex.validBoundPolicy

theorem accepts_of_begin {source : Program} {batch : Batch}
    (h : (zero.begin source batch).2 = .ok ()) : Accepts source batch := by
  have cached : Executor.Cached (fun _ => source.retained) { Executor.zero with program := none } :=
    Executor.cached_zero _
  simp only [RetainedExecutor.begin] at h
  split at h
  case isTrue => cases h
  case isFalse hn =>
    rw [not_or, Nat.not_lt] at hn
    cases hc : checkExecution true source.retained batch
    case error f =>
      have : Executor.prepareExecution (fun _ => source.retained) _ zero.result
        RetainedSession.address batch .scalar = _ := cached.prepare_error hc
      simp only [zero] at h this
      simp only [this] at h
      cases h
    case ok sizes =>
      refine ⟨hn, ⟨sizes, hc⟩, ?_⟩
      cases hv : source.applicabilityIndex.validBoundPolicy
      case true => rfl
      case false =>
        have : Executor.prepareExecution (fun _ => source.retained) _ zero.result
          RetainedSession.address batch .scalar = _ := cached.prepare_invalid hc hv
        simp only [zero] at h this
        simp only [this] at h
        cases h

-- A retained executor that is begun again behaves as if it was used for the first time, provided that
-- the reasons it has bound to evidence states are those of the new program.
theorem begin_sound {source : Program} {batch : Batch}
    (clean : Clean r.executor.factBuilder.valueRows)
    (states : r.executor.states.program ≠ none →
      EvidenceStateIndex.classify source = some r.executor.states.reasons)
    (acc : Accepts source batch) :
    ∃ reasons r', EvidenceStateIndex.classify source = some reasons ∧
      r.begin source batch = (r', .ok ()) ∧
      r'.Sound ⟨source.retained, batch, 0, false⟩ reasons := by
  have ⟨sizes, hc⟩ := acc.checked
  have cached : Executor.Cached (fun _ => source.retained) { r.executor with program := none } := {
    clean := clean
    program := by rintro _ ⟨⟩
    query := fun _ _ => acc.index
    states := fun _ hs => states (by rw [hs]; exact Option.some_ne_none _)
  }
  have ⟨e, he, cached', ready, bound, selecting⟩ := @Executor.Cached.prepare_ok _
    RetainedSession.address _ _ _ cached hc acc.index r.result .scalar
  refine ⟨e.states.reasons, ⟨.filled batch.rows [], e, some ⟨source.retained, batch, 0, false⟩⟩,
    cached'.states _ bound.states, ?_, ?_⟩
  · simp only [RetainedExecutor.begin, acc.count.1, Nat.not_lt.mpr acc.count.2, or_self, if_false, he]
  · exact {
      session := rfl
      checked := ⟨sizes, checkExecution_eq_ok hc⟩
      separate := source.separate_retained
      states := rfl
      clean := cached'.clean
      ready := ready
      bound := bound
      selecting := selecting
      next_le := Nat.zero_le _
      values := ⟨[], rfl, fun _ _ =>
        ⟨fun _ h => absurd h (Nat.not_lt_zero _), fun _ h => absurd h (Nat.not_lt_zero _)⟩⟩
      pending := fun _ => rfl
      reported := by rintro ⟨⟩
    }

end RetainedExecutor
end NornRune
