import NornRune.Debugging.Replay
import NornRune.Debugging.Theorems.Faithful

open Checked

namespace NornRune

namespace CheckpointSet

variable {c : CheckpointSet} {maximum cursor target : Nat}

structure Marks (c : CheckpointSet) (maximum cursor : Nat) : Prop where
  sorted : c.cursors.Pairwise (· < ·)
  le : ∀ m ∈ c.cursors, m ≤ cursor
  length_le : c.cursors.length ≤ maximum
  maximum_eq : c.maximum = maximum
  pos : 0 < maximum

namespace Marks

variable (h : c.Marks maximum cursor)
include h

theorem index_spec (target : Nat) : c.index target ≤ c.cursors.length ∧
    ∀ j (hj : j < c.cursors.length), c.cursors[j] < target ↔ j < c.index target :=
  BinarySearch.lowerBound_partitions h.sorted (by omega) (Nat.zero_le _) (Nat.le_refl _)
    (fun _ _ h => absurd h (Nat.not_lt_zero _)) (fun _ hj hn => absurd hj (Nat.not_lt.mpr hn))

theorem found_of_mem (ht : target ∈ c.cursors) : c.found target := by
  have ⟨j, hj, he⟩ := List.getElem_of_mem ht
  have ⟨_, spec⟩ := h.index_spec target
  have hle : c.index target ≤ j :=
    Nat.le_of_not_lt fun hlt => (Nat.ne_of_lt ((spec j hj).mpr hlt)) he
  rcases Nat.lt_or_eq_of_le hle with hlt | heq
  case inl =>
    have hbelow := List.pairwise_iff_getElem.mp h.sorted _ j (hlt.trans hj) hj hlt
    have := (spec _ (hlt.trans hj)).mp (he ▸ hbelow)
    omega
  case inr => simp [found, heq, hj, he]

theorem record (hle : cursor ≤ target) (count : Nat) :
    (c.record target count).Marks maximum target := by
  have grown : c.Marks maximum target := { h with le := fun m hm => (h.le m hm).trans hle }
  unfold CheckpointSet.record
  split
  case isTrue => exact grown
  case isFalse =>
    split
    case isTrue => exact grown
    case isFalse hf =>
      have hlt (m : Nat) (hm : m ∈ c.cursors) : m < target :=
        Nat.lt_of_le_of_ne (grown.le m hm) fun he => hf (h.found_of_mem (he ▸ hm))
      have append {l : List Nat} (hl : l.Sublist c.cursors) (hlen : l.length < maximum) :
          Marks { c with cursors := l ++ [target] } maximum target := {
        sorted := List.pairwise_append.mpr ⟨h.sorted.sublist hl, List.pairwise_singleton ..,
          fun m hm n hn => List.mem_singleton.mp hn ▸ hlt m (hl.subset hm)⟩
        le := fun m hm => (List.mem_append.mp hm).elim (fun hm => (hlt m (hl.subset hm)).le)
          fun hm => (List.mem_singleton.mp hm).le
        length_le := by simpa using Nat.succ_le_of_lt hlen
        maximum_eq := h.maximum_eq
        pos := h.pos
      }
      have ⟨hindex, spec⟩ := h.index_spec target
      split
      case isTrue hroom =>
        have : c.index target = c.cursors.length :=
          Nat.le_antisymm hindex (Nat.le_of_not_lt fun hn =>
            Nat.lt_irrefl _ ((spec _ hn).mp (hlt _ (List.getElem_mem hn))))
        rw [this, List.insertIdx_length_self]
        exact append (List.Sublist.refl _) (h.maximum_eq ▸ hroom)
      case isFalse =>
        have := h.length_le
        have := h.pos
        exact append (List.tail_sublist _) (by rw [List.length_tail]; omega)

theorem truncate (target : Nat) :
    (c.truncate target).Marks maximum (c.nearest target) ∧ c.nearest target ≤ target := by
  have ⟨hindex, spec⟩ := h.index_spec target
  have mono := List.pairwise_iff_getElem.mp h.sorted
  have part (n bound : Nat) (hb : ∀ j (hj : j < c.cursors.length), j < n → c.cursors[j] ≤ bound) :
      Marks { c with cursors := c.cursors.take n } maximum bound := {
    sorted := h.sorted.sublist (List.take_sublist ..)
    le := fun m hm => by
      have ⟨j, hj, he⟩ := List.mem_take_iff_getElem.mp hm
      exact he ▸ hb j (by omega) (by omega)
    length_le := (List.length_take_le' ..).trans h.length_le
    maximum_eq := h.maximum_eq
    pos := h.pos
  }
  unfold CheckpointSet.truncate nearest
  split
  case isTrue hf =>
    have ⟨hi, he⟩ := List.getElem?_eq_some_iff.mp (eq_of_beq hf)
    refine ⟨part _ _ fun j hj hlt => ?_, Nat.le_refl _⟩
    rcases Nat.lt_or_eq_of_le (Nat.le_of_lt_succ hlt) with hlt | rfl
    · exact ((spec j hj).mpr hlt).le
    · exact he.le
  case isFalse =>
    split
    case isTrue h0 => exact ⟨part _ _ fun j _ hlt => absurd hlt (by omega), Nat.zero_le _⟩
    case isFalse h0 =>
      have hlast : c.index target - 1 < c.cursors.length := by omega
      rw [List.getD_eq_getElem _ _ hlast]
      refine ⟨part _ _ fun j hj hlt => ?_, ((spec _ hlast).mpr (by omega)).le⟩
      rcases Nat.lt_or_eq_of_le (Nat.le_pred_of_lt hlt) with hlt | rfl
      · exact (mono j _ hj hlast hlt).le
      · exact Nat.le_refl _

end Marks
end CheckpointSet

namespace RetainedExecutor

variable {k : Kernels} {r r' : RetainedExecutor} {e : RetainedError}

theorem eq_of_step_error (h : r.step k = .ok (r', .error e)) : r' = r := by
  unfold step at h
  repeat' split at h
  case h_2.isFalse =>
    have ⟨_, _, h⟩ := of_bind h
    have ⟨_, _, h⟩ := of_bind h
    simp only at h
    split at h
    case isTrue =>
      have ⟨_, _, h⟩ := of_bind h
      cases h
    case isFalse => cases h
  all_goals
    cases h
    rfl

theorem exists_of_advance {α : Type} {call : Except Panic (RetainedExecutor × α)}
    {advanced : Option RetainedSession} {s : RetainedSession} {reasons : List Nat}
    (h : (∃ r' s', call.map (·.1) = .ok r' ∧ advanced = some s' ∧ r'.Sound s' reasons) ∨
      ((∃ text, call.map (·.1) = .error text) ∧ advanced = none)) (hs : advanced = some s) :
    ∃ r' res, call = .ok (r', res) ∧ r'.Sound s reasons := by
  subst hs
  rcases h with ⟨_, _, hr, hs, sound⟩ | ⟨_, hs⟩
  case inr => cases hs
  case inl =>
    cases hs
    cases call
    case error => cases hr
    case ok out =>
      cases hr
      exact ⟨out.1, out.2, rfl, sound⟩

theorem eq_of_rewind_error {cursor : Nat} (h : r.rewind cursor = .ok (r', .error e)) : r' = r := by
  unfold rewind at h
  repeat' split at h
  case h_2 =>
    simp only at h
    split at h
    case isTrue =>
      have ⟨_, _, h⟩ := of_bind h
      cases h
    case isFalse => cases h
  all_goals
    cases h
    rfl

end RetainedExecutor

namespace DebugSession

variable {k : Kernels} {d : DebugSession} {s : RetainedSession} {reasons : List Nat}
  {maximum c target : Nat}

structure At (d : DebugSession) (s : RetainedSession) (reasons : List Nat) (maximum c : Nat) :
    Prop where
  le : c ≤ s.program.opcodes.length
  sound : d.execution.Sound (s.at' c) reasons
  marks : d.checkpoints.Marks maximum c

theorem cursor_eq {r : RetainedExecutor} (sound : r.Sound (s.at' c) reasons) : r.cursor = c := by
  rw [RetainedExecutor.cursor, sound.session]
  rfl

namespace At

variable (h : d.At s reasons maximum c)
include h

theorem instructionCount : d.execution.instructionCount = s.program.opcodes.length := by
  rw [RetainedExecutor.instructionCount, h.sound.session]
  rfl

theorem advanceOne_end (hge : s.program.opcodes.length ≤ c) : d.advanceOne k = .ok (d, false) := by
  have hstep : d.execution.step k = .ok (d.execution, .error .invalidRetainedExecution) := by
    simp only [RetainedExecutor.step, h.sound.session]
    exact if_pos (.inr hge)
  rw [DebugSession.advanceOne, hstep]
  rfl

theorem rewind {cursor : Nat} (hlt : cursor < s.program.opcodes.length) (hle : cursor ≤ c) :
    ∃ r' res, d.execution.rewind cursor = .ok (r', res) ∧ r'.Sound (s.at' cursor) reasons ∧
      ((∃ e, res = .error e) → c = cursor) := by
  have hback : RetainedSession.advance.back (s.at' c) reasons cursor = some (s.at' cursor) := by
    unfold RetainedSession.advance.back
    rw [if_neg (fun hn => hn.elim (Nat.not_lt.mpr hle) (Nat.not_lt.mpr hlt.le))]
    simp only [if_neg (show cursor ≠ (s.at' c).program.opcodes.length from Nat.ne_of_lt hlt)]
    simp [RetainedSession.at', Nat.ne_of_lt hlt]
  obtain ⟨r', res, hr, sound⟩ := RetainedExecutor.exists_of_advance (h.sound.rewind cursor) hback
  refine ⟨r', res, hr, sound, ?_⟩
  rintro ⟨_, rfl⟩
  rw [RetainedExecutor.eq_of_rewind_error hr] at sound
  exact (cursor_eq h.sound).symm.trans (cursor_eq sound)

variable (running : s.Running reasons)
include running

theorem advanceOne (hlt : c < s.program.opcodes.length) :
    ∃ d', d.advanceOne k = .ok (d', true) ∧ d'.At s reasons maximum (c + 1) := by
  obtain ⟨r', res, hr, sound⟩ :=
    RetainedExecutor.exists_of_advance (h.sound.step (k := k)) ((running.at' h.le).step hlt)
  have hcursor : r'.cursor = c + 1 := cursor_eq (s := s) sound
  cases res
  case error =>
    rw [RetainedExecutor.eq_of_step_error hr, cursor_eq h.sound] at hcursor
    omega
  case ok =>
    refine ⟨_, by rw [DebugSession.advanceOne, hr]; rfl, hlt, sound, ?_⟩
    exact hcursor ▸ h.marks.record (hcursor ▸ Nat.le_succ c) _

theorem forward {rounds : Nat} (hc : c ≤ target) (ht : target ≤ s.program.opcodes.length)
    (hr : target - c ≤ rounds) :
    ∃ d', d.forward k target rounds = .ok (d', true) ∧ d'.At s reasons maximum target := by
  induction rounds generalizing d c
  case zero =>
    obtain rfl : c = target := by omega
    exact ⟨d, rfl, h⟩
  case succ rounds ih =>
    unfold DebugSession.forward
    rw [cursor_eq h.sound]
    split
    case isFalse =>
      obtain rfl : c = target := by omega
      exact ⟨d, rfl, h⟩
    case isTrue hlt =>
      have ⟨d', hd, h'⟩ := h.advanceOne (k := k) running (hlt.trans_le ht)
      rw [hd]
      exact ih h' hlt (by omega)

theorem replay (ht : target ≤ s.program.opcodes.length) :
    ∃ d' origin, d.replay k target = .ok (d', some origin) ∧ origin ≤ target ∧
      d'.At s reasons maximum target := by
  have hle := h.le
  unfold DebugSession.replay
  rw [h.instructionCount, cursor_eq h.sound, if_neg (Nat.not_lt.mpr ht)]
  split
  case isTrue hlt =>
    have ⟨marks, hnear⟩ := h.marks.truncate target
    have ⟨r', res, hr, sound, herror⟩ := h.rewind (by omega) (hnear.trans hlt.le)
    simp only [hr, ok_bind]
    cases res
    case error e =>
      have := herror ⟨e, rfl⟩
      omega
    case ok =>
      have before : At ⟨r', d.checkpoints.truncate target⟩ s reasons maximum _ :=
        ⟨by omega, sound, marks⟩
      have ⟨d', hd, h'⟩ := before.forward (k := k) running hnear ht (Nat.sub_le ..)
      simp only [hd, ok_bind]
      exact ⟨d', _, rfl, hnear, h'⟩
  case isFalse hge =>
    have ⟨d', hd, h'⟩ := h.forward (k := k) running (Nat.le_of_not_lt hge) ht (Nat.sub_le ..)
    rw [hd]
    exact ⟨d', c, rfl, Nat.le_of_not_lt hge, h'⟩

theorem perform (hpos : 0 < s.program.opcodes.length) (command : DebugCommand) :
    ∃ d' c', d.perform k command = .ok d' ∧ d'.At s reasons maximum c' := by
  cases command
  case advance =>
    by_cases hlt : c < s.program.opcodes.length
    case pos =>
      have ⟨d', hd, h'⟩ := h.advanceOne (k := k) running hlt
      exact ⟨d', _, by rw [DebugSession.perform, hd]; rfl, h'⟩
    case neg =>
      have hd := h.advanceOne_end (k := k) (Nat.le_of_not_lt hlt)
      exact ⟨d, c, by rw [DebugSession.perform, hd]; rfl, h⟩
  case restart =>
    have ⟨r', res, hr, sound, herror⟩ := h.rewind hpos (Nat.zero_le c)
    rw [DebugSession.perform, DebugSession.restart, RetainedExecutor.restart, hr]
    cases res
    case error e => exact ⟨_, 0, rfl, hpos.le, sound, herror ⟨e, rfl⟩ ▸ h.marks⟩
    case ok =>
      exact ⟨_, 0, rfl, hpos.le, sound,
        { h.marks with sorted := .nil, le := nofun, length_le := Nat.zero_le _ }⟩
  case replay target =>
    by_cases ht : target ≤ s.program.opcodes.length
    case pos =>
      have ⟨d', _, hd, _, h'⟩ := h.replay (k := k) running ht
      exact ⟨d', _, by rw [DebugSession.perform, hd]; rfl, h'⟩
    case neg =>
      refine ⟨d, c, ?_, h⟩
      rw [DebugSession.perform, DebugSession.replay, h.instructionCount,
        if_pos (Nat.lt_of_not_le ht)]
      rfl

theorem run (hpos : 0 < s.program.opcodes.length) (commands : List DebugCommand) :
    ∃ d' c', d.run k commands = .ok d' ∧ d'.At s reasons maximum c' := by
  induction commands generalizing d c
  case nil => exact ⟨d, c, rfl, h⟩
  case cons command commands ih =>
    have ⟨d₁, _, hd, h₁⟩ := h.perform (k := k) running hpos command
    rw [DebugSession.run, List.foldlM_cons, hd]
    exact ih h₁

end At

theorem newSession_eq_ok {p : Program} {batch : Batch} {config : DebugConfig}
    (h : newSession p batch config = .ok d) :
    RetainedExecutor.zero.begin p batch = (d.execution, .ok ()) ∧ 0 < config.maxCheckpoints ∧
      d.checkpoints = ⟨[], config.checkpointInterval, config.maxCheckpoints⟩ := by
  unfold newSession at h
  split at h
  case isFalse => cases h
  case isTrue valid =>
    split at h
    case h_1 => cases h
    case h_2 hb =>
      cases h
      exact ⟨hb, valid.2.1, rfl⟩

-- Whatever was done in a session, its checkpoints are in order, there are not too many of them and
-- none is behind the cursor. A replay always succeeds, and then shows what stepping to its target
-- shows.
theorem replay_eq_straight (k : Kernels) {p : Program} {batch : Batch} {out : ResultBatch}
    {config : DebugConfig} {d₀ : DebugSession} (kept : p.slotsKept)
    (hout : p.evaluate batch = .returned out) (hnew : newSession p batch config = .ok d₀)
    (commands : List DebugCommand) : ∃ d, d₀.run k commands = .ok d ∧
      d.checkpoints.cursors.Pairwise (· < ·) ∧
      d.checkpoints.cursors.length ≤ config.maxCheckpoints ∧
      (∀ m ∈ d.checkpoints.cursors, m ≤ d.execution.cursor) ∧
      ∀ target ≤ p.opcodes.length, ∃ d' origin, d.replay k target = .ok (d', some origin) ∧
        origin ≤ target ∧ d'.execution.cursor = target ∧
        (d₀.execution.moves k (List.replicate target .step)).toOption.map (·.view) =
          some d'.execution.view := by
  obtain ⟨hb, hpos, hmarks⟩ := newSession_eq_ok hnew
  obtain ⟨_, reasons, rs, checked, _, hclass, hrs, _⟩ := evaluate_eq_returned hout
  have acc := RetainedExecutor.accepts_of_begin (by rw [hb])
  obtain ⟨_, _, hclass', hb', sound⟩ := @RetainedExecutor.begin_sound .zero _ batch clean_empty
    (fun h => absurd rfl h) acc
  cases hb.symm.trans hb'
  cases hclass.symm.trans hclass'
  obtain ⟨_, checked'⟩ := sound.checked
  obtain ⟨code, hc, _⟩ := of_bind hrs
  have running : RetainedSession.Running ⟨p.retained, batch, 0, false⟩ reasons := {
    code := ⟨code, hc⟩
    rows := ⟨rs, (Program.evalRows_retained kept checked checked' reasons).trans hrs⟩
    next_le := Nat.zero_le _
    complete := (decide_eq_false (Ne.symm acc.count.1)).symm
  }
  have marks : d₀.checkpoints.Marks config.maxCheckpoints 0 := by
    rw [hmarks]
    exact ⟨.nil, nofun, Nat.zero_le _, rfl, hpos⟩
  have start : d₀.At ⟨p.retained, batch, 0, false⟩ reasons config.maxCheckpoints 0 :=
    ⟨Nat.zero_le _, running.at_next ▸ sound, marks⟩
  obtain ⟨d, c, hd, h⟩ := start.run (k := k) running (Nat.pos_of_ne_zero acc.count.1) commands
  refine ⟨d, hd, h.marks.sorted, h.marks.length_le, cursor_eq h.sound ▸ h.marks.le,
    fun target ht => ?_⟩
  obtain ⟨d', origin, hd', hle, h'⟩ := h.replay (k := k) running ht
  obtain ⟨r', hr', sound'⟩ := sound.reached (k := k) (running.straight rfl ht)
  refine ⟨d', origin, hd', hle, cursor_eq h'.sound, ?_⟩
  rw [hr']
  exact congrArg some (sound'.view_eq h'.sound)

theorem replay_eq_straight_nested : ∃ d₀ d d' origin,
    newSession nestedProgram (Scheduler.alternating 2) ⟨1, 2⟩ = .ok d₀ ∧
    d₀.run .portable [.advance, .advance, .advance, .replay 1, .advance] = .ok d ∧
    d.checkpoints.cursors.length ≤ 2 ∧ d.replay .portable 3 = .ok (d', some origin) ∧ origin ≤ 3 ∧
    (d₀.execution.moves .portable [.step, .step, .step]).toOption.map (·.view) =
      some d'.execution.view := by
  have hbegin : RetainedExecutor.zero.begin nestedProgram (Scheduler.alternating 2) = (_, .ok ()) :=
    Prod.ext rfl (by decide +kernel)
  have ⟨d₀, hnew⟩ : ∃ d₀, newSession nestedProgram (Scheduler.alternating 2) ⟨1, 2⟩ = .ok d₀ := by
    rw [newSession, if_pos (by decide), hbegin]
    exact ⟨_, rfl⟩
  have ⟨d, hd, _, hlen, _, hreplay⟩ := replay_eq_straight .portable (by decide +kernel)
    RetainedExecutor.evaluate_nestedProgram hnew [.advance, .advance, .advance, .replay 1, .advance]
  have ⟨d', origin, hd', hle, _, hview⟩ := hreplay 3 (by decide +kernel)
  exact ⟨d₀, d, d', origin, hnew, hd, hlen, hd', hle, hview⟩

end DebugSession
end NornRune
