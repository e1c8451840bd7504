import NornRune.Debugging.Theorems.Session
import NornRune.Scheduling.Theorems.Partition

open Checked

namespace NornRune.RetainedExecutor

variable {k : Kernels} {r : RetainedExecutor} {reasons : List Nat}

-- What is left of earlier sessions: the executor has not bound any evidence states, or it has bound
-- them to these reasons.
structure Reusable (r : RetainedExecutor) (reasons : List Nat) : Prop where
  clean : Clean r.executor.factBuilder.valueRows
  states : r.executor.states.program ≠ none → r.executor.states.reasons = reasons
  session : r.session = none ∨ ∃ s, r.Sound s reasons

theorem reusable_zero (reasons : List Nat) : zero.Reusable reasons where
  clean := clean_empty
  states h := absurd rfl h
  session := .inl rfl

theorem Sound.reusable {s : RetainedSession} (h : r.Sound s reasons) : r.Reusable reasons where
  clean := h.clean
  states _ := h.states
  session := .inr ⟨s, h⟩

namespace Reusable

variable (h : r.Reusable reasons)
include h

theorem begin {source : Program} {batch : Batch} (acc : Accepts source batch)
    (hs : EvidenceStateIndex.classify source = some reasons) :
    ∃ r', r.begin source batch = (r', .ok ()) ∧
      r'.Sound ⟨source.retained, batch, 0, false⟩ reasons := by
  have ⟨reasons', r', hc, hb, sound⟩ := begin_sound h.clean
    (fun hp => by rw [hs, h.states hp]) acc
  rw [hs, Option.some.injEq] at hc
  exact ⟨r', hb, hc ▸ sound⟩

theorem call {c : Call} {r' : RetainedExecutor}
    (hc : ∀ source batch, c = .begin source batch → Accepts source batch ∧ EvidenceStateIndex.classify source = some reasons)
    (hr : r.call k c = .ok r') : r'.Reusable reasons := by
  cases c
  case begin source batch =>
    have ⟨acc, hs⟩ := hc source batch rfl
    have ⟨r₁, hb, sound⟩ := h.begin acc hs
    cases hr
    rw [hb]
    exact sound.reusable
  case move m =>
    rcases h.session with hnone | ⟨s, sound⟩
    case inl =>
      have : r' = r := by
        cases m <;> simpa [RetainedExecutor.call, RetainedExecutor.move, RetainedExecutor.step,
          RetainedExecutor.rewind, RetainedExecutor.restart, hnone, eq_comm] using hr
      exact this ▸ h
    case inr =>
      rcases sound.move m with ⟨r₁, s₁, hm, _, sound₁⟩ | ⟨⟨_, hm⟩, _⟩
      case inl =>
        cases hm.symm.trans hr
        exact sound₁.reusable
      case inr => cases hm.symm.trans hr

theorem calls {cs : List Call} {r' : RetainedExecutor}
    (hc : ∀ source batch, .begin source batch ∈ cs → Accepts source batch ∧ EvidenceStateIndex.classify source = some reasons)
    (hr : r.calls k cs = .ok r') : r'.Reusable reasons := by
  refine foldlM_preserves (P := fun r => r.Reusable reasons) hr h fun _ c _ hm hr h => ?_
  exact h.call (fun source batch he => hc source batch (he ▸ hm)) hr

end Reusable

-- If all programs that are ever begun give their evidence states the same reasons, then a retained
-- executor that is begun again shows the same as a new one, whatever happened before.
theorem observe_begin_again (k : Kernels) (reasons : List Nat) (cs : List Call) {r : RetainedExecutor}
    (hcs : ∀ source batch, .begin source batch ∈ cs → (zero.begin source batch).2 = .ok () ∧
      EvidenceStateIndex.classify source = some reasons)
    (hr : zero.calls k cs = .ok r) {source : Program} {batch : Batch}
    (hs : EvidenceStateIndex.classify source = some reasons)
    (hb : (zero.begin source batch).2 = .ok ()) (ms : List Move) :
    (r.begin source batch).2 = .ok () ∧
      (((r.begin source batch).1.moves k ms).toOption.map view) =
        (((zero.begin source batch).1.moves k ms).toOption.map view) := by
  have reusable : r.Reusable reasons := (reusable_zero reasons).calls
    (fun source batch hm => ⟨accepts_of_begin (hcs source batch hm).1, (hcs source batch hm).2⟩) hr
  have acc := accepts_of_begin hb
  have ⟨r₁, h₁, sound₁⟩ := reusable.begin acc hs
  have ⟨r₂, h₂, sound₂⟩ := (reusable_zero reasons).begin acc hs
  rw [h₁, h₂]
  exact ⟨rfl, sound₁.observe_moves sound₂ ms⟩

def reviewed (state : List Byte) : Program :=
  { Scheduler.definedField with
    opcodes := [.defined, .evidence]
    fields := [1, 0]
    values := [0, 0]
    listStarts := [0, 0]
    listCounts := [0, 0]
    operandStarts := [0, 0]
    operandCounts := [0, 0]
    evidenceKinds := [0, 1]
    evidenceStates := [0, 1]
    rootFlags := [.applicability ||| .assertion, .evidence]
    truthSlots := [1, 2]
    reasonSlots := [1, 2]
    instructionNodes := [1, 2]
    instructionSourceStarts := [0, 0]
    instructionSourceEnds := [0, 0]
    symbolBytes := bytes "-" ++ state
    symbolStarts := [0, 1]
    symbolLengths := [1, state.length]
    evidenceKindNames := [1]
    evidenceStateNames := [1, 2]
    clauseEvidenceStarts := [0]
    clauseEvidenceCounts := [1]
    clauseEvidenceIDs := [2]
    clauseEvidenceSourceNodeIDs := [2]
    clauseOnFalse := [2]
    outcomes := ⟨[1, 1, 1], [1, 2, 3], [true, true, true]⟩
    resolutions := ⟨List.replicate reasonCount 3, List.replicate reasonCount 1,
      List.replicate reasonCount 0, List.replicate reasonCount 0, []⟩
    resolver := ⟨⟨[1, 1, 1], [1, 2, 3], [true, true, true]⟩, ⟨[], [], [], []⟩,
      List.replicate reasonCount 3, List.replicate reasonCount 1, List.replicate reasonCount 0,
      List.replicate reasonCount 0, []⟩
    programSymbolCount := 2
    truthSlotCount := 2
    reasonSlotCount := 2
    programSymbolCount_le := Scheduler.two_le_maxUint32
    resolver_eq := .inr rfl }

def record : Batch :=
  { Scheduler.alternating 1 with
    evidenceOffsets := [0, 1]
    evidenceRefs := [0]
    evidence := ⟨[1], [1], [2], [0], [0], [0], [0], [0]⟩ }

-- The condition can be met: the two programs differ in the name of a state that stands for no reason.
theorem observe_begin_again_rejected :
    (((zero.begin (reviewed (bytes "rejected")) record).1.begin (reviewed (bytes "revoked")) record).1.moves
        .portable [.step, .step]).toOption.map view =
      ((zero.begin (reviewed (bytes "revoked")) record).1.moves
        .portable [.step, .step]).toOption.map view := by
  refine (observe_begin_again .portable [0, 0] [.begin _ _] ?_ rfl (by decide +kernel)
    (by decide +kernel) _).2
  intro source batch hm
  cases List.mem_singleton.mp hm
  exact ⟨by decide +kernel, by decide +kernel⟩

-- Where a record in the second state is stale, the executor still takes it to be rejected, as in the
-- program before: the second policy is reported to be violated (outcome 2), and not to be unresolved
-- (outcome 3).
theorem begin_again_stale :
    (zero.begin (reviewed (bytes "rejected")) record).2 = .ok () ∧
    (zero.begin (reviewed (bytes "stale")) record).2 = .ok () ∧
    (zero.calls .portable [.begin (reviewed (bytes "rejected")) record,
        .begin (reviewed (bytes "stale")) record, .move .step, .move .step]).toOption.map
      (·.resultBatch.map (·.outcomeIDs)) = some (some [2]) ∧
    (zero.calls .portable [.begin (reviewed (bytes "stale")) record, .move .step,
        .move .step]).toOption.map (·.resultBatch.map (·.outcomeIDs)) = some (some [3]) := by
  decide +kernel

end NornRune.RetainedExecutor
