import NornRune.Execution.Theorems.Leaf
import NornRune.Lib.Reduction

open Bitplane Checked Reduction

namespace NornRune

theorem Truth.meet_and : Meet Truth.and where
  assoc := Truth.and_assoc
  comm := Truth.and_comm
  idem := Truth.and_self

theorem Truth.meet_or : Meet Truth.or where
  assoc := Truth.or_assoc
  comm := Truth.or_comm
  idem := Truth.or_self

theorem ReasonMask.meet_or : Meet (fun a b : ReasonMask => a ||| b) where
  assoc := BitVec.or_assoc
  comm := BitVec.or_comm
  idem := fun _ => BitVec.or_self

namespace Executor

variable {heap : Heap} {addr rows r slot : Nat} {e : Executor} {p : Program}

structure Ready (heap : Heap) (addr rows : Nat) (e : Executor) : Prop where
  program : e.program = some addr
  truth_len : e.truthWords.len = (heap addr).truthSlotCount * (2 * wordCount rows)
  reason_len : e.reasonWords.len = (heap addr).reasonSlotCount * (reasonCount * wordCount rows)

structure Frame (e e' : Executor) : Prop where
  query : e'.query = e.query
  program : e'.program = e.program
  states : e'.states = e.states
  factBuilder : e'.factBuilder = e.factBuilder
  factIndex : e'.factIndex = e.factIndex
  candidateWords : e'.candidateWords = e.candidateWords
  selectorValues : e'.selectorValues = e.selectorValues
  selectorPresent : e'.selectorPresent = e.selectorPresent
  truth_len : e'.truthWords.len = e.truthWords.len
  reason_len : e'.reasonWords.len = e.reasonWords.len

namespace Frame

variable {e₁ e₂ e₃ : Executor}

@[refl]
theorem refl (e : Executor) : Frame e e := by
  constructor <;> rfl

theorem trans (h₁ : Frame e₁ e₂) (h₂ : Frame e₂ e₃) : Frame e₁ e₃ := by
  constructor
  · exact h₂.query.trans h₁.query
  · exact h₂.program.trans h₁.program
  · exact h₂.states.trans h₁.states
  · exact h₂.factBuilder.trans h₁.factBuilder
  · exact h₂.factIndex.trans h₁.factIndex
  · exact h₂.candidateWords.trans h₁.candidateWords
  · exact h₂.selectorValues.trans h₁.selectorValues
  · exact h₂.selectorPresent.trans h₁.selectorPresent
  · exact h₂.truth_len.trans h₁.truth_len
  · exact h₂.reason_len.trans h₁.reason_len

theorem ready (h : Frame e₁ e₂) (hr : e₁.Ready heap addr rows) : e₂.Ready heap addr rows where
  program := h.program.trans hr.program
  truth_len := h.truth_len.trans hr.truth_len
  reason_len := h.reason_len.trans hr.reason_len

theorem setTruthSlot (e : Executor) (slot rows : Nat) (t : Planes) :
    Frame e (e.setTruthSlot slot rows t) := by
  constructor <;> rfl

theorem setReasonSlot (e : Executor) (slot rows : Nat) (ws : List Word) :
    Frame e (e.setReasonSlot slot rows ws) := by
  constructor <;> rfl

end Frame

def truthPlanes (e : Executor) (slot rows : Nat) : Planes :=
  ⟨e.truthWords.read (truthStart slot rows) (wordCount rows),
    e.truthWords.read (truthStart slot rows + wordCount rows) (wordCount rows)⟩

def reasonPlanes (e : Executor) (slot rows : Nat) : List Word :=
  e.reasonWords.read (reasonStart slot rows) (reasonCount * wordCount rows)

def lanes (e : Executor) (rows r : Nat) : Lanes where
  truth slot := if slot = 0 then .bottom else (e.truthPlanes slot rows).lane r
  reasons slot := if slot = 0 then 0#16 else
    ReasonPlanes.lane (e.reasonPlanes slot rows) (wordCount rows) r

structure TruthSlot (p : Program) (slot : Nat) : Prop where
  ne_zero : slot ≠ 0
  le : slot ≤ p.truthSlotCount

structure ReasonSlot (p : Program) (slot : Nat) : Prop where
  ne_zero : slot ≠ 0
  le : slot ≤ p.reasonSlotCount

namespace Ready

variable (h : e.Ready heap addr rows)
include h

theorem truthStop_le (hs : TruthSlot (heap addr) slot) :
    truthStart slot rows + 2 * wordCount rows ≤ e.truthWords.len := by
  have := hs.ne_zero
  have := hs.le
  rw [h.truth_len]
  exact Region.stride_le (by omega) _

theorem reasonStop_le (hs : ReasonSlot (heap addr) slot) :
    reasonStart slot rows + reasonCount * wordCount rows ≤ e.reasonWords.len := by
  have := hs.ne_zero
  have := hs.le
  rw [h.reason_len]
  exact Region.stride_le (by omega) _

theorem truthSlot_eq_ok (hs : TruthSlot (heap addr) slot) :
    e.truthSlot heap slot rows = .ok (e.truthPlanes slot rows) := by
  simp only [truthSlot, truthSlotCount, h.program, Option.elim_some, hs.le, hs.ne_zero,
    h.truthStop_le hs, decide_true, Bool.and_true, bne_iff_ne, ne_eq, not_false_eq_true, require_of,
    ok_bind]
  rfl

theorem reasonSlot_eq_ok (hs : ReasonSlot (heap addr) slot) :
    e.reasonSlot heap slot rows = .ok (e.reasonPlanes slot rows) := by
  simp only [reasonSlot, reasonSlotCount, h.program, Option.elim_some, hs.le, hs.ne_zero,
    h.reasonStop_le hs, decide_true, Bool.and_true, bne_iff_ne, ne_eq, not_false_eq_true, require_of,
    ok_bind]
  rfl

theorem shaped (hs : TruthSlot (heap addr) slot) :
    (e.truthPlanes slot rows).Shaped (wordCount rows) := by
  have := h.truthStop_le hs
  exact ⟨Slice.length_read (by omega), Slice.length_read (by omega)⟩

theorem length_reasonPlanes (hs : ReasonSlot (heap addr) slot) :
    (e.reasonPlanes slot rows).length = reasonCount * wordCount rows :=
  Slice.length_read (h.reasonStop_le hs)

end Ready

section Write

variable {t : Planes} {ws : List Word} {other : Nat}

theorem truthPlanes_setTruthSlot_self (h : e.Ready heap addr rows)
    (hs : TruthSlot (heap addr) slot) (ht : t.Shaped (wordCount rows)) :
    (e.setTruthSlot slot rows t).truthPlanes slot rows = t := by
  have := h.truthStop_le hs
  have hp : ((e.truthWords.write (truthStart slot rows) t.positive).write
      (truthStart slot rows + wordCount rows) t.negative).read (truthStart slot rows)
      (wordCount rows) = t.positive := by
    rw [Slice.read_write_disjoint (by omega)]
    simpa only [ht.positive] using @Slice.read_write_self _ e.truthWords (truthStart slot rows)
      t.positive (by rw [ht.positive]; omega)
  have hn : ((e.truthWords.write (truthStart slot rows) t.positive).write
      (truthStart slot rows + wordCount rows) t.negative).read
      (truthStart slot rows + wordCount rows) (wordCount rows) = t.negative := by
    simpa only [ht.negative] using @Slice.read_write_self _
      (e.truthWords.write (truthStart slot rows) t.positive) (truthStart slot rows + wordCount rows)
      t.negative (by rw [ht.negative, Slice.len_write]; omega)
  simp only [truthPlanes, setTruthSlot, hp, hn]

theorem truthPlanes_setTruthSlot_ne (hs : slot ≠ 0) (ho : other ≠ 0) (hne : other ≠ slot)
    (ht : t.Shaped (wordCount rows)) :
    (e.setTruthSlot slot rows t).truthPlanes other rows = e.truthPlanes other rows := by
  have : truthStart other rows + 2 * wordCount rows ≤ truthStart slot rows ∨
      truthStart slot rows + 2 * wordCount rows ≤ truthStart other rows :=
    Region.stride_disjoint (by omega) _
  have hp := ht.positive
  have hn := ht.negative
  simp only [truthPlanes, setTruthSlot]
  rw [Slice.read_write_disjoint (by omega), Slice.read_write_disjoint (by omega),
    Slice.read_write_disjoint (by omega), Slice.read_write_disjoint (by omega)]

theorem lanes_setTruthSlot (h : e.Ready heap addr rows) (hs : TruthSlot (heap addr) slot)
    (ht : t.Shaped (wordCount rows)) (r : Nat) :
    (e.setTruthSlot slot rows t).lanes rows r = (e.lanes rows r).setTruth slot (t.lane r) := by
  refine Lanes.ext (funext fun other => ?_) rfl
  by_cases h0 : other = 0
  · simp [Lanes.setTruth, lanes, h0, Function.update_of_ne (Ne.symm hs.ne_zero)]
  · by_cases hne : other = slot
    · subst hne
      simp [Lanes.setTruth, lanes, h0, truthPlanes_setTruthSlot_self h hs ht]
    · simp [Lanes.setTruth, lanes, h0, hne, truthPlanes_setTruthSlot_ne hs.ne_zero h0 hne ht]

theorem reasonPlanes_setReasonSlot_self (h : e.Ready heap addr rows)
    (hs : ReasonSlot (heap addr) slot) (hw : ws.length = reasonCount * wordCount rows) :
    (e.setReasonSlot slot rows ws).reasonPlanes slot rows = ws := by
  have := h.reasonStop_le hs
  rw [reasonPlanes, ← hw]
  exact Slice.read_write_self (by omega)

theorem reasonPlanes_setReasonSlot_ne (hs : slot ≠ 0) (ho : other ≠ 0) (hne : other ≠ slot)
    (hw : ws.length = reasonCount * wordCount rows) :
    (e.setReasonSlot slot rows ws).reasonPlanes other rows = e.reasonPlanes other rows := by
  refine Slice.read_write_disjoint ?_
  rw [hw]
  exact Region.stride_disjoint (by omega) _

theorem lanes_setReasonSlot (h : e.Ready heap addr rows) (hs : ReasonSlot (heap addr) slot)
    (hw : ws.length = reasonCount * wordCount rows) (r : Nat) :
    (e.setReasonSlot slot rows ws).lanes rows r =
      (e.lanes rows r).setReasons slot (ReasonPlanes.lane ws (wordCount rows) r) := by
  refine Lanes.ext rfl (funext fun other => ?_)
  by_cases h0 : other = 0
  · simp [Lanes.setReasons, lanes, h0, Function.update_of_ne (Ne.symm hs.ne_zero)]
  · by_cases hne : other = slot
    · subst hne
      simp [Lanes.setReasons, lanes, h0, reasonPlanes_setReasonSlot_self h hs hw]
    · simp [Lanes.setReasons, lanes, h0, hne, reasonPlanes_setReasonSlot_ne hs.ne_zero h0 hne hw]

end Write

theorem lane_truthPlanes (hs : slot ≠ 0) (r : Nat) :
    (e.truthPlanes slot rows).lane r = (e.lanes rows r).truth slot := by
  simp [lanes, hs]

theorem lane_reasonPlanes (hs : slot ≠ 0) (r : Nat) :
    ReasonPlanes.lane (e.reasonPlanes slot rows) (wordCount rows) r =
      (e.lanes rows r).reasons slot := by
  simp [lanes, hs]

end Executor
end NornRune
