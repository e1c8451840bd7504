import NornRune.Execution.Theorems.Run

open Bitplane Checked

namespace NornRune

namespace ResultBatch

theorem set_append_replicate (xs : List Nat) (m v : Nat) :
    (xs ++ List.replicate (m + 1) 0).set xs.length v = (xs ++ [v]) ++ List.replicate m 0 := by
  simp [List.replicate_succ]

theorem reset_eq (dst : ResultBatch) {n : Nat} (h : n + 1 ≤ maxInt) :
    dst.reset n = some (filled n []) := by
  rw [reset, if_neg (by omega)]
  simp [filled, offsets, empty, List.replicate_succ]

theorem length_offsets {α : Type} (rows : List (List α)) :
    (offsets rows).length = rows.length + 1 := by
  simp [offsets]

theorem offsets_concat {α : Type} (rows : List (List α)) (row : List α) :
    offsets (rows ++ [row]) = offsets rows ++ [(rows.flatten ++ row).length % 2 ^ 32] := by
  simp [offsets, Ragged.offsets_concat]

theorem appendRow_filled {n : Nat} {rs : List RowResult} (h : rs.length < n) (r : RowResult) :
    (filled n rs).appendRow rs.length r = filled n (rs ++ [r]) := by
  obtain ⟨m, rfl⟩ : ∃ m, n = rs.length + (m + 1) := ⟨n - rs.length - 1, by omega⟩
  have outcome : ∀ (f : RowResult → Nat) (v : Nat),
      (rs.map f ++ List.replicate (m + 1) 0).set rs.length v =
        rs.map f ++ [v] ++ List.replicate m 0 := fun f v => by
    simpa using set_append_replicate (rs.map f) m v
  have offset : ∀ {α : Type} (f : RowResult → List α) (v : Nat),
      (offsets (rs.map f) ++ List.replicate (m + 1) 0).set (rs.length + 1) v =
        offsets (rs.map f) ++ [v] ++ List.replicate m 0 := fun f v => by
    simpa [length_offsets] using set_append_replicate (offsets (rs.map f)) m v
  have hs : rs.length + (m + 1) - rs.length = m + 1 := by omega
  have hs' : rs.length + (m + 1) - (rs.length + 1) = m := by omega
  simp only [appendRow, filled, hs, hs', outcome, offset, List.map_append, List.map_singleton,
    List.flatten_append, List.flatten_singleton, offsets_concat, List.length_append, List.length_map,
    List.length_singleton]

end ResultBatch

variable {p : Program}

theorem Scheduled.truthSlot_of_ne (sched : Scheduled p) {i : Nat} (h : p.truthSlotOf i ≠ 0) :
    i - 1 < p.opcodes.length := by
  by_contra hn
  rw [Program.truthSlotOf, List.getD_eq_default _ _ (by have := sched.truths; omega)] at h
  exact h rfl

theorem Scheduled.reasonSlot_of_ne (sched : Scheduled p) {i : Nat} (h : p.reasonSlotOf i ≠ 0) :
    i - 1 < p.opcodes.length := by
  by_contra hn
  rw [Program.reasonSlotOf, List.getD_eq_default _ _ (by have := sched.reasons; omega)] at h
  exact h rfl

theorem Lanes.Agree.reader {s t : Lanes} (h : Agree p p.opcodes.length s t) (sched : Scheduled p) :
    s.reader p = t.reader p := by
  simp only [Lanes.reader, LaneReader.mk.injEq]
  constructor
  all_goals
    funext i
    split
    case isTrue => rfl
    case isFalse hne =>
      first
      | exact congrArg _ (h.truth _ (sched.truthSlot_of_ne hne))
      | exact congrArg _ (h.reasons _ (sched.reasonSlot_of_ne hne))

namespace Executor

variable {heap : Heap} {addr rows : Nat} {e : Executor} {batch : Batch}

theorem reader_eq (sched : Scheduled (heap addr)) (ready : e.Ready heap addr rows) (r : Nat) :
    e.reader heap (heap addr) r rows = (e.lanes rows r).reader (heap addr) := by
  simp only [reader, Lanes.reader, LaneReader.mk.injEq]
  constructor
  all_goals
    funext i
    first | unfold instructionTruth | unfold instructionReasons
    split
    case isTrue h0 => simp [h0, truthSlot, reasonSlot, require]
    case isFalse hne =>
      first
      | have hs := (sched.row _ (sched.truthSlot_of_ne hne)).truthSlot
        simp only [ready.truthSlot_eq_ok hs, ok_bind, pure_eq_ok, Program.truthSlotOf,
          lane_truthPlanes hs.ne_zero]
      | have hs := (sched.row _ (sched.reasonSlot_of_ne hne)).reasonSlot
        simp only [ready.reasonSlot_eq_ok hs, ok_bind, pure_eq_ok, Program.reasonSlotOf,
          lane_reasonPlanes hs.ne_zero]

theorem instruction_eq_ok (sched : Scheduled (heap addr)) (ready : e.Ready heap addr rows)
    {instruction : Nat} (hi : instruction - 1 < (heap addr).opcodes.length) (r : Nat) :
    e.instructionTruth heap (heap addr) r rows instruction =
        .ok ((e.lanes rows r).value (heap addr) instruction).truth ∧
      e.instructionReasons heap (heap addr) r rows instruction =
        .ok ((e.lanes rows r).value (heap addr) instruction).reasons := by
  have hread := reader_eq sched ready r
  have ht : (heap addr).truthSlotOf instruction ≠ 0 := (sched.row _ hi).truthSlot.ne_zero
  have hr : (heap addr).reasonSlotOf instruction ≠ 0 := (sched.row _ hi).reasonSlot.ne_zero
  constructor
  case left =>
    have := congrFun (congrArg LaneReader.truth hread) instruction
    simpa only [reader, Lanes.reader, if_neg ht, Lanes.value] using this
  case right =>
    have := congrFun (congrArg LaneReader.reasons hread) instruction
    simpa only [reader, Lanes.reader, if_neg hr, Lanes.value] using this

theorem selectors_eq_ok (fits : batch.Fits p)
    (hsel : ∀ field ∈ p.applicabilityIndex.fieldIDs, validExecutionSelector p field) {r : Nat}
    (hr : r < batch.rows) :
    selectors p batch r = .ok (p.applicabilityIndex.fieldIDs.map (p.selector (batch.row r))) := by
  refine mapM_eq_ok fun field hf => ?_
  have hv := hsel field hf
  simp only [validExecutionSelector] at hv
  split at hv
  case h_2 => cases hv
  case h_1 kind column hl =>
    simp only [Bool.and_eq_true, beq_iff_eq, decide_eq_true_eq] at hv
    have hlt : field - 1 < p.fieldIndex.kinds.length := by
      unfold FieldIndex.lookup at hl
      split at hl
      · cases hl
      · split at hl
        case h_1 hk _ => exact List.getElem?_eq_some_iff.mp hk |>.1
        case h_2 => cases hl
    simp only [Batch.wordColumn_eq_ok fits fits.presence hlt, hl, Option.elim_some, ok_bind,
      Batch.rowColumn_eq_ok fits fits.symbols hv.2, Batch.bit_columnWords hr, Program.selector,
      Batch.getD_columnRows hr, Batch.row]
    split <;> rfl

structure Selecting (heap : Heap) (addr : Nat) (e : Executor) : Prop where
  query : e.query = some addr
  valid : (heap addr).applicabilityIndex.Valid
  candidates : e.candidateWords.len = (heap addr).applicabilityIndex.wordCount
  values : e.selectorValues.len = (heap addr).applicabilityIndex.fieldIDs.length
  present : e.selectorPresent.len = (heap addr).applicabilityIndex.fieldIDs.length

structure Selected (e e' : Executor) : Prop where
  query : e'.query = e.query
  program : e'.program = e.program
  states : e'.states = e.states
  factBuilder : e'.factBuilder = e.factBuilder
  factIndex : e'.factIndex = e.factIndex
  truthWords : e'.truthWords = e.truthWords
  reasonWords : e'.reasonWords = e.reasonWords

theorem Selected.trans {e₁ e₂ e₃ : Executor} (h₁ : Selected e₁ e₂) (h₂ : Selected e₂ e₃) :
    Selected e₁ e₃ := by
  constructor
  · exact h₂.query.trans h₁.query
  · exact h₂.program.trans h₁.program
  · exact h₂.states.trans h₁.states
  · exact h₂.factBuilder.trans h₁.factBuilder
  · exact h₂.factIndex.trans h₁.factIndex
  · exact h₂.truthWords.trans h₁.truthWords
  · exact h₂.reasonWords.trans h₁.reasonWords

theorem Selected.ready {e e' : Executor} (h : Selected e e') (ready : e.Ready heap addr rows) :
    e'.Ready heap addr rows where
  program := h.program.trans ready.program
  truth_len := h.truthWords ▸ ready.truth_len
  reason_len := h.reasonWords ▸ ready.reason_len

theorem Selected.lanes {e e' : Executor} (h : Selected e e') (r : Nat) :
    e'.lanes rows r = e.lanes rows r := by
  simp only [Executor.lanes, truthPlanes, reasonPlanes, h.truthWords, h.reasonWords]

theorem selectRequirementCandidates_eq_ok (fits : batch.Fits (heap addr))
    (hsel : ∀ field ∈ (heap addr).applicabilityIndex.fieldIDs, validExecutionSelector (heap addr) field)
    (sel : e.Selecting heap addr) {r : Nat} (hr : r < batch.rows) :
    ∃ e', e.selectRequirementCandidates heap (heap addr) batch r = .ok e' ∧ Selected e e' ∧
      e'.Selecting heap addr ∧
      e'.candidateWords.toList = (heap addr).candidates (batch.row r) := by
  have hlen : ∀ {α β : Type} (f : Nat → α) (g : α → β),
      (((heap addr).applicabilityIndex.fieldIDs.map f).map g).length =
        (heap addr).applicabilityIndex.fieldIDs.length := by simp
  have hwords : ((heap addr).candidates (batch.row r)).length =
      (heap addr).applicabilityIndex.wordCount :=
    sel.valid.length_candidatesFrom _ _ (by simp) sel.valid.all
  have hw : Region.write e.candidateWords.toList 0 (heap addr).applicabilityIndex.allMask =
      (heap addr).applicabilityIndex.allMask := by
    have := @Region.read_write_self _ e.candidateWords.toList
      (heap addr).applicabilityIndex.allMask 0 (by
        rw [Slice.length_toList, sel.candidates, sel.valid.all]
        omega)
    rwa [Region.read, List.drop_zero, List.take_of_length_le (by
      rw [Region.length_write, Slice.length_toList, sel.candidates, sel.valid.all])] at this
  have hcand : (heap addr).applicabilityIndex.candidates e.candidateWords.toList
      (((heap addr).applicabilityIndex.fieldIDs.map ((heap addr).selector (batch.row r))).map (·.1))
      (((heap addr).applicabilityIndex.fieldIDs.map ((heap addr).selector (batch.row r))).map (·.2)) =
      some ((heap addr).candidates (batch.row r)) := by
    rw [Policy.candidates, if_neg (by simp [sel.candidates]), hw]
    rfl
  simp only [selectRequirementCandidates, selectors_eq_ok fits hsel hr, ok_bind, sel.query,
    Option.bind_some, Slice.toList_write ((hlen _ _).trans sel.values.symm),
    Slice.toList_write ((hlen _ _).trans sel.present.symm), hcand]
  exact ⟨_, rfl, ⟨sel.query.symm, rfl, rfl, rfl, rfl, rfl, rfl⟩,
    ⟨rfl, sel.valid, sel.candidates, sel.values, sel.present⟩,
    Slice.toList_write (hwords.trans sel.candidates.symm)⟩

section Rows

variable {code : List Instr} {stateReasons : List Nat} (sched : Scheduled (heap addr))
  (fits : batch.Fits (heap addr))
  (hsel : ∀ field ∈ (heap addr).applicabilityIndex.fieldIDs, validExecutionSelector (heap addr) field)

include sched fits hsel

theorem finalizeStep_eq (sel : e.Selecting heap addr) (ready : e.Ready heap addr batch.rows) {r : Nat}
    (hr : r < batch.rows) (hl : Lanes.Agree (heap addr) (heap addr).opcodes.length
      (e.lanes batch.rows r) (Lanes.final (heap addr) e.states.reasons (batch.row r) code))
    (dst : ResultBatch) :
    ∃ e', Selected e e' ∧ e'.Selecting heap addr ∧ finalizeStep heap addr batch (e, dst) r =
      ((heap addr).evalRow e.states.reasons code (batch.row r)).map fun row =>
        (e', dst.appendRow r row) := by
  have ⟨e', he, selected, sel', hc⟩ := selectRequirementCandidates_eq_ok fits hsel sel hr
  refine ⟨e', selected, sel', ?_⟩
  simp only [finalizeStep, he, ok_bind, hc, selected.states, reader_eq sched (selected.ready ready),
    selected.lanes, hl.reader sched, Program.evalRow, Batch.row]
  cases finalizeRow (heap addr) _ _ e.states.reasons (batch.rowEvidence r) <;> rfl

theorem finalizeResults_spec (sel : e.Selecting heap addr) (ready : e.Ready heap addr batch.rows)
    (hl : ∀ r < batch.rows, Lanes.Agree (heap addr) (heap addr).opcodes.length
      (e.lanes batch.rows r) (Lanes.final (heap addr) e.states.reasons (batch.row r) code)) {n : Nat}
    (hn : n ≤ batch.rows) :
    (∃ rs, (List.range n).mapM (fun r => (heap addr).evalRow e.states.reasons code (batch.row r)) =
        .ok rs ∧ rs.length = n ∧ ∃ e', Selected e e' ∧ e'.Selecting heap addr ∧
        (List.range n).foldlM (finalizeStep heap addr batch) (e, .filled batch.rows []) =
          .ok (e', .filled batch.rows rs)) ∨
    ((∃ text, (List.range n).mapM (fun r =>
        (heap addr).evalRow e.states.reasons code (batch.row r)) = .error text) ∧
      ∃ text, (List.range n).foldlM (finalizeStep heap addr batch) (e, .filled batch.rows []) =
        .error text) := by
  induction n
  case zero => exact .inl ⟨[], rfl, rfl, e, ⟨rfl, rfl, rfl, rfl, rfl, rfl, rfl⟩, sel, rfl⟩
  case succ n hi =>
    simp only [List.range_succ, List.mapM_append, List.foldlM_append, List.mapM_cons, List.mapM_nil,
      List.foldlM_cons, List.foldlM_nil]
    rcases hi (by omega) with ⟨rs, hm, hlen, e', selected, sel', hf⟩ | ⟨⟨text, hm⟩, text', hf⟩
    case inr => exact .inr ⟨⟨text, by simp only [hm, error_bind]⟩, text', by simp only [hf, error_bind]⟩
    case inl =>
      have hl' := hl n (by omega)
      rw [← selected.lanes, ← selected.states] at hl'
      have ⟨e'', selected', sel'', hs⟩ := finalizeStep_eq sched fits hsel sel' (selected.ready ready)
        (by omega) hl' (.filled batch.rows rs)
      rw [selected.states] at hs
      simp only [hm, hf, ok_bind, hs]
      cases (heap addr).evalRow e.states.reasons code (batch.row n)
      case error text => exact .inr ⟨⟨text, rfl⟩, text, rfl⟩
      case ok row =>
        refine .inl ⟨rs ++ [row], rfl, by simp [hlen], e'', selected.trans selected', sel'', ?_⟩
        have := ResultBatch.appendRow_filled (show rs.length < batch.rows by omega) row
        rw [hlen] at this
        simp only [Except.map, this, ok_bind, pure_eq_ok]

end Rows
end Executor
end NornRune
