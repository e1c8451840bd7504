import NornRune.Execution.Theorems.Leaf

open Bitplane Checked

namespace NornRune

variable {p : Program} {batch : Batch} {q : EvidencePredicate} {stateReasons : List Nat}

structure EvidenceFits (p : Program) (records : List EvidenceRecord) : Prop where
  id_ne : ∀ r ∈ records, r.id ≠ 0
  state_ne : ∀ r ∈ records, r.state ≠ 0
  state_le : ∀ r ∈ records, r.state ≤ p.evidenceStateNames.length

theorem evidenceFits_of_valid (h : validEvidenceBatch batch p) (row : Nat) :
    EvidenceFits p (batch.rowEvidence row) := by
  simp only [validEvidenceBatch, Bool.and_eq_true, List.all_eq_true, List.mem_range, bne_iff_ne,
    decide_eq_true_eq] at h
  have hrow : ∀ r ∈ batch.rowEvidence row, ∃ i < batch.evidence.ids.length,
      r = batch.evidence.record i := by
    intro r hr
    have ⟨ref, href, he⟩ := List.mem_map.mp hr
    exact ⟨ref, h.1.2 ref (List.mem_of_mem_drop (List.mem_of_mem_take href)), he.symm⟩
  constructor
  all_goals
    intro r hr
    have ⟨i, hi, he⟩ := hrow r hr
    have := h.2 i hi
    subst he
  · exact this.1.1.1.1
  · exact this.1.2
  · exact this.2

theorem stateReason_eq_ok {record : EvidenceRecord} (h0 : record.state ≠ 0)
    (hl : record.state ≤ stateReasons.length) :
    stateReason stateReasons record.state = .ok (stateReasons.getD (record.state - 1) 0) := by
  rw [stateReason, if_neg h0, fetch_of_lt (by omega), List.getD_eq_getElem _ _ (by omega)]

theorem evidenceStep_eq_ok {record : EvidenceRecord} (h0 : record.state ≠ 0)
    (hl : record.state ≤ stateReasons.length) (s : EvidenceScan) :
    evidenceStep stateReasons q s record = .ok (q.step stateReasons s record) := by
  unfold evidenceStep EvidencePredicate.step
  split
  case isTrue => rfl
  case isFalse =>
    rw [stateReason_eq_ok h0 hl]
    rfl

theorem evidenceLane_eq_ok {records : List EvidenceRecord} (fits : EvidenceFits p records)
    (hl : stateReasons.length = p.evidenceStateNames.length) :
    evidenceLane stateReasons q records = .ok (q.lane stateReasons records) := by
  have : ∀ s, records.foldlM (evidenceStep stateReasons q) s =
      .ok (records.foldl (q.step stateReasons) s) := by
    intro s
    rw [foldlM_congr fun s r hr => evidenceStep_eq_ok (fits.state_ne r hr)
      (hl ▸ fits.state_le r hr) s]
    exact List.foldlM_pure
  rw [evidenceLane, this]
  rfl

theorem classifyEvidenceRecord_valid (record : EvidenceRecord) (reason : Nat)
    (q : EvidencePredicate) : (classifyEvidenceRecord record reason q).reasons.valid := by
  have wrong : ∀ c : Bool, ∀ reason, ReasonMask.valid
      (if c then ReasonMask.reasonBit reason else 0#16) = true := by
    intro c reason
    cases c
    · exact ReasonMask.valid_zero
    · exact ReasonMask.valid_reasonBit _
  exact ReasonMask.valid_or (ReasonMask.valid_reasonBit _)
    (ReasonMask.valid_or (ReasonMask.valid_or (wrong _ _) (wrong _ _)) (wrong _ _))

namespace EvidencePredicate

theorem scan_valid (q : EvidencePredicate) (stateReasons : List Nat) (records : List EvidenceRecord)
    {s : EvidenceScan} (hs : s.reasons.valid) :
    (records.foldl (q.step stateReasons) s).reasons.valid := by
  induction records generalizing s
  case nil => exact hs
  case cons r rs hi =>
    apply hi
    unfold step
    split
    · exact hs
    · exact ReasonMask.valid_or hs (classifyEvidenceRecord_valid ..)

theorem lane_valid (q : EvidencePredicate) (stateReasons : List Nat)
    (records : List EvidenceRecord) : (q.lane stateReasons records).reasons.valid := by
  have := q.scan_valid stateReasons records (s := ⟨false, false, false, 0#16⟩) ReasonMask.valid_zero
  unfold lane EvidenceScan.lane
  simp only
  split <;> split <;> simp [this, ReasonMask.valid_with]

end EvidencePredicate

theorem plane_foldl_setPlane (words : Nat) (f : Nat → List Word → List Word)
    (hf : ∀ reason plane, (f reason plane).length = plane.length) {reasons : List Nat}
    (hr : ∀ reason ∈ reasons, reason ∈ allReasons) (hn : reasons.Nodup) {ws : List Word}
    (hw : ws.length = reasonCount * words) :
    let ws' := reasons.foldl (fun ws reason => ReasonPlanes.setPlane ws reason words
      (f reason (ReasonPlanes.plane ws reason words))) ws
    ws'.length = ws.length ∧ ∀ reason ∈ allReasons, ReasonPlanes.plane ws' reason words =
      if reason ∈ reasons then f reason (ReasonPlanes.plane ws reason words)
      else ReasonPlanes.plane ws reason words := by
  induction reasons generalizing ws
  case nil => simp
  case cons r rs hi =>
    have hmem := hr r List.mem_cons_self
    have hp : (f r (ReasonPlanes.plane ws r words)).length = words := by
      rw [hf, ReasonPlanes.length_plane hw hmem]
    have ⟨hl, hb⟩ := hi (fun x hx => hr x (List.mem_cons_of_mem _ hx)) (List.nodup_cons.mp hn).2
      ((ReasonPlanes.length_setPlane ws r words (f r (ReasonPlanes.plane ws r words))).trans hw)
    refine ⟨hl.trans (ReasonPlanes.length_setPlane ..), fun reason hm => ?_⟩
    rw [List.foldl_cons, hb reason hm]
    by_cases he : reason = r
    case pos =>
      subst he
      rw [if_neg (List.nodup_cons.mp hn).1, if_pos List.mem_cons_self,
        ReasonPlanes.plane_setPlane_self hw hp hmem]
    case neg =>
      rw [ReasonPlanes.plane_setPlane_ne hp hmem hm he]
      simp [he]

theorem evalEvidenceUnchecked_holds {dst : Planes} {reasons : List Word} {states : EvidenceStateIndex}
    (hd : dst.Shaped (wordCount batch.rows))
    (hr : reasons.length = reasonCount * wordCount batch.rows)
    (fits : ∀ row, EvidenceFits p (batch.rowEvidence row))
    (hl : states.reasons.length = p.evidenceStateNames.length) :
    ∃ leaf, evalEvidenceUnchecked dst reasons batch states q = .ok leaf ∧
      leaf.Holds batch.rows fun r => q.lane states.reasons (batch.row r).evidence := by
  have hlanes : (List.range batch.rows).mapM (fun row =>
      evidenceLane states.reasons q (batch.rowEvidence row)) = .ok _ :=
    mapM_eq_ok fun row _ => evidenceLane_eq_ok (fits row) hl
  have hlane : ∀ row < batch.rows, ((List.range batch.rows).map fun row =>
      q.lane states.reasons (batch.rowEvidence row)).getD row ⟨⟨false, false⟩, 0#16⟩ =
      q.lane states.reasons (batch.rowEvidence row) := by
    intro row h
    simp [h]
  have hnodup : allReasons.Nodup := List.nodup_range'
  have hclear : (Leaf.clear batch.rows).reasons.length = reasonCount * wordCount batch.rows := by
    simp [Leaf.clear]
  obtain ⟨hlen, hplane⟩ := plane_foldl_setPlane (wordCount batch.rows) (fun reason plane =>
    setWhere (fun row => (((List.range batch.rows).map fun row =>
      q.lane states.reasons (batch.rowEvidence row)).getD row ⟨⟨false, false⟩, 0#16⟩).reasons.has
        reason) batch.rows plane) (by simp) (fun _ h => h) hnodup hclear
  simp only [evalEvidenceUnchecked, resetLeafOutputs_eq_ok hd hr, ok_bind, hlanes, pure_eq_ok,
    Except.ok.injEq, exists_eq_left']
  constructor
  case shaped => exact ⟨by simp [Leaf.clear], by simp [Leaf.clear]⟩
  case length => rw [hlen, hclear]
  case truth =>
    intro row h
    rw [Planes.lane, bit_setWhere _ (by simp [Leaf.clear]), bit_setWhere _ (by simp [Leaf.clear]),
      hlane row h]
    simp [Leaf.clear, h, Batch.row]
  case reasons =>
    intro row h
    refine ReasonPlanes.lane_eq_of_planes (q.lane_valid _ _) fun reason hm => ?_
    rw [hplane reason hm, if_pos hm, bit_setWhere _ (by
      rw [ReasonPlanes.length_plane (by simp [Leaf.clear]) hm]), hlane row h]
    simp [Leaf.clear, ReasonPlanes.plane, Region.read, h, Batch.row]

end NornRune
