import NornRune.Execution.Theorems.Row

open Checked

namespace NornRune

variable {p : Program} {batch : Batch} {sizes : ExecutionSizes} {stateReasons : List Nat}
  {rs : List RowResult}

theorem evaluate_eq_returned {b : ResultBatch} (h : p.evaluate batch = .returned b) :
    ∃ sizes stateReasons rs, ExecutionChecked p batch sizes ∧ p.applicabilityIndex.validBoundPolicy ∧
      EvidenceStateIndex.classify p = some stateReasons ∧ p.evalRows stateReasons batch = .ok rs ∧
      b = .ofRows rs := by
  unfold Program.evaluate at h
  cases hc : checkExecution true p batch
  case error f =>
    rw [hc] at h
    cases h
  case ok sizes =>
    cases hv : p.applicabilityIndex.validBoundPolicy
    case false =>
      simp only [hc, hv] at h
      cases h
    case true =>
      cases hr : EvidenceStateIndex.classify p
      case none =>
        simp only [hc, hv, hr] at h
        cases h
      case some stateReasons =>
        simp only [hc, hv, hr] at h
        cases hrs : p.evalRows stateReasons batch
        case error =>
          rw [hrs] at h
          cases h
        case ok rs =>
          rw [hrs] at h
          cases h
          exact ⟨sizes, stateReasons, rs, checkExecution_eq_ok hc, rfl, rfl, hrs, rfl⟩

theorem evaluate_eq (checked : ExecutionChecked p batch sizes)
    (hv : p.applicabilityIndex.validBoundPolicy)
    (hr : EvidenceStateIndex.classify p = some stateReasons)
    (hrs : p.evalRows stateReasons batch = .ok rs) : p.evaluate batch = .returned (.ofRows rs) := by
  simp only [Program.evaluate, checked.check, hv, hr, hrs]
  rfl

theorem evalRows_eq_ok (h : p.evalRows stateReasons batch = .ok rs) :
    ∃ code, p.code = .ok code ∧ rs.length = batch.rows ∧
      ∀ r (hr : r < rs.length), p.evalRow stateReasons code (batch.row r) = .ok rs[r] := by
  have ⟨code, hc, h⟩ := of_bind h
  have hall := forall₂_of_mapM_eq_ok h
  have hlen : rs.length = batch.rows := by simpa using hall.length_eq.symm
  refine ⟨code, hc, hlen, fun r hr => ?_⟩
  have := hall.get (i := r) (by simpa [← hlen] using hr) hr
  simpa only [List.get_eq_getElem, List.getElem_range] using this

structure Batch.EvidenceShape (b : Batch) : Prop where
  length : b.evidenceOffsets.length = b.rows + 1
  first : b.evidenceOffsets.getD 0 0 = 0
  last : b.evidenceOffsets.getD b.rows 0 = b.evidenceRefs.length
  step : ∀ i < b.rows, b.evidenceOffsets.getD i 0 ≤ b.evidenceOffsets.getD (i + 1) 0

namespace Batch.EvidenceShape

variable {b : Batch}

theorem of_valid (h : validEvidenceBatch b p) : b.EvidenceShape := by
  simp only [validEvidenceBatch, Bool.and_eq_true, List.all_eq_true, List.mem_range, beq_iff_eq,
    decide_eq_true_eq] at h
  have hlen := h.1.1.1.1.1.1.1.1.1.1.1.1.2
  have hlast := h.1.1.1.1.1.1.1.1.1.1.2
  rw [hlen, Nat.add_sub_cancel] at hlast
  exact ⟨hlen, h.1.1.1.1.1.1.1.1.1.1.1.2, hlast, fun i hi => (h.1.1.2 i hi).1⟩

theorem mono (h : b.EvidenceShape) {i j : Nat} (hij : i ≤ j) (hj : j ≤ b.rows) :
    b.evidenceOffsets.getD i 0 ≤ b.evidenceOffsets.getD j 0 := by
  induction hij
  case refl => exact Nat.le_refl _
  case step j hij hi => exact Nat.le_trans (hi (by omega)) (h.step j (by omega))

theorem le (h : b.EvidenceShape) {i : Nat} (hi : i ≤ b.rows) :
    b.evidenceOffsets.getD i 0 ≤ b.evidenceRefs.length :=
  h.last ▸ h.mono hi (Nat.le_refl _)

end Batch.EvidenceShape

theorem length_flatten_le {α : Type} {f : RowResult → List α} {m : Nat}
    (h : ∀ r ∈ rs, (f r).length ≤ m) : (rs.map f).flatten.length ≤ rs.length * m := by
  induction rs
  case nil => simp
  case cons r rs hi =>
    have := hi fun r' hr' => h r' (List.mem_cons_of_mem _ hr')
    have := h r List.mem_cons_self
    rw [List.map_cons, List.flatten_cons, List.length_append, List.length_cons, Nat.succ_mul]
    omega

theorem length_rowEvidence {b : Batch} (shape : b.EvidenceShape) {r : Nat} (hr : r < b.rows) :
    (b.rowEvidence r).length = b.evidenceOffsets.getD (r + 1) 0 - b.evidenceOffsets.getD r 0 := by
  have := shape.le (i := r + 1) hr
  have := shape.step r hr
  rw [Batch.rowEvidence, List.length_map, Region.length_read (by omega)]

theorem length_evidence_take {b : Batch} (shape : b.EvidenceShape) (hlen : rs.length = b.rows)
    (h : ∀ r (hr : r < rs.length), rs[r].evidence.length = (b.rowEvidence r).length) {c : Nat}
    (hc : c ≤ b.rows) :
    ((rs.take c).map (·.evidence)).flatten.length = b.evidenceOffsets.getD c 0 := by
  induction c
  case zero => exact shape.first.symm
  case succ c hi =>
    have hlt : c < rs.length := by omega
    have hstep := shape.step c (by omega)
    rw [List.take_succ_eq_append_getElem hlt, List.map_append, List.flatten_append, List.length_append,
      hi (by omega)]
    simp only [List.map_cons, List.map_nil, List.flatten_cons, List.flatten_nil, List.append_nil, h c hlt,
      length_rowEvidence shape (show c < b.rows by omega)]
    omega

structure Sized (p : Program) (batch : Batch) (rs : List RowResult) : Prop where
  rows : rs.length = batch.rows
  requirements : (rs.map (·.requirements)).flatten.length ≤ batch.rows * p.requirementIDs.length
  drivers : (rs.map (·.drivers)).flatten.length ≤ batch.rows * 1
  evidence : (rs.map (·.evidence)).flatten.length ≤
    if p.usesEvidence then batch.evidenceRefs.length else 0
  reasons : (rs.map (·.reasons)).flatten.length ≤ batch.rows * reasonCount
  remediations : (rs.map (·.remediations)).flatten.length ≤ batch.rows * maxExecutionRemediations p

theorem sized_evalRows (checked : ExecutionChecked p batch sizes)
    (h : p.evalRows stateReasons batch = .ok rs) : Sized p batch rs := by
  have ⟨code, hc, hlen, hrow⟩ := evalRows_eq_ok h
  have within : ∀ r (hr : r < rs.length), rs[r].Within p ∧
      rs[r].evidence = if p.usesEvidence then (batch.rowEvidence r).map (·.id) else [] :=
    fun r hr => finalizeRow_within (hrow r hr)
  have hmem : ∀ r ∈ rs, r.Within p := by
    intro r hr
    have ⟨i, hi, he⟩ := List.getElem_of_mem hr
    exact he ▸ (within i hi).1
  have bound {α : Type} {f : RowResult → List α} {m : Nat} (hf : ∀ r ∈ rs, (f r).length ≤ m) :
      (rs.map f).flatten.length ≤ batch.rows * m := hlen ▸ length_flatten_le hf
  refine ⟨hlen, bound fun r hr => (hmem r hr).requirements, bound fun r hr => (hmem r hr).drivers, ?_,
    bound fun r hr => (hmem r hr).reasons, bound fun r hr => (hmem r hr).remediations⟩
  cases hu : p.usesEvidence
  case false =>
    refine bound (m := 0) fun r hr => ?_
    have ⟨i, hi, he⟩ := List.getElem_of_mem hr
    simp only [← he, (within i hi).2, hu, Bool.false_eq_true, if_false, List.length_nil, Nat.le_refl]
  case true =>
    have shape := Batch.EvidenceShape.of_valid (checked.evidence hu)
    have htake := length_evidence_take shape hlen (fun r hr => by
      simp only [(within r hr).2, hu, if_true, List.length_map]) (Nat.le_refl _)
    rw [← hlen, List.take_length, hlen, shape.last] at htake
    simp only [htake, if_true, Nat.le_refl]

end NornRune
