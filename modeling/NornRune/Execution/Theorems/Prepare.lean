import NornRune.Execution.Theorems.Finalize

open Bitplane Checked

namespace NornRune

variable {p : Program} {batch : Batch} {sizes : ExecutionSizes}

structure ExecutionChecked (p : Program) (batch : Batch) (sizes : ExecutionSizes) : Prop where
  semantics : validExecutionSemantics p
  requests : batch.requestIDs.length = batch.rows
  columns : validExecutionBatchColumns p batch
  evidence : p.usesEvidence → validEvidenceBatch batch p
  truth : executorScratchLen p.truthSlotCount 2 (wordCount batch.rows) = some sizes.truthLen
  reason : executorScratchLen p.reasonSlotCount reasonCount (wordCount batch.rows) =
    some sizes.reasonLen
  results : validResultSizes p batch

theorem executorScratchLen_eq_some {a b c n : Nat} (h : executorScratchLen a b c = some n) :
    n = a * (b * c) := by
  simp only [executorScratchLen] at h
  have ⟨_, h⟩ := ite_eq_of_ne h nofun
  have ⟨_, h⟩ := ite_eq_of_ne h nofun
  have ⟨_, h⟩ := ite_eq_of_ne h nofun
  cases h
  exact Nat.mul_assoc ..

theorem checkExecution_eq_ok (h : checkExecution true p batch = .ok sizes) :
    ExecutionChecked p batch sizes := by
  simp only [checkExecution, Bool.true_and] at h
  have ⟨hs, h⟩ := ite_eq_of_ne h nofun
  have ⟨hc, h⟩ := ite_eq_of_ne h nofun
  have ⟨he, h⟩ := ite_eq_of_ne h nofun
  split at h
  case h_2 => cases h
  case h_1 truthLen reasonLen ht hr =>
  split at h
  case isFalse => cases h
  case isTrue hv =>
    cases h
    simp only [not_or, Bool.not_eq_true', Bool.not_eq_false, Bool.and_eq_true, not_and] at hs hc he
    exact ⟨hs, Decidable.not_not.mp hc.1, hc.2, he, ht, hr, hv⟩

theorem checkExecution_error {rebind : Bool} {f : Fault}
    (h : checkExecution rebind p batch = .error f) : f = .invalidProgram ∨ f = .batchTooLarge := by
  revert h
  fun_cases checkExecution rebind p batch
  all_goals rintro ⟨⟩
  case case5 | case6 => exact .inr rfl
  all_goals exact .inl rfl

theorem checkExecution_rebind {rebind : Bool} (h : rebind = false → validExecutionSemantics p) :
    checkExecution rebind p batch = checkExecution true p batch := by
  cases rebind
  case true => rfl
  case false => simp only [checkExecution, h rfl, Bool.not_true, Bool.and_false]

namespace ExecutionChecked

variable (h : ExecutionChecked p batch sizes)

include h

theorem check : checkExecution true p batch = .ok sizes := by
  have he : ¬ (p.usesEvidence && !validEvidenceBatch batch p) = true := by
    intro hu
    simp only [Bool.and_eq_true, Bool.not_eq_true'] at hu
    exact absurd (h.evidence hu.1) (by simp [hu.2])
  simp only [checkExecution, h.semantics, h.requests, h.columns, he, h.truth, h.reason, h.results,
    Bool.not_true, Bool.and_false, Bool.false_eq_true, ne_eq, not_true_eq_false, or_self, if_false,
    if_true]

theorem truthLen : sizes.truthLen = p.truthSlotCount * (2 * wordCount batch.rows) :=
  executorScratchLen_eq_some h.truth

theorem reasonLen : sizes.reasonLen = p.reasonSlotCount * (reasonCount * wordCount batch.rows) :=
  executorScratchLen_eq_some h.reason

theorem sched : Scheduled p := by
  have hs := h.semantics
  simp only [validExecutionSemantics, Bool.and_eq_true] at hs
  exact scheduled_of_valid hs.1.1.1.1.1.1.1.1

theorem factSpec : p.factIndexSpec.valid p.fieldIndex p.programSymbolCount := by
  have hs := h.semantics
  simp only [validExecutionSemantics, Bool.and_eq_true] at hs
  exact hs.1.1.1.1.1.1.1.2

theorem queries : validFactIndexQueries p := by
  have hs := h.semantics
  simp only [validExecutionSemantics, Bool.and_eq_true] at hs
  exact hs.1.1.1.1.1.1.2

theorem selectors : ∀ field ∈ p.applicabilityIndex.fieldIDs, validExecutionSelector p field := by
  have hs := h.semantics
  simp only [validExecutionSemantics, Bool.and_eq_true, List.all_eq_true] at hs
  exact hs.1.1.2

theorem classify : ∃ reasons, EvidenceStateIndex.classify p = some reasons ∧
    reasons.length = p.evidenceStateNames.length := by
  have hs := h.semantics
  simp only [validExecutionSemantics, Bool.and_eq_true, List.all_eq_true] at hs
  have hs := hs.1.1.1.2
  unfold EvidenceStateIndex.classify
  generalize p.evidenceStateNames = names at hs
  induction names
  case nil => exact ⟨[], rfl, rfl⟩
  case cons name names hi =>
    have ⟨reasons, hr, hl⟩ := hi fun n hn => hs n (List.mem_cons_of_mem _ hn)
    have ⟨bytes, hb⟩ := Option.isSome_iff_exists.mp (hs name List.mem_cons_self)
    exact ⟨EvidenceStateIndex.classifyName bytes :: reasons, by simp [List.mapM_cons, hb, hr],
      by simp [hl]⟩

theorem rows_le : batch.rows ≤ maxUint32 := by
  have hr := h.results
  simp only [validResultSizes, Bool.and_eq_true] at hr
  have ⟨n, hn⟩ := Option.isSome_iff_exists.mp hr.1.1.1.2
  simp only [executorResultLen, Nat.mul_one] at hn
  have ⟨_, hn⟩ := ite_eq_of_ne hn nofun
  have ⟨hb, hn⟩ := ite_eq_of_ne hn nofun
  omega

end ExecutionChecked

theorem exists_build_of_columns {heap : Heap} {addr : Nat}
    (hspec : (heap addr).factIndexSpec.valid (heap addr).fieldIndex (heap addr).programSymbolCount)
    (hcolumns : validExecutionBatchColumns (heap addr) batch) (hrows : batch.rows ≤ maxUint32)
    (b : FactBuilder) :
    ∃ b' index, b.build heap addr (Executor.symbolColumns (heap addr) batch) = .ok (b', index) := by
  have fits := Batch.fits_of_valid hcolumns
  simp only [FactSpec.valid, Bool.and_eq_true] at hspec
  have hrange := fits.range
  have hstride : (Executor.symbolColumns (heap addr) batch).stride = batch.sourceRows := by
    change (if batch.sourceRows = 0 then batch.rows else batch.sourceRows) = _
    split <;> omega
  refine FactBuilder.exists_build b hspec.1.2 ⟨fun hz => ?_, hstride ▸ hrange, ?_,
    batch.symbolValues_le, hrows, (heap addr).programSymbolCount_le⟩
  case refine_1 =>
    have hz : batch.sourceRows = 0 := hz
    show batch.rowBase = 0
    omega
  case refine_2 =>
    rw [hstride]
    exact fits.symbols.trans (Nat.mul_comm ..)

end NornRune
