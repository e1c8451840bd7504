import NornRune.Compile.Theorems.Correct
import NornRune.Compile.Theorems.Policy
import NornRune.Compile.Theorems.Rounds
import NornRune.Target.Artifact
import NornRune.Execution.Theorems.Size

open Checked

-- The evaluator takes every compiled program in which no group has less than two operands.
namespace NornRune

theorem validOperandCount_iff {opcode : Opcode} {count : Nat} : validOperandCount opcode count ↔
    (opcode.isGroup → 2 ≤ count) ∧ (opcode = .not → count = 1) ∧ (¬opcode.Composite → count = 0) := by
  cases opcode <;> simp [validOperandCount, Opcode.isGroup, Opcode.Composite]

theorem Opcode.lt_of_isGroup {opcodes : List Opcode} {row : Nat}
    (h : (opcodes.getD row .invalid).isGroup) : row < opcodes.length := by
  by_contra hge
  rw [List.getD_eq_default _ _ (Nat.le_of_not_lt hge)] at h
  cases h

namespace Document

variable {doc : Document} {fields : Schema} {i : Nat}

theorem span_le {node : Nat} {span : SourceSpan} (h : doc.span node = some span) :
    span.start ≤ span.stop := by
  have ⟨_, _, h⟩ := Option.bind_eq_some_iff.mp h
  have ⟨_, _, h⟩ := Option.bind_eq_some_iff.mp h
  have ⟨_, _, h⟩ := Option.bind_eq_some_iff.mp h
  have ⟨hv, h⟩ := Option.ite_none_right_eq_some.mp h
  cases h
  simp only [SourceSpan.valid, Bool.and_eq_true, decide_eq_true_eq] at hv
  exact hv.1

open Diagnostic

theorem Validated.requirementRow (h : doc.Validated fields) (hi : i < doc.requirementRows) :
    doc.requirementIDs.getD i 0 ≠ 0 ∧ doc.requirementClauseCounts.getD i 0 ≠ 0 := by
  have hrow := rows_eq_nil_iff.mp h.requirements i hi
  have hshape := rows_eq_nil_iff.mp h.requirementShapes i hi
  simp only [checkRequirementRow, checkRequirement, List.append_eq_nil_iff, when_eq_nil_iff] at hrow hshape
  obtain ⟨hrange, _⟩ := ite_eq_of_ne hrow.1.2 (List.cons_ne_nil _ _)
  obtain ⟨hid, _⟩ := ite_eq_of_ne hshape.1.2 (List.cons_ne_nil _ _)
  rw [Bool.not_eq_true', Bool.not_eq_false] at hrange
  exact ⟨hid, by simpa [hrange] using hshape.2⟩

theorem Validated.clauseRow (h : doc.Validated fields) (hi : i < doc.clauseRows) :
    ∀ x ∈ doc.clauseOutcomes i, x.2 ≠ 0 ∧ x.2 ≤ doc.outcomeNames.length := by
  have hrow := rows_eq_nil_iff.mp h.clauses i hi
  have hshape := rows_eq_nil_iff.mp h.clauseResolutions i hi
  simp only [checkClauseRow, checkClauseResolution, List.append_eq_nil_iff, List.flatMap_eq_nil_iff,
    when_eq_nil_iff, beq_eq_false_iff_ne, decide_eq_false_iff_not, Nat.not_lt] at hrow hshape
  exact fun x hx => ⟨hshape.2 x hx, hrow.1.1.2 x hx⟩

end Document

theorem ResultTables.explained_of_validateResultTables {t : ResultTables} {r : Resolver}
    (h : t.validateResultTables = .ok r) :
    (∀ id ∈ t.clauseExplanationIDs, (t.explanations.lookup id).isSome) ∧
      ∀ id ∈ t.resolutions.explanationIDs, (t.explanations.lookup id).isSome := by
  have ⟨_, _, h⟩ := of_bind h
  have ⟨_, _, h⟩ := of_bind h
  have ⟨_, _, h⟩ := of_bind h
  have ⟨_, h⟩ := of_guard h
  have ⟨_, h⟩ := of_guard h
  have ⟨_, h⟩ := of_guard h
  have ⟨hc, h⟩ := of_guard h
  have ⟨hr, _⟩ := of_guard h
  simp only [Bool.not_eq_true', Bool.not_eq_false, List.all_eq_true] at hc hr
  exact ⟨hc, hr⟩

namespace Lineage

variable {doc : Document} {fields : Schema} {symbols : Interner} {p : Program} {i : Nat}
  (h : Lineage doc fields symbols p)
include h

theorem validInstruction (hi : i < p.opcodes.length)
    (hgroup : (p.opcodes.getD i .invalid).isGroup → 2 ≤ p.operandCounts.getD i 0) :
    validExecutionInstruction p i := by
  have assigned := assignSlots_eq_ok h.low.slots
  have a := h.low.columns
  have hrow : h.t.rows[i]? = some _ := List.getElem?_eq_getElem (h.length_opcodes ▸ hi)
  have hmem := List.mem_of_getElem? hrow
  have s := h.scheduled.row i hi
  have has := a.hasRow hrow
  have ⟨cand, _, _, _, hspan, made, he⟩ := h.tr.origin hrow
  have hlen : (p.operandsOf i).length = p.operandCounts.getD i 0 := Region.length_read has.operandRange
  have hleaf : ¬(p.opcodes.getD i .invalid).Composite → p.operandCounts.getD i 0 = 0 := fun hleaf => by
    rw [has.opcode, he] at hleaf
    rw [← hlen, has.operands, he, made.operands_of_leaf hleaf]
    rfl
  simp only [validExecutionInstruction, Bool.and_eq_true, bne_iff_ne, beq_iff_eq, decide_eq_true_eq,
    List.all_eq_true]
  refine ⟨⟨⟨⟨⟨⟨⟨⟨⟨⟨?_, ?_⟩, s.truthSlot.1⟩, s.truthSlot.2⟩, s.reasonSlot.1⟩, s.reasonSlot.2⟩, s.node⟩,
    ?_⟩, has.operandRange⟩, validOperandCount_iff.mpr
      ⟨hgroup, fun hn => hlen ▸ s.length_of_not hn, hleaf⟩⟩, fun o ho =>
    ⟨s.operand_ne o ho, Nat.lt_succ_of_le (s.operand_le o ho)⟩⟩
  case refine_1 => exact has.opcode ▸ assigned.opcode _ hmem
  case refine_2 =>
    rw [a.rootFlags, getD_map_rows hrow]
    exact assigned.flags _ hmem
  case refine_3 =>
    rw [a.instructionSourceStarts, a.instructionSourceEnds, getD_map_rows hrow, getD_map_rows hrow]
    exact Document.span_le hspan

theorem validRoot {node id b : Nat} (flag : RootFlags)
    (hflag : ∀ f : RootFlags, f.getLsbD b → f.has flag)
    (hat : RootAt doc h.t.toInstructionTable h.nodeRoots h.order node id b) :
    node ≠ 0 ∧ validExecutionRoot p id flag := by
  have ⟨_, _, row, hrow, h0, hbit⟩ := h.tr.root hat.mem hat.flag hat.instruction
  have hlt := (List.getElem?_eq_some_iff.mp hrow).1
  refine ⟨(Lowering.nodeInRange_iff.mp (h.tr.sound.inRange _ hat.mem)).1, ?_⟩
  simp only [validExecutionRoot, Bool.and_eq_true, bne_iff_ne, decide_eq_true_eq, h.length_opcodes,
    h.low.columns.rootFlags, getD_map_rows hrow]
  exact ⟨⟨h0, by omega⟩, hflag _ hbit⟩

theorem validSchedule (hgroup : ∀ row, (p.opcodes.getD row .invalid).isGroup →
    2 ≤ p.operandCounts.getD row 0) : validExecutionSchedule p := by
  have a := h.low.columns
  have s := h.scheduled
  have hlen := h.length_opcodes
  have hle := (assignSlots_eq_ok h.low.slots).rows
  have ⟨_, hroot⟩ := h.validRoot .applicability (by decide)
    (h.requirementAt (Nat.pos_of_ne_zero h.low.requirements))
  simp only [validExecutionRoot, Bool.and_eq_true, bne_iff_ne, decide_eq_true_eq] at hroot
  have hpos : 0 < p.opcodes.length := by omega
  have hslot := s.row 0 hpos
  have htruth := Nat.lt_of_lt_of_le (Nat.pos_of_ne_zero hslot.truthSlot.1) hslot.truthSlot.2
  have hreason := Nat.lt_of_lt_of_le (Nat.pos_of_ne_zero hslot.reasonSlot.1) hslot.reasonSlot.2
  simp only [validExecutionSchedule, Bool.and_eq_true, List.all_eq_true, List.mem_range]
  refine ⟨?_, fun i hi => h.validInstruction hi (hgroup i)⟩
  simp [optionalExecutionColumn, s.fields, s.values, s.truths, s.reasons, a.listStarts, a.listCounts,
    a.operandStarts, a.operandCounts, a.evidenceKinds, a.evidenceStates, a.evidenceSubjects,
    a.evidenceScopes, a.evidenceTimings, a.rootFlags, a.instructionNodes, a.instructionSourceStarts,
    a.instructionSourceEnds, ← hlen, rangeStarts, hlen ▸ hle, List.length_pos_iff.mp hpos, htruth.ne',
    hreason.ne']

theorem length_clauses : p.clauseAssertionRoots.length = doc.clauseAssertionRoots.length := by
  have ⟨_, lowered, hc⟩ := lowerClauses_eq_ok (lowerSemantics_eq_ok h.low.semantics).clauses
  rw [h.low.columns.clauseAssertionRoots, hc, lowered.assertions]

theorem validRequirement (hi : i < doc.requirementIDs.length) : validExecutionRequirement p i := by
  have a := h.low.columns
  have requirements := (lowerSemantics_eq_ok h.low.semantics).requirements
  have ⟨roots, lowered, hr⟩ := lowerRequirements_eq_ok requirements
  have ⟨hlen, _⟩ := of_guard requirements
  have ⟨hnode, hvalid⟩ := h.validRoot .applicability (by decide) (h.requirementAt hi)
  simp only [not_or, not_not] at hlen
  have hrow := (Document.validated h.low.valid).requirementRow (i := i) (by
    simpa [Document.requirementRows, safeMin, hlen] using hi)
  simp only [validExecutionRequirement, Bool.and_eq_true, bne_iff_ne, decide_eq_true_eq, List.all_eq_true,
    a.requirementIDs, a.requirementSourceNodeIDs, a.requirementClauseStarts, a.requirementClauseCounts,
    a.requirementClauseIDs, hr, h.length_clauses]
  exact ⟨⟨⟨⟨⟨hrow.1, hnode⟩, hvalid⟩, hrow.2⟩, lowered.range i hi⟩,
    fun id hm => lowered.clauses id (List.mem_of_mem_drop (List.mem_of_mem_take hm))⟩

theorem outcome_isSome {id : Nat} (h0 : id ≠ 0) (hle : id ≤ doc.outcomeNames.length) :
    (p.outcomes.lookup id).isSome := by
  have ⟨hlen, ho⟩ := of_guard (lowerSemantics_eq_ok h.low.semantics).outcomes
  have ⟨names, hn, ho⟩ := of_bind ho
  simp only [not_or, not_not] at hlen
  rw [h.low.columns.outcomes, ← Except.ok.inj ho]
  simp [OutcomeTable.lookup, OutcomeTable.index, length_of_mapM_eq_ok hn, hlen, h0]
  omega

theorem validClause (hi : i < doc.clauseAssertionRoots.length) : validExecutionClause p i := by
  have a := h.low.columns
  have parts := lowerSemantics_eq_ok h.low.semantics
  obtain ⟨w, lowered, hc⟩ := lowerClauses_eq_ok parts.clauses
  obtain ⟨hlen, _⟩ := of_guard parts.clauses
  have clause := lowered.clause i hi
  obtain ⟨hnode, hvalid⟩ := h.validRoot .assertion (by decide) (h.assertionAt hi)
  simp only [not_or, not_not] at hlen
  have houtcomes := (Document.validated h.low.valid).clauseRow (i := i) (by
    simpa [Document.clauseRows, safeMin, hlen] using hi)
  have hexplain := (ResultTables.explained_of_validateResultTables a.resolver).1
  rw [parts.explanationIDs, ← a.explanations, ← a.clauseExplanationIDs] at hexplain
  simp only [validExecutionClause, Bool.and_eq_true, bne_iff_ne, decide_eq_true_eq, List.all_eq_true,
    a.clauseEvidenceStarts, a.clauseEvidenceCounts, a.clauseAssertionSourceNodeIDs, a.clauseEvidenceIDs,
    a.clauseOnSatisfied, a.clauseOnFalse, a.clauseRemediationStarts, a.clauseRemediationCounts,
    a.clauseRemediationIDs, hc]
  refine ⟨⟨⟨⟨⟨⟨⟨hnode, hvalid⟩, lowered.evidence ▸ clause.range⟩, fun x hx => ?_⟩, fun id hm => ?_⟩, ?_⟩, ?_⟩,
    clause.remediations⟩
  case refine_1 =>
    obtain ⟨k, hk⟩ := List.mem_iff_getElem?.mp hx
    simp only [a.clauseEvidenceStarts, a.clauseEvidenceCounts, a.clauseEvidenceIDs,
      a.clauseEvidenceSourceNodeIDs, hc, Program.clauseEvidence, List.getElem?_zip_eq_some,
      Region.getElem?_read, Option.ite_none_right_eq_some] at hk
    have hmem := List.mem_range'_1.mpr ⟨Nat.le_add_right (doc.clauseEvidenceStarts.getD i 0) k,
      Nat.add_lt_add_left hk.1.1 _⟩
    obtain ⟨hnode, hvalid⟩ := h.validRoot .evidence (by decide) (h.evidenceAt hi hmem)
    rw [← (clause.edge _ hmem).source, List.getD_eq_getElem?_getD, hk.2.2, Option.getD_some] at hnode
    rw [a.clauseEvidenceIDs, hc, List.getD_eq_getElem?_getD, hk.1.2, Option.getD_some] at hvalid
    exact ⟨hnode, hvalid⟩
  case refine_2 => exact hexplain id (List.mem_of_mem_drop (List.mem_of_mem_take hm))
  case refine_3 =>
    obtain ⟨h0, hle⟩ := houtcomes _ List.mem_cons_self
    exact h.outcome_isSome h0 hle
  case refine_4 =>
    obtain ⟨h0, hle⟩ := houtcomes _ (List.mem_cons_of_mem _ List.mem_cons_self)
    exact h.outcome_isSome h0 hle

theorem length_resolutions :
    p.resolutions.outcomeIDs.length = p.clauseAssertionRoots.length * reasonCount ∧
      p.resolutions.explanationIDs.length = p.clauseAssertionRoots.length * reasonCount := by
  have ⟨_, hr⟩ := of_guard (lowerSemantics_eq_ok h.low.semantics).resolutions
  have ⟨rows, hrows, hr⟩ := of_bind hr
  have hlen : rows.flatten.length = p.clauseAssertionRoots.length * reasonCount := by
    rw [← List.flatMap_id, Ragged.length_flatMap_of_length (n := reasonCount) fun row hm => ?_,
      length_of_mapM_eq_ok hrows, List.length_range, h.length_clauses]
    obtain ⟨i, _, hi⟩ := exists_of_mem_mapM hrows hm
    rw [lowerClauseResolution] at hi
    split at hi
    case h_1 => cases hi
    case h_2 => exact length_of_mapM_eq_ok hi
  rw [h.low.columns.resolutions, ← Except.ok.inj hr]
  exact ⟨(List.length_map _).trans hlen, (List.length_map _).trans hlen⟩

theorem validTables (hmax : p.clauseAssertionRoots.length ≤ maxUint32) : validExecutionTables p := by
  have a := h.low.columns
  have parts := lowerSemantics_eq_ok h.low.semantics
  have ⟨roots, requirements, hr⟩ := lowerRequirements_eq_ok parts.requirements
  have ⟨hlen, _⟩ := of_guard parts.requirements
  have ⟨w, clauses, hc⟩ := lowerClauses_eq_ok parts.clauses
  have ⟨hclen, _⟩ := of_guard parts.clauses
  have ⟨_, index⟩ := lowerIndexes_eq_ok h.low.indexes
  have ⟨_, hv, _⟩ := of_bind index.extracted
  have ⟨_, _, hv⟩ := of_bind hv
  have ⟨hsize, _⟩ := of_guard hv
  have hcount := (Policy.build_eq_ok index.policy).1
  rw [← a.applicabilityIndex] at hcount
  simp only [hr, not_or, not_not, Nat.not_lt, requirements.length] at hlen hclen hsize hcount
  simp [validExecutionTables, h.length_clauses ▸ hmax, h.length_resolutions, h.length_clauses, hcount,
    a.requirementIDs, a.requirementRoots, a.requirementSourceNodeIDs, a.requirementClauseStarts,
    a.requirementClauseCounts, a.clauseEvidenceStarts, a.clauseEvidenceCounts, a.clauseOnSatisfied,
    a.clauseOnFalse, a.clauseAssertionSourceNodeIDs, a.clauseEvidenceIDs, a.clauseEvidenceSourceNodeIDs,
    a.clauseExplanationIDs, a.clauseRemediationStarts, a.clauseRemediationCounts, hr, hc, hlen, hclen,
    requirements.length, clauses.evidence, clauses.sourceNodes, hsize.1,
    List.length_eq_zero_iff.not.mp h.low.requirements, List.length_eq_zero_iff.not.mp h.low.clauses,
    resolutionBranchCount, clauseExplanationBranchCount]

theorem validSemantics (hmax : p.clauseAssertionRoots.length ≤ maxUint32)
    (hgroup : ∀ row, (p.opcodes.getD row .invalid).isGroup → 2 ≤ p.operandCounts.getD row 0) :
    validExecutionSemantics p := by
  have a := h.low.columns
  obtain ⟨_, index⟩ := lowerIndexes_eq_ok h.low.indexes
  obtain ⟨_, hids, _⟩ := Policy.build_eq_ok index.policy
  have hfields := index.fields
  have facts := (lowerFactIndexSpec_eq_ok index.facts).valid
  have hexplain := (ResultTables.explained_of_validateResultTables a.resolver).2
  obtain ⟨_, _, hr⟩ := lowerRequirements_eq_ok (lowerSemantics_eq_ok h.low.semantics).requirements
  rw [← a.applicabilityIndex] at hids
  rw [← a.fieldIndex] at hfields
  rw [← a.explanations, ← a.resolutions] at hexplain
  rw [← a.factIndexSpec, ← a.fieldIndex, ← a.programSymbolCount] at facts
  simp only [validExecutionSemantics, Bool.and_eq_true, List.all_eq_true, List.mem_range]
  refine ⟨⟨⟨⟨⟨⟨⟨⟨h.validSchedule hgroup, facts⟩, h.queries⟩, h.validTables hmax⟩, hexplain⟩, fun name hm => ?_⟩,
    fun field hm => ?_⟩, fun i hi => ?_⟩, fun i hi => h.validClause (h.length_clauses ▸ hi)⟩
  case refine_1 =>
    rw [a.evidenceStateNames] at hm
    obtain ⟨_, hn⟩ := of_guard h.parts.evidenceStateNames
    obtain ⟨_, hn⟩ := of_guard hn
    obtain ⟨_, _, hn⟩ := exists_of_mem_mapM hn hm
    obtain ⟨h0, b, _, hb⟩ := h.parts.literals.symbolForValue_eq_ok hn
    rw [h.named.symbol_eq h0, hb]
    rfl
  case refine_2 =>
    rw [hids, Sorted.mem_sortUnique, List.mem_map] at hm
    obtain ⟨k, hk, rfl⟩ := hm
    obtain ⟨h0, hkind⟩ := symbol_of_extract index.extracted k hk
    obtain ⟨column, hl, _, hlt⟩ := FieldIndex.lookup_of_build hfields h0 hkind
    simp [validExecutionSelector, hl, hlt]
  case refine_3 =>
    rw [a.requirementIDs, hr] at hi
    exact h.validRequirement hi

omit h in
theorem executorScratchLen_zero {n k : Nat} (hn : n ≤ maxUint32) (hk : k ≤ reasonCount) :
    executorScratchLen n k 0 = some 0 := by
  have hdiv : ¬(n ≠ 0 ∧ maxUint64 / n < k) := fun ⟨h0, hlt⟩ => by
    rw [Nat.div_lt_iff_lt_mul (Nat.pos_of_ne_zero h0)] at hlt
    exact absurd (hlt.trans_le (Nat.mul_le_mul hk hn)) (by decide)
  rw [executorScratchLen, if_neg hdiv]
  simp

-- Of all that the evaluator checks, only the operands of a group can be wrong in a compiled program.
theorem accepted_iff (hmax : p.clauseAssertionRoots.length ≤ maxUint32) :
    (∃ out, p.evaluate noRequests = .returned out) ↔
      ∀ row, (p.opcodes.getD row .invalid).isGroup → 2 ≤ p.operandCounts.getD row 0 := by
  constructor
  case mp =>
    rintro ⟨_, ho⟩ row hg
    obtain ⟨_, _, _, checked, _⟩ := evaluate_eq_returned ho
    have hs := checked.semantics
    simp only [validExecutionSemantics, validExecutionSchedule, validExecutionInstruction, Bool.and_eq_true,
      List.all_eq_true, List.mem_range] at hs
    exact (validOperandCount_iff.mp (hs.1.1.1.1.1.1.1.1.2 row (Opcode.lt_of_isGroup hg)).1.2).1 hg
  case mpr =>
    intro hgroup
    obtain ⟨_, index⟩ := lowerIndexes_eq_ok h.low.indexes
    obtain ⟨_, _, hvalid⟩ := Policy.build_eq_ok index.policy
    have assigned := assignSlots_eq_ok h.low.slots
    have a := h.low.columns
    obtain ⟨code, hcode, _⟩ := h.code
    -- Without requests the sizes are zero, whatever the number of slots.
    have checked : ExecutionChecked p noRequests ⟨0, 0⟩ := {
      semantics := h.validSemantics hmax hgroup
      requests := rfl
      columns := by
        simp [validExecutionBatchColumns, validExecutionColumnLength, noRequests, Batch.zero,
          Batch.sourceWords, Batch.sourceRows, Batch.validPhysicalRange, Bitplane.wordCount]
      evidence := fun _ => by simp [validEvidenceBatch, noRequests, Batch.zero]
      truth := executorScratchLen_zero (a.truthSlotCount ▸ assigned.count_le.1.trans assigned.rows)
        (by decide)
      reason := executorScratchLen_zero (a.reasonSlotCount ▸ assigned.count_le.2.trans assigned.rows)
        (Nat.le_refl _)
      results := by simp [validResultSizes, executorResultLen, noRequests, Batch.zero] }
    obtain ⟨_, hclass, _⟩ := checked.classify
    rw [← a.applicabilityIndex] at hvalid
    exact ⟨_, evaluate_eq checked hvalid hclass (by rw [Program.evalRows, hcode]; rfl)⟩

end Lineage
end NornRune
