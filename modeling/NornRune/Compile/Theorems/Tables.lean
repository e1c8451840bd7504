import NornRune.Compile.Theorems.Lower

open Checked

namespace NornRune

variable {t : InstructionTable} {doc : Document}

structure RequirementsLowered (t : InstructionTable) (doc : Document) (roots : List Nat) : Prop where
  length : roots.length = doc.requirementIDs.length
  clauses : ∀ id ∈ doc.requirementClauseIDs, id ≠ 0 ∧ id ≤ doc.clauseAssertionRoots.length
  range : ∀ i < doc.requirementIDs.length, doc.requirementClauseStarts.getD i 0 +
    doc.requirementClauseCounts.getD i 0 ≤ doc.requirementClauseIDs.length
  root : ∀ i < doc.requirementIDs.length, rootInstruction t doc.nodeKinds.length
    (doc.requirementApplicabilityRoots.getD i 0) = .ok (roots.getD i 0)

theorem lowerRequirements_eq_ok {r : RequirementColumns} (h : lowerRequirements t doc = .ok r) :
    ∃ roots, RequirementsLowered t doc roots ∧ r = ⟨doc.requirementIDs, roots,
      doc.requirementApplicabilityRoots, doc.requirementClauseStarts, doc.requirementClauseCounts,
      doc.requirementClauseIDs⟩ := by
  have ⟨_, h⟩ := of_guard h
  have ⟨hids, h⟩ := of_guard h
  have ⟨roots, hroots, h⟩ := of_bind h
  cases h
  have hroot : ∀ i < doc.requirementIDs.length, _ := fun i hi =>
    getElem?_of_mapM_eq_ok hroots (List.getElem?_range hi)
  refine ⟨roots, ⟨by simpa using length_of_mapM_eq_ok hroots, by simpa using hids, fun i hi => ?_,
    fun i hi => ?_⟩, rfl⟩
  case refine_1 =>
    have ⟨_, _, h⟩ := hroot i hi
    exact Nat.le_of_not_lt (of_guard h).1
  case refine_2 =>
    have ⟨root, hr, h⟩ := hroot i hi
    rw [(of_guard h).2, List.getD_eq_getElem?_getD, hr, Option.getD_some]

structure EdgeLowered (t : InstructionTable) (doc : Document) (evidence sourceNodes : List Nat)
    (edge : Nat) : Prop where
  root : rootInstruction t doc.nodeKinds.length (doc.clauseEvidenceNodeIDs.getD edge 0) =
    .ok (evidence.getD edge 0)
  source : sourceNodes.getD edge 0 = doc.clauseEvidenceNodeIDs.getD edge 0

theorem lowerClauseEvidence_loop {s s' : ClauseWalk} {edges : List Nat}
    (h : edges.foldlM (lowerClauseEvidence t doc) s = .ok s')
    (hlt : ∀ edge ∈ edges, edge < s.evidence.length) (hlen : s.sourceNodes.length = s.evidence.length) :
    s'.assertions = s.assertions ∧ s'.evidence.length = s.evidence.length ∧
      s'.sourceNodes.length = s.sourceNodes.length ∧
      (∀ edge ∈ edges, EdgeLowered t doc s'.evidence s'.sourceNodes edge) ∧
      ∀ edge, EdgeLowered t doc s.evidence s.sourceNodes edge →
        EdgeLowered t doc s'.evidence s'.sourceNodes edge := by
  induction edges generalizing s
  case nil =>
    cases h
    exact ⟨rfl, rfl, rfl, nofun, fun _ h => h⟩
  case cons edge edges ih =>
    have ⟨s₁, h₁, h⟩ := of_bind h
    have ⟨root, hr, h₁⟩ := of_bind h₁
    cases h₁
    have ⟨hedge, hrest⟩ := List.forall_mem_cons.mp hlt
    have ⟨ha, he, hs, hnew, hkept⟩ := ih h (by simpa using hrest) (by simpa using hlen)
    have hset : ∀ edge', edge' = edge ∨ EdgeLowered t doc s.evidence s.sourceNodes edge' →
        EdgeLowered t doc (s.evidence.set edge root)
          (s.sourceNodes.set edge (doc.clauseEvidenceNodeIDs.getD edge 0)) edge' := by
      intro edge' hor
      by_cases heq : edge' = edge
      case pos =>
        subst heq
        exact ⟨by rw [Ragged.getD_set hedge, if_pos rfl, hr], by rw [Ragged.getD_set (hlen ▸ hedge), if_pos rfl]⟩
      case neg =>
        have hl := hor.resolve_left heq
        exact ⟨by rw [Ragged.getD_set hedge, if_neg heq, hl.root],
          by rw [Ragged.getD_set (hlen ▸ hedge), if_neg heq, hl.source]⟩
    refine ⟨ha, by simpa using he, by simpa using hs, List.forall_mem_cons.mpr ⟨?_, hnew⟩,
      fun edge' hl => hkept edge' (hset edge' (.inr hl))⟩
    exact hkept edge (hset edge (.inl rfl))

structure ClauseLowered (t : InstructionTable) (doc : Document) (w : ClauseWalk) (i : Nat) : Prop where
  assertion : rootInstruction t doc.nodeKinds.length (doc.clauseAssertionRoots.getD i 0) =
    .ok (w.assertions.getD i 0)
  range : doc.clauseEvidenceStarts.getD i 0 + doc.clauseEvidenceCounts.getD i 0 ≤
    doc.clauseEvidenceNodeIDs.length
  edge : ∀ edge ∈ List.range' (doc.clauseEvidenceStarts.getD i 0)
    (doc.clauseEvidenceCounts.getD i 0), EdgeLowered t doc w.evidence w.sourceNodes edge
  remediations : doc.clauseRemediationStarts.getD i 0 + doc.clauseRemediationCounts.getD i 0 ≤
    doc.clauseRemediationIDs.length

structure ClausesLowered (t : InstructionTable) (doc : Document) (n : Nat) (w : ClauseWalk) : Prop where
  assertions : w.assertions.length = n
  evidence : w.evidence.length = doc.clauseEvidenceNodeIDs.length
  sourceNodes : w.sourceNodes.length = doc.clauseEvidenceNodeIDs.length
  clause : ∀ i < n, ClauseLowered t doc w i

theorem ClausesLowered.step {n : Nat} {w w' : ClauseWalk} (h : ClausesLowered t doc n w)
    (hs : lowerClause t doc w n = .ok w') : ClausesLowered t doc (n + 1) w' := by
  have ⟨assertion, ha, hs⟩ := of_bind hs
  simp only at hs
  have ⟨hrange, hs⟩ := of_guard hs
  have ⟨w₁, h₁, hs⟩ := of_bind hs
  have ⟨hrem, hs⟩ := of_guard hs
  cases hs
  rw [Nat.not_lt] at hrange hrem
  have ⟨hasserts, hevidence, hsource, hnew, hkept⟩ := lowerClauseEvidence_loop h₁
    (fun edge he => by rw [List.mem_range'_1] at he; rw [h.evidence]; omega)
    (h.sourceNodes.trans h.evidence.symm)
  refine ⟨by simp [hasserts, h.assertions], hevidence.trans h.evidence, hsource.trans h.sourceNodes,
    fun i hi => ?_⟩
  rcases Nat.lt_succ_iff_lt_or_eq.mp hi with hi | rfl
  case inl =>
    have hc := h.clause i hi
    refine ⟨?_, hc.range, fun edge he => hkept edge (hc.edge edge he), hc.remediations⟩
    simp only [hasserts]
    rw [List.getD_append _ _ _ _ (h.assertions ▸ hi), hc.assertion]
  case inr =>
    refine ⟨?_, hrange, hnew, hrem⟩
    simp only [hasserts]
    rw [Ragged.getD_concat_length h.assertions, ha]

theorem lowerClauses_eq_ok {c : ClauseColumns} (h : lowerClauses t doc = .ok c) :
    ∃ w, ClausesLowered t doc doc.clauseAssertionRoots.length w ∧ c = ⟨w.assertions,
      doc.clauseAssertionRoots, doc.clauseEvidenceStarts, doc.clauseEvidenceCounts, w.evidence,
      w.sourceNodes, doc.clauseOnSatisfied, doc.clauseOnFalse, doc.clauseExplanationIDs,
      doc.clauseRemediationStarts, doc.clauseRemediationCounts, doc.clauseRemediationIDs⟩ := by
  have ⟨_, h⟩ := of_guard h
  have ⟨w, hw, h⟩ := of_bind h
  cases h
  refine ⟨w, ?_, rfl⟩
  exact foldlM_range (P := ClausesLowered t doc) hw ⟨rfl, by simp, by simp, nofun⟩
    fun i w w' _ hs hw => hw.step hs

end NornRune
