import NornRune.Execution.Theorems.Prepare

open Checked

namespace NornRune

variable {p : Program} {stateReasons : List Nat} {code : List Instr} {a b : Row}

-- Two requests look the same to a program: its predicates hold of both alike, they select the same
-- requirements, and they have the same evidence if the program looks at evidence at all.
structure Row.Alike (p : Program) (code : List Instr) (a b : Row) : Prop where
  predicate : ∀ q, Instr.predicate q ∈ code → q.lane a = q.lane b
  selector : ∀ field ∈ p.applicabilityIndex.fieldIDs, p.selector a field = p.selector b field
  evidence : p.usesEvidence → a.evidence = b.evidence

theorem Row.Alike.candidates (h : Row.Alike p code a b) : p.candidates a = p.candidates b := by
  simp only [Program.candidates, List.map_congr_left h.selector]

theorem evidence_not_mem_code (hu : p.usesEvidence = false) (hc : p.code = .ok code)
    (q : EvidencePredicate) : Instr.evidence q ∉ code := by
  intro hq
  have ⟨row, hrow, he⟩ := exists_of_mem_mapM hc hq
  have ho : p.opcodes.getD row .invalid = .evidence := resolveInstr_eq_ok he
  rw [List.getD_eq_getElem _ _ (List.mem_range.mp hrow)] at ho
  simp only [Program.usesEvidence, List.any_eq_false, beq_iff_eq] at hu
  exact hu _ (List.getElem_mem _) ho

namespace Lanes

theorem run_congr (hu : ∀ q, Instr.evidence q ∈ code → a.evidence = b.evidence)
    (hq : ∀ q, Instr.predicate q ∈ code → q.lane a = q.lane b) (row : Nat) (s : Lanes) :
    run p stateReasons a row code s = run p stateReasons b row code s := by
  induction code generalizing row s
  case nil => rfl
  case cons instr code hi =>
    have hl (value : Nat → Lane) : instr.lane stateReasons a value = instr.lane stateReasons b value := by
      cases instr
      case predicate q => exact hq q List.mem_cons_self
      case evidence q =>
        exact congrArg (q.lane stateReasons) (hu q List.mem_cons_self)
      all_goals rfl
    rw [run, run, step, step, hl]
    exact hi (fun q h => hu q (List.mem_cons_of_mem _ h)) (fun q h => hq q (List.mem_cons_of_mem _ h)) _ _

end Lanes

def ReasonMask.AtMostMissing (mask : ReasonMask) : Prop :=
  ∀ reason, mask.has reason → reason = reasonMissing

namespace ReasonMask

theorem atMostMissing_zero : AtMostMissing 0#16 := by
  intro reason h
  simp at h

theorem AtMostMissing.or {x y : ReasonMask} (hx : x.AtMostMissing) (hy : y.AtMostMissing) :
    (x ||| y).AtMostMissing := by
  intro reason h
  rw [has_or, Bool.or_eq_true] at h
  exact h.elim (hx reason) (hy reason)

theorem atMostMissing_leafLane (opcode : Opcode) (present matched : Bool) :
    (leafLane opcode present matched).reasons.AtMostMissing := by
  have hbit : AtMostMissing (if present then 0#16 else reasonBit reasonMissing) := by
    cases present
    case true => exact atMostMissing_zero
    case false =>
      intro reason h
      have hm : reasonMissing ∈ allReasons := by decide
      simpa only [Bool.false_eq_true, if_false, has_reasonBit hm, decide_eq_true_eq] using h
  cases opcode
  case defined => exact atMostMissing_zero
  all_goals exact hbit

end ReasonMask

theorem Lane.reasons_all (lanes : List Lane) (init : Lane) {P : ReasonMask → Prop}
    (h : ∀ x y, P x → P y → P (x ||| y)) (hinit : P init.reasons) (hl : ∀ l ∈ lanes, P l.reasons) :
    P (lanes.foldl and init).reasons ∧ P (lanes.foldl or init).reasons := by
  induction lanes generalizing init
  case nil => exact ⟨hinit, hinit⟩
  case cons l lanes hi =>
    have hl' := fun l' h' => hl l' (List.mem_cons_of_mem _ h')
    have hor := h _ _ hinit (hl l List.mem_cons_self)
    exact ⟨(hi (and init l) hor hl').1, (hi (or init l) hor hl').2⟩

theorem Lanes.atMostMissing_run (hu : ∀ q, Instr.evidence q ∉ code) (row : Nat) (s : Lanes)
    (hs : ∀ slot, (s.reasons slot).AtMostMissing) (slot : Nat) :
    ((run p stateReasons a row code s).reasons slot).AtMostMissing := by
  induction code generalizing row s
  case nil => exact hs slot
  case cons instr code hi =>
    refine hi (fun q h => hu q (List.mem_cons_of_mem _ h)) _ _ fun slot => ?_
    have hval : ∀ o, (s.value p o).reasons.AtMostMissing := fun o => hs _
    have hgroup (os : List Nat) (init : Lane) (hinit : init.reasons = 0#16) :=
      @Lane.reasons_all (os.map (s.value p)) init _ (fun _ _ => .or)
        (hinit ▸ ReasonMask.atMostMissing_zero) (by
          intro l hl
          have ⟨o, _, ho⟩ := List.mem_map.mp hl
          exact ho ▸ hval o)
    have hlane : (instr.lane stateReasons a (s.value p)).reasons.AtMostMissing := by
      cases instr
      case constant => exact ReasonMask.atMostMissing_zero
      case predicate q => exact ReasonMask.atMostMissing_leafLane _ _ _
      case evidence q => exact absurd List.mem_cons_self (hu q)
      case all os => exact (hgroup os ⟨.top, 0#16⟩ rfl).1
      case any os => exact (hgroup os ⟨.bottom, 0#16⟩ rfl).2
      case not o => exact hval o
    simp only [step, set, setTruth, setReasons, Function.update_apply]
    split
    case isTrue => exact hlane
    case isFalse => exact hs slot

theorem reasonProvenance_congr {read : LaneReader} (records records' : List EvidenceRecord)
    (h : ∀ instruction mask, read.reasons instruction = .ok mask → mask.AtMostMissing)
    (candidate : OutcomeCandidate) (reason : Nat) :
    reasonProvenance p read stateReasons records candidate reason =
      reasonProvenance p read stateReasons records' candidate reason := by
  have hedge : ∀ {edges : List (Nat × Nat)} {text : String} {e : Nat × Nat},
      firstEdge (fun evidence => return (← read.reasons evidence).has reason) text edges = .ok e →
      reason = reasonMissing := by
    intro edges text e he
    induction edges
    case nil => cases he
    case cons edge edges hi =>
      have ⟨found, hf, he⟩ := of_bind he
      have ⟨mask, hm, hf⟩ := of_bind hf
      cases found
      case false => exact hi he
      case true => exact h _ mask hm reason (Except.ok.inj hf)
  simp only [reasonProvenance]
  split
  case isTrue => rfl
  case isFalse =>
    cases fetch p.clauseAssertionRoots (candidate.clause - 1)
    case error => rfl
    case ok assertion =>
    simp only [ok_bind]
    cases read.reasons assertion
    case error => rfl
    case ok mask =>
    simp only [ok_bind]
    split
    case isTrue => rfl
    case isFalse =>
      cases he : firstEdge (fun evidence => return (← read.reasons evidence).has reason)
        "eval: unresolved clause has no reason provenance" (p.clauseEvidence (candidate.clause - 1))
      case error => rfl
      case ok e => simp only [ok_bind, firstEvidenceReasonRecord, hedge he, if_true]

theorem atMostMissing_reader {s : Lanes} (hs : ∀ slot, (s.reasons slot).AtMostMissing)
    {instruction : Nat} {mask : ReasonMask} (h : (s.reader p).reasons instruction = .ok mask) :
    mask.AtMostMissing := by
  simp only [Lanes.reader] at h
  obtain ⟨_, h⟩ := ite_eq_of_ne h (by rintro ⟨⟩)
  cases h
  exact hs _

theorem evalRow_congr (hc : p.code = .ok code) (h : Row.Alike p code a b) :
    p.evalRow stateReasons code a = p.evalRow stateReasons code b := by
  cases hu : p.usesEvidence
  case true =>
    have he := h.evidence hu
    rw [Program.evalRow, Program.evalRow, h.candidates, he, Lanes.final, Lanes.final,
      Lanes.run_congr (fun _ _ => he) h.predicate]
  case false =>
    have hn := evidence_not_mem_code hu hc
    have hrun : Lanes.final p stateReasons a code = Lanes.final p stateReasons b code :=
      Lanes.run_congr (fun q hq => absurd hq (hn q)) h.predicate _ _
    have hm : ∀ slot, ((Lanes.final p stateReasons b code).reasons slot).AtMostMissing :=
      Lanes.atMostMissing_run hn _ _ fun _ => ReasonMask.atMostMissing_zero
    have hprov := @reasonProvenance_congr p stateReasons
      ((Lanes.final p stateReasons b code).reader p) a.evidence b.evidence
      (fun _ _ => atMostMissing_reader hm)
    rw [Program.evalRow, Program.evalRow, h.candidates, hrun]
    simp only [finalizeRow, hu, Bool.false_eq_true, if_false, funext (hprov _)]

section Size

structure RowResult.Within (p : Program) (r : RowResult) : Prop where
  requirements : r.requirements.length ≤ p.requirementIDs.length
  drivers : r.drivers.length ≤ 1
  reasons : r.reasons.length ≤ reasonCount
  remediations : r.remediations.length ≤ maxExecutionRemediations p

theorem le_foldl_max {xs : List Nat} {x : Nat} (init : Nat) (h : x = init ∨ x ∈ xs) :
    x ≤ xs.foldl max init := by
  induction xs generalizing init x
  case nil => exact (h.resolve_right List.not_mem_nil).le
  case cons y ys hi =>
    rw [List.foldl_cons]
    rcases h with rfl | h
    case inl => exact Nat.le_trans (Nat.le_max_left x y) (hi _ (.inl rfl))
    case inr =>
      rcases List.mem_cons.mp h with rfl | h
      · exact Nat.le_trans (Nat.le_max_right init x) (hi _ (.inl rfl))
      · exact hi _ (.inr h)

theorem getD_le_maxExecutionRemediations {counts : List Nat}
    (h : counts ⊆ p.clauseRemediationCounts ++ p.resolutions.remediationCounts) (row : Nat) :
    counts.getD row 0 ≤ maxExecutionRemediations p := by
  by_cases hi : row < counts.length
  case pos =>
    rw [List.getD_eq_getElem _ _ hi]
    exact le_foldl_max 0 (.inr (h (List.getElem_mem hi)))
  case neg =>
    rw [List.getD_eq_default _ _ (Nat.le_of_not_lt hi)]
    exact Nat.zero_le _

theorem length_read_le {α : Type} (xs : List α) (start len : Nat) :
    (Region.read xs start len).length ≤ len :=
  List.length_take_le ..

theorem rules_of_new {outcomes : OutcomeTable} {remediations : RemediationTable}
    {rules : ResolutionTable} {r : Resolver} (h : Resolver.new outcomes remediations rules = .ok r) :
    r = ⟨outcomes, remediations, rules⟩ := by
  simp only [Resolver.new] at h
  repeat' split at h
  all_goals cases h
  rfl

theorem resolver_remediationCounts_subset (p : Program) :
    p.resolver.rules.remediationCounts ⊆ p.clauseRemediationCounts ++ p.resolutions.remediationCounts := by
  rcases p.resolver_eq with h | h
  case inl =>
    rw [h]
    exact List.nil_subset _
  case inr =>
    rw [rules_of_new h]
    exact List.subset_append_right ..

variable {clause requirement requirementRow : Nat} {c best : OutcomeCandidate}
  {candidates : List Bitplane.Word}

theorem resolve_remediations_le {mask : ReasonMask} {r : Resolver.Resolution}
    (h : p.resolver.resolve clause mask = .ok (some r)) :
    (executionResolutionRemediations r).length ≤ maxExecutionRemediations p := by
  have ⟨_, h⟩ := require_bind_eq_ok_iff.mp h
  have ⟨_, h⟩ := require_bind_eq_ok_iff.mp h
  have ⟨_, h⟩ := ite_eq_of_ne h nofun
  cases h
  simp only [executionResolutionRemediations]
  split
  case isTrue => exact Nat.zero_le _
  case isFalse =>
    exact Nat.le_trans (length_read_le ..)
      (getD_le_maxExecutionRemediations (resolver_remediationCounts_subset p) _)

theorem executionClauseRemediations_le {clauseRow outcome : Nat} {ids : List Nat}
    (h : executionClauseRemediations p clauseRow outcome = .ok ids) :
    ids.length ≤ maxExecutionRemediations p := by
  simp only [executionClauseRemediations] at h
  split at h
  case h_1 => cases h
  case h_2 =>
    split at h
    case isTrue =>
      cases h
      exact Nat.zero_le _
    case isFalse =>
      cases h
      exact Nat.le_trans (length_read_le ..)
        (getD_le_maxExecutionRemediations (List.subset_append_left ..) _)

variable {read : LaneReader}

theorem resolveApplicability_le {root sourceNode : Nat}
    (h : resolveApplicability p read requirement clause root sourceNode = .ok c) :
    c.remediations.length ≤ maxExecutionRemediations p := by
  have ⟨mask, _, h⟩ := of_bind h
  have ⟨r, hr, h⟩ := of_bind h
  cases r
  case none => cases h
  case some r =>
    cases h
    exact resolve_remediations_le hr

theorem resolveActiveClause_le (h : resolveActiveClause p read requirement clause = .ok c) :
    c.remediations.length ≤ maxExecutionRemediations p := by
  have ⟨lane, _, h⟩ := of_bind h
  split at h
  case h_1 | h_2 =>
    have ⟨outcome, _, h⟩ := of_bind h
    have ⟨_, _, h⟩ := of_bind h
    have ⟨_, _, h⟩ := of_bind h
    have ⟨ids, hids, h⟩ := of_bind h
    cases h
    exact executionClauseRemediations_le hids
  case h_3 =>
    have ⟨r, hr, h⟩ := of_bind h
    cases r
    case none => cases h
    case some r =>
      have ⟨_, _, h⟩ := of_bind h
      cases h
      exact resolve_remediations_le hr

theorem preferExecutionCandidate_cases {c' : OutcomeCandidate}
    (h : preferExecutionCandidate p best c = .ok c') : c' = best ∨ c' = c := by
  simp only [preferExecutionCandidate] at h
  split at h
  case h_1 => cases h
  case h_2 =>
    cases h
    split
    · exact .inr rfl
    · exact .inl rfl

theorem resolveClause_le {truth : Truth}
    (h : resolveClause p read requirementRow requirement truth best clause = .ok c)
    (hb : best.remediations.length ≤ maxExecutionRemediations p) :
    c.remediations.length ≤ maxExecutionRemediations p := by
  simp only [resolveClause] at h
  split at h
  case isTrue =>
    have ⟨c', hc, h⟩ := of_bind h
    rcases preferExecutionCandidate_cases h with rfl | rfl
    · exact hb
    · exact resolveActiveClause_le hc
  case isFalse =>
    have ⟨_, _, h⟩ := of_bind h
    have ⟨_, _, h⟩ := of_bind h
    have ⟨c', hc, h⟩ := of_bind h
    rcases preferExecutionCandidate_cases h with rfl | rfl
    · exact hb
    · exact resolveApplicability_le hc

theorem visitRequirement_le {s s' : RowScan}
    (h : visitRequirement p read candidates s requirementRow = .ok s') :
    s'.requirements.length ≤ s.requirements.length + 1 ∧
      (s.best.remediations.length ≤ maxExecutionRemediations p →
        s'.best.remediations.length ≤ maxExecutionRemediations p) := by
  simp only [visitRequirement] at h
  split at h
  case isTrue =>
    cases h
    exact ⟨Nat.le_succ _, id⟩
  case isFalse =>
    have ⟨_, _, h⟩ := of_bind h
    have ⟨truth, _, h⟩ := of_bind h
    split at h
    case isTrue =>
      cases h
      exact ⟨Nat.le_succ _, id⟩
    case isFalse =>
      have ⟨_, _, h⟩ := of_bind h
      have ⟨best, hbest, h⟩ := of_bind h
      cases h
      refine ⟨by simp, fun hb => ?_⟩
      exact foldlM_preserves (P := fun c => c.remediations.length ≤ maxExecutionRemediations p) hbest hb
        fun _ _ _ _ hc hs => resolveClause_le hc hs

theorem finalizeRow_within {records : List EvidenceRecord} {r : RowResult}
    (h : finalizeRow p read candidates stateReasons records = .ok r) :
    r.Within p ∧ r.evidence = if p.usesEvidence then records.map (·.id) else [] := by
  have ⟨s, hs, h⟩ := of_bind h
  have hreq : s.requirements.length ≤ p.requirementIDs.length := by
    have := foldlM_le (m := fun s => s.requirements.length) hs fun _ _ _ h => (visitRequirement_le h).1
    simpa using this
  have hrem : s.best.remediations.length ≤ maxExecutionRemediations p :=
    foldlM_preserves (P := fun s => s.best.remediations.length ≤ maxExecutionRemediations p) hs
      (Nat.zero_le _) fun _ _ _ _ h hb => (visitRequirement_le h).2 hb
  simp only at h
  split at h
  case isTrue =>
    cases h
    exact ⟨⟨hreq, Nat.zero_le _, Nat.zero_le _, Nat.zero_le _⟩, rfl⟩
  case isFalse =>
    have ⟨reasons, hr, h⟩ := of_bind h
    cases h
    have hlen : reasons.length ≤ reasonCount := by
      rw [← (forall₂_of_mapM_eq_ok hr).length_eq]
      exact List.length_filter_le _ allReasons
    exact ⟨⟨hreq, Nat.le_refl _, hlen, hrem⟩, rfl⟩

end Size
end NornRune
