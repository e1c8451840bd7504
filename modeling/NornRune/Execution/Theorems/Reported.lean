import NornRune.Execution.Theorems.Reader
import NornRune.Execution.Theorems.Row

open Checked

-- Where the numbers of a result come from.
namespace NornRune

variable {p : Program} {read : LaneReader} {stateReasons : List Nat} {records : List EvidenceRecord}
  {W : Nat → Prop}

def Program.reported (p : Program) : List Nat :=
  p.requirementIDs ++ p.requirementSourceNodeIDs ++ p.requirementClauseIDs ++
  p.clauseAssertionSourceNodeIDs ++ p.clauseEvidenceSourceNodeIDs ++ p.clauseOnSatisfied ++
  p.clauseOnFalse ++ p.clauseExplanationIDs ++ p.clauseRemediationIDs ++ p.resolutions.outcomeIDs ++
  p.resolutions.explanationIDs ++ p.resolutions.remediationIDs

-- A property of all numbers that can be reported: those of the program, those of the records, and the
-- numbers of the reasons.
structure Reportable (W : Nat → Prop) (p : Program) (records : List EvidenceRecord) : Prop where
  reasons : ∀ n ≤ reasonCount, W n
  program : ∀ n ∈ p.reported, W n
  evidence : ∀ record ∈ records, W record.id ∧ W record.state

structure RowResult.All (W : Nat → Prop) (r : RowResult) : Prop where
  outcome : W r.outcome
  requirements : ∀ n ∈ r.requirements, W n
  drivers : ∀ d ∈ r.drivers,
    W d.requirement ∧ W d.clause ∧ W d.node ∧ W d.reason ∧ W d.explanation
  evidence : ∀ n ∈ r.evidence, W n
  reasons : ∀ e ∈ r.reasons, W e.reason ∧ W e.node ∧ W e.evidence ∧ W e.evidenceState
  remediations : ∀ n ∈ r.remediations, W n

structure OutcomeCandidate.All (W : Nat → Prop) (c : OutcomeCandidate) : Prop where
  remediations : ∀ n ∈ c.remediations, W n
  outcome : W c.outcome
  explanation : W c.explanation
  requirement : W c.requirement
  clause : W c.clause
  node : W c.node
  driverReason : W c.driverReason

theorem mem_of_mem_read {α : Type} {xs : List α} {start len : Nat} {x : α}
    (h : x ∈ Region.read xs start len) : x ∈ xs :=
  List.mem_of_mem_drop (List.mem_of_mem_take h)

theorem forall_getD {α : Type} {P : α → Prop} {xs : List α} {d : α} (hd : P d) (hxs : ∀ x ∈ xs, P x)
    (i : Nat) : P (xs.getD i d) := by
  rw [List.getD_eq_getElem?_getD]
  cases hx : xs[i]?
  case none => exact hd
  case some x => exact hxs x (List.mem_of_getElem? hx)

namespace Reportable

variable (h : Reportable W p records)

include h

theorem zero : W 0 :=
  h.reasons 0 (Nat.zero_le _)

theorem rules : (∀ n ∈ p.resolver.rules.outcomeIDs, W n) ∧
    (∀ n ∈ p.resolver.rules.explanationIDs, W n) ∧ ∀ n ∈ p.resolver.rules.remediationIDs, W n := by
  have hp := h.program
  simp only [Program.reported, List.forall_mem_append] at hp
  rcases p.resolver_eq with hr | hr
  case inl =>
    rw [hr]
    exact ⟨fun _ hn => (List.not_mem_nil hn).elim, fun _ hn => (List.not_mem_nil hn).elim,
      fun _ hn => (List.not_mem_nil hn).elim⟩
  case inr =>
    rw [rules_of_new hr]
    exact ⟨hp.1.1.2, hp.1.2, hp.2⟩

theorem scan (base : Nat) (mask : ReasonMask) :
    W (p.resolver.scan base mask).current ∧ W (p.resolver.scan base mask).reason := by
  let P (s : Resolver.Scan) : Prop := W s.current ∧ W s.reason
  have hstep : ∀ s, P s → ∀ off < reasonCount, P (p.resolver.scanStep base mask s off) := by
    intro s hs off hoff
    simp only [Resolver.scanStep]
    split
    case isFalse => exact hs
    case isTrue =>
      split
      case isFalse => exact hs
      case isTrue hne =>
        refine ⟨?_, h.reasons (off + 1) hoff⟩
        simp only [OutcomeTable.preferKnown] at hne ⊢
        repeat' split
        all_goals first | exact hs.1 | exact forall_getD h.zero h.rules.1 _
  have hfold : ∀ offs : List Nat, (∀ off ∈ offs, off < reasonCount) → ∀ s, P s →
      P (offs.foldl (p.resolver.scanStep base mask) s) := by
    intro offs
    induction offs
    case nil => exact fun _ s hs => hs
    case cons off offs ih =>
      intro hoffs s hs
      exact ih (fun o ho => hoffs o (List.mem_cons_of_mem _ ho)) _
        (hstep s hs off (hoffs off List.mem_cons_self))
  exact hfold _ (fun _ => List.mem_range.mp) _ ⟨h.zero, h.zero⟩

theorem resolve {clause : Nat} {mask : ReasonMask} {r : Resolver.Resolution}
    (hr : p.resolver.resolve clause mask = .ok (some r)) :
    (∀ n ∈ executionResolutionRemediations r, W n) ∧ W r.outcome ∧ W r.explanation ∧ W r.reason := by
  have ⟨_, hr⟩ := require_bind_eq_ok_iff.mp hr
  have ⟨_, hr⟩ := require_bind_eq_ok_iff.mp hr
  have ⟨_, hr⟩ := ite_eq_of_ne hr nofun
  have hscan := h.scan ((clause - 1) * reasonCount) mask
  cases hr
  refine ⟨fun n hn => ?_, hscan.1, forall_getD h.zero h.rules.2.1 _, hscan.2⟩
  simp only [executionResolutionRemediations] at hn
  split at hn
  case isTrue => cases hn
  case isFalse => exact h.rules.2.2 n (mem_of_mem_read hn)

variable {clauseRow node reason requirementRow : Nat} {c : OutcomeCandidate}
  {candidates : List Bitplane.Word}

theorem clauseRemediations {outcome : Nat} {ids : List Nat}
    (hids : executionClauseRemediations p clauseRow outcome = .ok ids) : ∀ n ∈ ids, W n := by
  have hp := h.program
  simp only [Program.reported, List.forall_mem_append] at hp
  simp only [executionClauseRemediations] at hids
  split at hids
  case h_1 => cases hids
  case h_2 =>
    split at hids
    case isTrue =>
      cases hids
      exact fun _ hn => (List.not_mem_nil hn).elim
    case isFalse =>
      cases hids
      exact fun n hn => hp.1.1.1.2 n (mem_of_mem_read hn)

theorem edge {c : Nat → Except Panic Bool} {text : String} {e : Nat × Nat}
    (he : firstEdge c text (p.clauseEvidence clauseRow) = .ok e) : W e.2 := by
  have hmem : ∀ {edges : List (Nat × Nat)}, firstEdge c text edges = .ok e → e ∈ edges := by
    intro edges he
    induction edges
    case nil => cases he
    case cons edge edges ih =>
      have ⟨found, _, he⟩ := of_bind he
      cases found
      case false => exact List.mem_cons_of_mem _ (ih he)
      case true =>
        cases he
        exact List.mem_cons_self
  have hp := h.program
  simp only [Program.reported, List.forall_mem_append] at hp
  exact hp.1.1.1.1.1.1.1.2 _ (mem_of_mem_read (List.of_mem_zip (hmem he)).2)

theorem assertionNode (hn : fetch p.clauseAssertionSourceNodeIDs clauseRow = .ok node) :
    W node := by
  have hp := h.program
  simp only [Program.reported, List.forall_mem_append] at hp
  exact hp.1.1.1.1.1.1.1.1.2 _ (mem_of_fetch hn)

theorem negativeNode (hn : firstNegativeNode p read clauseRow = .ok node) :
    W node := by
  have ⟨_, _, hn⟩ := of_bind hn
  have ⟨_, _, hn⟩ := of_bind hn
  split at hn
  case isTrue => exact h.assertionNode hn
  case isFalse =>
    have ⟨_, he, hn⟩ := of_bind hn
    cases hn
    exact h.edge he

theorem reasonNode (hn : firstReasonNode p read clauseRow reason = .ok node) : W node := by
  have ⟨_, _, hn⟩ := of_bind hn
  have ⟨_, _, hn⟩ := of_bind hn
  split at hn
  case isTrue => exact h.assertionNode hn
  case isFalse =>
    have ⟨_, he, hn⟩ := of_bind hn
    cases hn
    exact h.edge he

theorem applicability {requirement clause root : Nat}
    (hc : resolveApplicability p read requirement clause root node = .ok c)
    (hrequirement : W requirement) (hclause : W clause) (hnode : W node) : c.All W := by
  have ⟨_, _, hc⟩ := of_bind hc
  have ⟨r, hr, hc⟩ := of_bind hc
  cases r
  case none => cases hc
  case some r =>
    have ⟨hrem, hout, hexp, hreason⟩ := h.resolve hr
    cases hc
    exact ⟨hrem, hout, hexp, hrequirement, hclause, hnode, hreason⟩

theorem activeClause {requirement clause : Nat}
    (hc : resolveActiveClause p read requirement clause = .ok c) (hrequirement : W requirement)
    (hclause : W clause) : c.All W := by
  have hp := h.program
  simp only [Program.reported, List.forall_mem_append] at hp
  have ⟨lane, _, hc⟩ := of_bind hc
  split at hc
  case h_1 | h_2 =>
    have ⟨outcome, hout, hc⟩ := of_bind hc
    have ⟨_, hexp, hc⟩ := of_bind hc
    have ⟨_, hnode, hc⟩ := of_bind hc
    have ⟨ids, hids, hc⟩ := of_bind hc
    cases hc
    refine ⟨h.clauseRemediations hids, ?_, hp.1.1.1.1.2 _ (mem_of_fetch hexp), hrequirement, hclause, ?_,
      h.zero⟩
    case refine_1 => first | exact hp.1.1.1.1.1.1.2 _ (mem_of_fetch hout)
                           | exact hp.1.1.1.1.1.2 _ (mem_of_fetch hout)
    case refine_2 => first | exact h.assertionNode hnode | exact h.negativeNode hnode
  case h_3 =>
    have ⟨r, hr, hc⟩ := of_bind hc
    cases r
    case none => cases hc
    case some r =>
      have ⟨_, hnode, hc⟩ := of_bind hc
      have ⟨hrem, hout, hexp, hreason⟩ := h.resolve hr
      cases hc
      exact ⟨hrem, hout, hexp, hrequirement, hclause, h.reasonNode hnode, hreason⟩

theorem clause {requirement clause : Nat} {truth : Truth} {best : OutcomeCandidate}
    (hc : resolveClause p read requirementRow requirement truth best clause = .ok c)
    (hrequirement : W requirement) (hclause : W clause) (hbest : best.All W) : c.All W := by
  have hp := h.program
  simp only [Program.reported, List.forall_mem_append] at hp
  simp only [resolveClause] at hc
  split at hc
  case isTrue =>
    obtain ⟨c', hc', hc⟩ := of_bind hc
    rcases preferExecutionCandidate_cases hc with rfl | rfl
    · exact hbest
    · exact h.activeClause hc' hrequirement hclause
  case isFalse =>
    obtain ⟨_, _, hc⟩ := of_bind hc
    obtain ⟨_, hnode, hc⟩ := of_bind hc
    obtain ⟨c', hc', hc⟩ := of_bind hc
    rcases preferExecutionCandidate_cases hc with rfl | rfl
    · exact hbest
    · exact h.applicability hc' hrequirement hclause (hp.1.1.1.1.1.1.1.1.1.1.2 _ (mem_of_fetch hnode))

theorem requirement {s s' : RowScan}
    (hs : visitRequirement p read candidates s requirementRow = .ok s')
    (hrequirements : ∀ n ∈ s.requirements, W n) (hbest : s.best.All W) :
    (∀ n ∈ s'.requirements, W n) ∧ s'.best.All W := by
  have hp := h.program
  simp only [Program.reported, List.forall_mem_append] at hp
  simp only [visitRequirement] at hs
  split at hs
  case isTrue =>
    cases hs
    exact ⟨hrequirements, hbest⟩
  case isFalse =>
    obtain ⟨_, _, hs⟩ := of_bind hs
    obtain ⟨truth, _, hs⟩ := of_bind hs
    split at hs
    case isTrue =>
      cases hs
      exact ⟨hrequirements, hbest⟩
    case isFalse =>
      obtain ⟨id, hid, hs⟩ := of_bind hs
      obtain ⟨best, hbest', hs⟩ := of_bind hs
      have hW := hp.1.1.1.1.1.1.1.1.1.1.1 _ (mem_of_fetch hid)
      cases hs
      refine ⟨List.forall_mem_append.mpr ⟨hrequirements, List.forall_mem_singleton.mpr hW⟩, ?_⟩
      exact foldlM_preserves hbest' hbest fun _ clause _ hclause hc hs =>
        h.clause hc hW (hp.1.1.1.1.1.1.1.1.1.2 clause (mem_of_mem_read hclause)) hs

omit h in
theorem causal {predicate : EvidencePredicate} {participant found : Nat × Nat}
    {rest : List EvidenceRecord} (hrest : ∀ record ∈ rest, W record.id ∧ W record.state)
    (hparticipant : W participant.1 ∧ W participant.2)
    (hf : causalRecord stateReasons predicate reason rest participant = .ok found) :
    W found.1 ∧ W found.2 := by
  induction rest generalizing participant
  case nil =>
    unfold causalRecord at hf
    have ⟨_, hf⟩ := of_check hf
    cases hf
    exact hparticipant
  case cons record rest ih =>
    have ih := fun participant => @ih participant fun r hr => hrest r (List.mem_cons_of_mem _ hr)
    have hrecord := hrest record List.mem_cons_self
    unfold causalRecord at hf
    split at hf
    case isTrue => exact ih _ hparticipant hf
    case isFalse =>
      have ⟨_, _, hf⟩ := of_bind hf
      simp only at hf
      split at hf
      case isTrue =>
        cases hf
        exact hrecord
      case isFalse =>
        split at hf
        case isTrue => exact ih _ hrecord hf
        case isFalse => exact ih _ hparticipant hf

theorem provenance {candidate : OutcomeCandidate} {e : ReasonEntry}
    (he : reasonProvenance p read stateReasons records candidate reason = .ok e)
    (hreason : W reason) (hnode : W candidate.node) :
    W e.reason ∧ W e.node ∧ W e.evidence ∧ W e.evidenceState := by
  simp only [reasonProvenance] at he
  split at he
  case isTrue =>
    cases he
    exact ⟨hreason, hnode, h.zero, h.zero⟩
  case isFalse =>
    obtain ⟨_, _, he⟩ := of_bind he
    obtain ⟨_, _, he⟩ := of_bind he
    split at he
    case isTrue =>
      obtain ⟨_, hn, he⟩ := of_bind he
      cases he
      exact ⟨hreason, h.assertionNode hn, h.zero, h.zero⟩
    case isFalse =>
      obtain ⟨_, hedge, he⟩ := of_bind he
      obtain ⟨found, hfound, he⟩ := of_bind he
      have hW : W found.1 ∧ W found.2 := by
        unfold firstEvidenceReasonRecord at hfound
        split at hfound
        case isTrue =>
          cases hfound
          exact ⟨h.zero, h.zero⟩
        case isFalse => exact causal h.evidence ⟨h.zero, h.zero⟩ hfound
      cases he
      exact ⟨hreason, h.edge hedge, hW⟩

theorem finalizeRow {r : RowResult}
    (hr : finalizeRow p read candidates stateReasons records = .ok r) : r.All W := by
  have ⟨s, hs, hr⟩ := of_bind hr
  have hinit : (∀ n ∈ ({} : RowScan).requirements, W n) ∧ ({} : RowScan).best.All W :=
    ⟨fun _ hn => (List.not_mem_nil hn).elim, fun _ hn => (List.not_mem_nil hn).elim, h.zero, h.zero,
      h.zero, h.zero, h.zero, h.zero⟩
  have ⟨hrequirements, hbest⟩ := foldlM_preserves
    (P := fun s : RowScan => (∀ n ∈ s.requirements, W n) ∧ s.best.All W) hs hinit
    fun _ _ _ _ hs' hP => h.requirement hs' hP.1 hP.2
  have hevidence : ∀ n ∈ if p.usesEvidence then records.map (·.id) else [], W n := by
    intro n hn
    split at hn
    case isTrue =>
      have ⟨record, hrecord, heq⟩ := List.mem_map.mp hn
      exact heq ▸ (h.evidence record hrecord).1
    case isFalse => cases hn
  simp only at hr
  split at hr
  case isTrue =>
    cases hr
    exact ⟨h.zero, hrequirements, fun _ hd => (List.not_mem_nil hd).elim, hevidence,
      fun _ he => (List.not_mem_nil he).elim, fun _ hn => (List.not_mem_nil hn).elim⟩
  case isFalse =>
    have ⟨reasons, hreasons, hr⟩ := of_bind hr
    cases hr
    refine ⟨hbest.outcome, hrequirements, List.forall_mem_singleton.mpr ⟨hbest.requirement, hbest.clause,
      hbest.node, hbest.driverReason, hbest.explanation⟩, hevidence, fun e he => ?_, hbest.remediations⟩
    have ⟨reason, hreason, heq⟩ := exists_of_mem_mapM hreasons he
    have hle : reason ≤ reasonCount := by
      have : ∀ n ∈ allReasons, n ≤ reasonCount := by decide
      exact this reason (List.mem_filter.mp hreason).1
    exact h.provenance heq (h.reasons reason hle) hbest.node

end Reportable
end NornRune
