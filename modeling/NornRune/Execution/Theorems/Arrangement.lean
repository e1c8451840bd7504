import NornRune.Execution.Theorems.Outcome
import NornRune.Scheduling.Theorems.Partition

open Bitplane Checked

namespace NornRune

-- What a clause says, whatever its number: the instructions of its assertion and of its evidence, the
-- outcomes of its branches, and the outcome for each reason.
structure ClauseView where
  assertion : Nat
  evidence : List Nat
  onSatisfied : Nat
  onFalse : Nat
  rules : List Nat
  deriving DecidableEq, Repr

structure RequirementView where
  root : Nat
  clauses : List ClauseView
  deriving DecidableEq, Repr

namespace Program

variable (p : Program)

def clauseView (clause : Nat) : ClauseView where
  assertion := p.clauseAssertionRoots.getD (clause - 1) 0
  evidence := (p.clauseEvidence (clause - 1)).map (·.1)
  onSatisfied := p.clauseOnSatisfied.getD (clause - 1) 0
  onFalse := p.clauseOnFalse.getD (clause - 1) 0
  rules := Region.read p.resolver.rules.outcomeIDs ((clause - 1) * reasonCount) reasonCount

def requirementView (row : Nat) : RequirementView where
  root := p.requirementRoots.getD row 0
  clauses := (Region.read p.requirementClauseIDs (p.requirementClauseStarts.getD row 0)
    (p.requirementClauseCounts.getD row 0)).map p.clauseView

def requirementViews : List RequirementView :=
  (List.range p.requirementIDs.length).map p.requirementView

end Program

def ruleOutcome (t : OutcomeTable) (rules : List Nat) (reasons : ReasonMask) : Nat :=
  (List.range reasonCount).foldl (fun current off =>
    if reasons.getLsbD off then t.preferKnown current (rules.getD off 0) else current) 0

namespace ClauseView

variable (view : ClauseView) (read : LaneReader)

def lane : Except Panic Lane := do
  let lane : Lane := ⟨← read.truth view.assertion, ← read.reasons view.assertion⟩
  view.evidence.foldlM (fun lane evidence => do
    return ⟨lane.truth.and (← read.truth evidence), lane.reasons ||| (← read.reasons evidence)⟩) lane

def outcome (t : OutcomeTable) (truth : Truth) (root : Nat) : Except Panic Nat := do
  if truth = ⟨true, false⟩ then
    let lane ← view.lane read
    match lane.truth with
    | ⟨true, false⟩ => return view.onSatisfied
    | ⟨false, true⟩ => return view.onFalse
    | _ => return ruleOutcome t view.rules lane.reasons
  else return ruleOutcome t view.rules (← read.reasons root)

end ClauseView

theorem getD_of_fetch {xs : List Nat} {i x : Nat} (h : fetch xs i = .ok x) : xs.getD i 0 = x := by
  rw [List.getD_eq_getElem?_getD, fetch_eq_ok_iff.mp h, Option.getD_some]

section Rules

variable {r : Resolver} {t : OutcomeTable}

theorem scan_current (base : Nat) (reasons : ReasonMask) :
    (r.scan base reasons).current =
      ruleOutcome r.outcomes (Region.read r.rules.outcomeIDs base reasonCount) reasons := by
  have hget : ∀ off ∈ List.range reasonCount, r.rules.outcomeIDs.getD (base + off) 0 =
      (Region.read r.rules.outcomeIDs base reasonCount).getD off 0 := fun off ho => by
    simp only [List.getD_eq_getElem?_getD, Region.getElem?_read, if_pos (List.mem_range.mp ho)]
  have hscan : ∀ (offs : List Nat) (s : Resolver.Scan), (∀ off ∈ offs, off ∈ List.range reasonCount) →
      (offs.foldl (r.scanStep base reasons) s).current = offs.foldl (fun current off =>
        if reasons.getLsbD off then r.outcomes.preferKnown current
          ((Region.read r.rules.outcomeIDs base reasonCount).getD off 0) else current) s.current := by
    intro offs
    induction offs
    case nil => exact fun s _ => rfl
    case cons off offs ih =>
      intro s hs
      rw [List.foldl_cons, List.foldl_cons, ih _ fun o ho => hs o (List.mem_cons_of_mem _ ho)]
      congr 1
      rw [Resolver.scanStep, hget off (hs off List.mem_cons_self)]
      split
      case isFalse => rfl
      case isTrue =>
        dsimp only
        split
        case isTrue => rfl
        case isFalse h => exact (not_not.mp h).symm
  exact hscan _ _ fun _ h => h

theorem preferKnown_ne_zero {a b : Nat} (h : a ≠ 0 ∨ b ≠ 0) : t.preferKnown a b ≠ 0 := by
  unfold OutcomeTable.preferKnown
  split
  · omega
  · split
    · omega
    · dsimp only
      split <;> omega

variable {reasons : ReasonMask}

theorem ruleOutcome_ne_zero {rules : List Nat} {off : Nat} (hlt : off < reasonCount)
    (hb : reasons.getLsbD off) (hr : rules.getD off 0 ≠ 0) :
    ruleOutcome t rules reasons ≠ 0 := by
  have hkeep : ∀ (offs : List Nat) (current : Nat), current ≠ 0 ∨ off ∈ offs →
      offs.foldl (fun current off => if reasons.getLsbD off then
        t.preferKnown current (rules.getD off 0) else current) current ≠ 0 := by
    intro offs
    induction offs
    case nil => exact fun current h => h.elim id nofun
    case cons o offs ih =>
      intro current h
      rw [List.foldl_cons]
      refine ih _ ?_
      rcases h with h | h
      case inl =>
        refine .inl ?_
        split
        · exact preferKnown_ne_zero (.inl h)
        · exact h
      case inr =>
        rcases List.mem_cons.mp h with rfl | h
        · rw [if_pos hb]
          exact .inl (preferKnown_ne_zero (.inr hr))
        · exact .inr h
  exact hkeep _ _ (.inr (List.mem_range.mpr hlt))

theorem ReasonMask.exists_bit (hv : reasons.valid) (hz : reasons ≠ 0#16) :
    ∃ off < reasonCount, reasons.getLsbD off := by
  by_contra hn
  simp only [not_exists, not_and, Bool.not_eq_true] at hn
  refine hz (BitVec.eq_of_getLsbD_eq fun i hi => ?_)
  rw [BitVec.getLsbD_zero]
  by_cases hlt : i < reasonCount
  case pos => exact hn i hlt
  case neg =>
    have hmask : (~~~allReasonsMask).getLsbD i = true := by
      have : ∀ i < 16, ¬i < reasonCount → (~~~allReasonsMask).getLsbD i = true := by decide
      exact this i hi hlt
    rw [valid, beq_iff_eq] at hv
    have := congrArg (BitVec.getLsbD · i) hv
    simpa [hmask] using this

end Rules

section Outcome

variable {p : Program} {read : LaneReader}

theorem lookup_of_new {outcomes : OutcomeTable} {remediations : RemediationTable}
    {rules : ResolutionTable} {r : Resolver} (h : Resolver.new outcomes remediations rules = .ok r)
    {id : Nat} (hm : id ∈ rules.outcomeIDs) : (outcomes.lookup id).isSome := by
  have ⟨_, h⟩ := of_guard h
  have ⟨_, h⟩ := of_guard h
  have ⟨_, h⟩ := of_guard h
  have ⟨_, h⟩ := of_guard h
  have ⟨hall, _⟩ := of_guard h
  simp only [Bool.not_eq_true, Bool.not_eq_false', List.all_eq_true] at hall
  exact hall id hm

theorem ne_zero_of_lookup {t : OutcomeTable} {id : Nat} (h : (t.lookup id).isSome) : id ≠ 0 := by
  rintro rfl
  simp [OutcomeTable.lookup, OutcomeTable.index] at h

variable {clause requirement : Nat} {c : OutcomeCandidate}

theorem resolve_outcome {reasons : ReasonMask} {r : Resolver.Resolution}
    (h : p.resolver.resolve clause reasons = .ok (some r)) :
    r.outcome = ruleOutcome p.outcomes (p.clauseView clause).rules reasons ∧ r.outcome ≠ 0 := by
  have ⟨hvalid, h⟩ := require_bind_eq_ok_iff.mp h
  have ⟨hset, h⟩ := require_bind_eq_ok_iff.mp h
  have ⟨hz, h⟩ := ite_eq_of_ne h nofun
  cases h
  simp only [Bool.and_eq_true, bne_iff_ne, decide_eq_true_eq] at hset
  rcases p.resolver_eq with hr | hr
  case inl =>
    rw [hr] at hset
    have : clause ≤ 0 := hset.2
    omega
  case inr =>
    have hrules := rules_of_new hr
    have houtcomes : p.resolver.outcomes = p.outcomes := by rw [hrules]
    have hcurrent : (p.resolver.scan ((clause - 1) * reasonCount) reasons).current =
        ruleOutcome p.outcomes (p.clauseView clause).rules reasons := by
      rw [scan_current, houtcomes]
      rfl
    refine ⟨hcurrent, ?_⟩
    have ⟨off, hlt, hb⟩ := ReasonMask.exists_bit hvalid hz
    dsimp only
    rw [hcurrent]
    refine ruleOutcome_ne_zero hlt hb (ne_zero_of_lookup (lookup_of_new hr ?_))
    have hle : (clause - 1) * reasonCount + off < p.resolver.rules.outcomeIDs.length := by
      have hset : clause ≠ 0 ∧ clause ≤ p.resolver.rules.outcomeIDs.length / 9 := hset
      have hlt : off < 9 := hlt
      change (clause - 1) * 9 + off < _
      omega
    have hrow : (p.clauseView clause).rules.getD off 0 =
        p.resolver.rules.outcomeIDs.getD ((clause - 1) * reasonCount + off) 0 := by
      simp only [Program.clauseView, List.getD_eq_getElem?_getD, Region.getElem?_read, if_pos hlt]
    rw [hrow, List.getD_eq_getElem _ _ hle]
    simp only [hrules]
    exact List.getElem_mem _

theorem clauseLane_eq_view {lane : Lane} (h : clauseLane p read (clause - 1) = .ok lane) :
    (p.clauseView clause).lane read = .ok lane := by
  have ⟨assertion, ha, h⟩ := of_bind h
  rw [ClauseView.lane, Program.clauseView, getD_of_fetch ha]
  simp only [List.foldlM_map]
  exact h

theorem resolveActiveClause_outcome {root : Nat}
    (h : resolveActiveClause p read requirement clause = .ok c) :
    (p.clauseView clause).outcome read p.outcomes ⟨true, false⟩ root = .ok c.outcome ∧
      c.outcome ≠ 0 := by
  have hclause : ∀ {outcome : Nat} {ids : List Nat},
      executionClauseRemediations p (clause - 1) outcome = .ok ids → outcome ≠ 0 := fun h => by
    unfold executionClauseRemediations at h
    split at h
    case h_1 => cases h
    case h_2 o ho => exact ne_zero_of_lookup (Option.isSome_iff_exists.mpr ⟨o, ho⟩)
  have ⟨lane, hl, h⟩ := of_bind h
  split at h
  case h_1 ht | h_2 ht =>
    have ⟨outcome, ho, h⟩ := of_bind h
    have ⟨_, _, h⟩ := of_bind h
    have ⟨_, _, h⟩ := of_bind h
    have ⟨ids, hids, h⟩ := of_bind h
    cases h
    rw [ClauseView.outcome, if_pos rfl, clauseLane_eq_view hl, ok_bind, ht]
    exact ⟨congrArg Except.ok (getD_of_fetch ho), hclause hids⟩
  case h_3 h₁ h₂ =>
    have ⟨r, hr, h⟩ := of_bind h
    cases r
    case none => cases h
    case some r =>
      have ⟨_, _, h⟩ := of_bind h
      cases h
      have ⟨he, hz⟩ := resolve_outcome hr
      refine ⟨?_, hz⟩
      rw [ClauseView.outcome, if_pos rfl, clauseLane_eq_view hl, ok_bind]
      split
      case h_1 ht => exact absurd ht h₁
      case h_2 ht => exact absurd ht h₂
      case h_3 => exact congrArg Except.ok he.symm

theorem clauseCandidate_outcome {requirementRow : Nat} {truth : Truth}
    (h : clauseCandidate p read requirementRow requirement truth clause = .ok c) :
    (p.clauseView clause).outcome read p.outcomes truth (p.requirementRoots.getD requirementRow 0) =
      .ok c.outcome ∧ c.outcome ≠ 0 := by
  unfold clauseCandidate at h
  split at h
  case isTrue ht =>
    subst ht
    exact resolveActiveClause_outcome h
  case isFalse ht =>
    have ⟨root, hroot, h⟩ := of_bind h
    have ⟨_, _, h⟩ := of_bind h
    have ⟨reasons, hreasons, h⟩ := of_bind h
    have ⟨r, hr, h⟩ := of_bind h
    cases r
    case none => cases h
    case some r =>
      cases h
      have ⟨he, hz⟩ := resolve_outcome hr
      refine ⟨?_, hz⟩
      rw [ClauseView.outcome, if_neg ht, getD_of_fetch hroot, hreasons, ok_bind]
      exact congrArg Except.ok he.symm

def IsOutcome (t : OutcomeTable) (read : LaneReader) (views : List RequirementView) (o : Nat) : Prop :=
  ∃ v ∈ views, ∃ truth, read.truth v.root = .ok truth ∧ truth ≠ ⟨false, true⟩ ∧
    ∃ clause ∈ v.clauses, clause.outcome read t truth v.root = .ok o

variable {cs : List OutcomeCandidate}

theorem requirementCandidates_eq_ok {row : Nat} (h : requirementCandidates p read row = .ok cs) :
    ∃ truth, read.truth (p.requirementView row).root = .ok truth ∧
      ((truth = ⟨false, true⟩ ∧ cs = []) ∨ truth ≠ ⟨false, true⟩ ∧ ∃ requirement,
        (Region.read p.requirementClauseIDs (p.requirementClauseStarts.getD row 0)
          (p.requirementClauseCounts.getD row 0)).mapM
          (clauseCandidate p read row requirement truth) = .ok cs) := by
  have ⟨root, hroot, h⟩ := of_bind h
  have ⟨truth, ht, h⟩ := of_bind h
  refine ⟨truth, by rw [Program.requirementView, getD_of_fetch hroot, ht], ?_⟩
  split at h
  case isTrue hf =>
    cases h
    exact .inl ⟨hf, rfl⟩
  case isFalse hf =>
    have ⟨requirement, _, h⟩ := of_bind h
    exact .inr ⟨hf, requirement, h⟩

theorem isOutcome_iff (h : rowCandidates p read = .ok cs) {o : Nat} :
    (∃ c ∈ cs, c.outcome = o) ↔ IsOutcome p.outcomes read p.requirementViews o := by
  have ⟨css, hcss, h⟩ := of_bind h
  cases h
  constructor
  case mp =>
    rintro ⟨c, hc, rfl⟩
    have ⟨cs, hcs, hc⟩ := List.mem_flatten.mp hc
    have ⟨row, hrow, hcs⟩ := exists_of_mem_mapM hcss hcs
    have ⟨truth, ht, hcases⟩ := requirementCandidates_eq_ok hcs
    rcases hcases with ⟨_, rfl⟩ | ⟨hf, requirement, hm⟩
    case inl => cases hc
    case inr =>
      have ⟨clause, hclause, hcand⟩ := exists_of_mem_mapM hm hc
      exact ⟨p.requirementView row, List.mem_map_of_mem hrow, truth, ht, hf, p.clauseView clause,
        List.mem_map_of_mem hclause, (clauseCandidate_outcome hcand).1⟩
  case mpr =>
    rintro ⟨v, hv, truth, ht, hf, view, hview, ho⟩
    have ⟨row, hrow, hv⟩ := List.mem_map.mp hv
    subst hv
    have ⟨cs, hcs, hcand⟩ := ok_of_mem_mapM hcss hrow
    have ⟨truth', ht', hcases⟩ := requirementCandidates_eq_ok hcand
    obtain rfl : truth = truth' := Except.ok.inj (ht.symm.trans ht')
    rcases hcases with ⟨hf', _⟩ | ⟨_, requirement, hm⟩
    case inl => exact absurd hf' hf
    case inr =>
      have ⟨clause, hclause, hview⟩ := List.mem_map.mp hview
      subst hview
      have ⟨c, hc, hcand⟩ := ok_of_mem_mapM hm hclause
      refine ⟨c, List.mem_flatten.mpr ⟨cs, hcs, hc⟩, ?_⟩
      exact Except.ok.inj ((clauseCandidate_outcome hcand).1.symm.trans ho)

theorem rowCandidates_ne_zero (h : rowCandidates p read = .ok cs) : ∀ c ∈ cs, c.outcome ≠ 0 := by
  intro c hc
  have ⟨css, hcss, h⟩ := of_bind h
  cases h
  have ⟨cs, hcs, hc⟩ := List.mem_flatten.mp hc
  have ⟨row, hrow, hcs⟩ := exists_of_mem_mapM hcss hcs
  have ⟨truth, ht, hcases⟩ := requirementCandidates_eq_ok hcs
  rcases hcases with ⟨_, rfl⟩ | ⟨_, requirement, hm⟩
  case inl => cases hc
  case inr =>
    have ⟨clause, _, hcand⟩ := exists_of_mem_mapM hm hc
    exact (clauseCandidate_outcome hcand).2

theorem finalizeRow_outcome {candidates : List Word} {stateReasons : List Nat}
    {records : List EvidenceRecord} {r : RowResult}
    (hleft : LeavesOutInapplicable p read candidates)
    (h : finalizeRow p read candidates stateReasons records = .ok r) :
    ∃ cs, rowCandidates p read = .ok cs ∧ ((cs = [] ∧ r.outcome = 0 ∧ r.drivers = []) ∨
      ∃ best, Wins p.outcomes cs best ∧ r.outcome = best.outcome ∧ r.drivers =
        [⟨best.requirement, best.clause, best.node, best.driverReason, best.explanation⟩]) := by
  have ⟨s, hs, h⟩ := of_bind h
  have ⟨cs, hcs, hbest⟩ := rowCandidates_of_scan hleft hs
  refine ⟨cs, hcs, ?_⟩
  rcases wins_of_foldlM (rowCandidates_ne_zero hcs) hbest with ⟨hnil, hb⟩ | wins
  case inl =>
    rw [if_pos (by rw [hb])] at h
    cases h
    exact .inl ⟨hnil, rfl, rfl⟩
  case inr =>
    rw [if_neg (rowCandidates_ne_zero hcs _ wins.mem)] at h
    have ⟨reasons, _, h⟩ := of_bind h
    cases h
    exact .inr ⟨s.best, wins, rfl, rfl⟩

theorem rowCandidates_eq_nil_iff (h : rowCandidates p read = .ok cs)
    (hne : ∀ row < p.requirementIDs.length, (p.requirementView row).clauses ≠ []) :
    cs = [] ↔ ∀ row < p.requirementIDs.length,
      read.truth (p.requirementRoots.getD row 0) = .ok ⟨false, true⟩ := by
  have ⟨css, hcss, h⟩ := of_bind h
  cases h
  rw [List.flatten_eq_nil_iff]
  constructor
  case mp =>
    intro hnil row hlt
    have ⟨cs, hcs, hrow⟩ := ok_of_mem_mapM hcss (List.mem_range.mpr hlt)
    have ⟨truth, ht, hcases⟩ := requirementCandidates_eq_ok hrow
    rcases hcases with ⟨hf, _⟩ | ⟨_, requirement, hm⟩
    case inl => rwa [hf] at ht
    case inr =>
      have hlen := length_of_mapM_eq_ok hm
      rw [hnil cs hcs] at hlen
      refine absurd ?_ (hne row hlt)
      rw [Program.requirementView, List.map_eq_nil_iff]
      exact List.length_eq_zero_iff.mp hlen.symm
  case mpr =>
    intro hall cs hcs
    have ⟨row, hrow, hcs⟩ := exists_of_mem_mapM hcss hcs
    have ⟨truth, ht, hcases⟩ := requirementCandidates_eq_ok hcs
    have hf : truth = ⟨false, true⟩ :=
      Except.ok.inj (ht.symm.trans (hall row (List.mem_range.mp hrow)))
    rcases hcases with ⟨_, hnil⟩ | ⟨hf', _⟩
    · exact hnil
    · exact absurd hf hf'

end Outcome

namespace Program

def rowReader (p : Program) (batch : Batch) (r : Nat) : LaneReader :=
  match EvidenceStateIndex.classify p, p.code with
  | some stateReasons, .ok code => Lanes.reader p (Lanes.final p stateReasons (batch.row r) code)
  | _, _ => ⟨fun _ => .error "eval: invalid program", fun _ => .error "eval: invalid program"⟩

def IndexSound (p : Program) (batch : Batch) : Prop :=
  ∀ r < batch.rows, LeavesOutInapplicable p (p.rowReader batch r) (p.candidates (batch.row r))

structure Rearranged (p q : Program) : Prop where
  code : q.code = p.code
  truthSlots : q.truthSlots = p.truthSlots
  reasonSlots : q.reasonSlots = p.reasonSlots
  states : EvidenceStateIndex.classify q = EvidenceStateIndex.classify p
  outcomes : q.outcomes = p.outcomes
  views : ∃ views, views.Perm q.requirementViews ∧
    List.Forall₂ (fun v v' => v.root = v'.root ∧ v.clauses.Perm v'.clauses) p.requirementViews views

namespace Rearranged

variable {p q : Program}

theorem truthSlotOf (h : Rearranged p q) : q.truthSlotOf = p.truthSlotOf := by
  funext instruction
  rw [Program.truthSlotOf, h.truthSlots, Program.truthSlotOf]

theorem reasonSlotOf (h : Rearranged p q) : q.reasonSlotOf = p.reasonSlotOf := by
  funext instruction
  rw [Program.reasonSlotOf, h.reasonSlots, Program.reasonSlotOf]

theorem step (h : Rearranged p q) (stateReasons : List Nat) (facts : Row) (s : Lanes) (row : Nat)
    (instr : Instr) : s.step q stateReasons facts row instr = s.step p stateReasons facts row instr := by
  have hvalue : s.value q = s.value p := by
    funext instruction
    rw [Lanes.value, h.truthSlotOf, h.reasonSlotOf, Lanes.value]
  rw [Lanes.step, Lanes.set, hvalue, h.truthSlots, h.reasonSlots, Lanes.step, Lanes.set]

theorem run (h : Rearranged p q) (stateReasons : List Nat) (facts : Row) (code : List Instr)
    (start : Nat) (s : Lanes) :
    Lanes.run q stateReasons facts start code s = Lanes.run p stateReasons facts start code s := by
  induction code generalizing start s
  case nil => rfl
  case cons instr code ih => rw [Lanes.run, Lanes.run, h.step, ih]

theorem rowReader (h : Rearranged p q) (batch : Batch) (r : Nat) :
    q.rowReader batch r = p.rowReader batch r := by
  unfold Program.rowReader
  rw [h.states, h.code]
  split
  case h_1 => rw [Lanes.reader, Lanes.final, h.run, h.truthSlotOf, h.reasonSlotOf, Lanes.reader, Lanes.final]
  case h_2 => rfl

theorem isOutcome_iff (h : Rearranged p q) {read : LaneReader} {o : Nat} :
    IsOutcome q.outcomes read q.requirementViews o ↔ IsOutcome p.outcomes read p.requirementViews o := by
  have ⟨views, hperm, hviews⟩ := h.views
  rw [h.outcomes]
  constructor
  case mp =>
    rintro ⟨v', hv', truth, ht, hf, clause, hclause, ho⟩
    have ⟨v, hv, hroot, hclauses⟩ := exists_of_forall₂ hviews.flip (hperm.mem_iff.mpr hv')
    refine ⟨v, hv, truth, hroot ▸ ht, hf, clause, hclauses.mem_iff.mpr hclause, ?_⟩
    rw [hroot]
    exact ho
  case mpr =>
    rintro ⟨v, hv, truth, ht, hf, clause, hclause, ho⟩
    have ⟨v', hv', hroot, hclauses⟩ := exists_of_forall₂ hviews hv
    refine ⟨v', hperm.mem_iff.mp hv', truth, hroot ▸ ht, hf, clause, hclauses.mem_iff.mp hclause, ?_⟩
    rw [← hroot]
    exact ho

end Rearranged

-- What is reported about a row: the best outcome of the clauses of the requirements that are not
-- definitely inapplicable, for the first clause that has it.
structure Reduces (p : Program) (read : LaneReader) (x : RowResult) : Prop where
  none : x.outcome = 0 ↔
    ∀ row < p.requirementIDs.length, read.truth (p.requirementRoots.getD row 0) = .ok ⟨false, true⟩
  best : x.outcome ≠ 0 → IsOutcome p.outcomes read p.requirementViews x.outcome ∧
    ∀ o, IsOutcome p.outcomes read p.requirementViews o → p.outcomes.Beats x.outcome o
  driver : x.outcome ≠ 0 → ∃ cs first, rowCandidates p read = .ok cs ∧ Wins p.outcomes cs first ∧
    first.outcome = x.outcome ∧ x.drivers =
      [⟨first.requirement, first.clause, first.node, first.driverReason, first.explanation⟩]

section

variable {p q : Program} {batch : Batch} {sizes : ExecutionSizes} {x y : RowResult} {read : LaneReader}

theorem clauses_ne_nil (checked : ExecutionChecked p batch sizes) {row : Nat}
    (hlt : row < p.requirementIDs.length) : (p.requirementView row).clauses ≠ [] := by
  have h := checked.semantics
  simp only [validExecutionSemantics, Bool.and_eq_true, List.all_eq_true, List.mem_range] at h
  have h := h.1.2 row hlt
  simp only [validExecutionRequirement, Bool.and_eq_true, bne_iff_ne, decide_eq_true_eq] at h
  have hcount := h.1.1.2
  have hle := h.1.2
  intro hnil
  have hlen := congrArg List.length hnil
  rw [requirementView, List.length_map, Region.length_read hle] at hlen
  exact hcount hlen

theorem reduces_finalizeRow {candidates : List Word} {stateReasons : List Nat}
    {records : List EvidenceRecord} (hleft : LeavesOutInapplicable p read candidates)
    (hne : ∀ row < p.requirementIDs.length, (p.requirementView row).clauses ≠ [])
    (h : finalizeRow p read candidates stateReasons records = .ok x) : p.Reduces read x := by
  have ⟨cs, hcs, hcases⟩ := finalizeRow_outcome hleft h
  rcases hcases with ⟨hnil, ho, _⟩ | ⟨first, wins, ho, hd⟩
  case inl =>
    refine ⟨⟨fun _ => (rowCandidates_eq_nil_iff hcs hne).mp hnil, fun _ => ho⟩, ?_, ?_⟩
    · exact fun hx => absurd ho hx
    · exact fun hx => absurd ho hx
  case inr =>
    have hx : x.outcome ≠ 0 := ho ▸ rowCandidates_ne_zero hcs first wins.mem
    refine ⟨⟨fun h0 => absurd h0 hx, fun hall => ?_⟩, fun _ => ⟨?_, fun o hi => ?_⟩, fun _ => ?_⟩
    case refine_1 =>
      have hnil := (rowCandidates_eq_nil_iff hcs hne).mpr hall
      exact absurd (hnil ▸ wins.mem) List.not_mem_nil
    case refine_2 => exact (NornRune.isOutcome_iff hcs).mp ⟨first, wins.mem, ho.symm⟩
    case refine_3 =>
      have ⟨c, hc, he⟩ := (NornRune.isOutcome_iff hcs).mpr hi
      exact ho ▸ he ▸ wins.beats c hc
    case refine_4 => exact ⟨cs, first, hcs, wins, ho.symm, hd⟩

theorem reduces_evaluate {out : ResultBatch} (h : p.evaluate batch = .returned out)
    (hindex : p.IndexSound batch) : ∃ rs, out = .ofRows rs ∧ rs.length = batch.rows ∧
      ∀ r x, rs[r]? = some x → p.Reduces (p.rowReader batch r) x := by
  have ⟨_, stateReasons, rs, checked, _, hstates, hrs, hout⟩ := evaluate_eq_returned h
  have ⟨code, hcode, hlen, hrow⟩ := evalRows_eq_ok hrs
  refine ⟨rs, hout, hlen, fun r x hx => ?_⟩
  have ⟨hlt, hget⟩ := List.getElem?_eq_some_iff.mp hx
  have hread : p.rowReader batch r =
      Lanes.reader p (Lanes.final p stateReasons (batch.row r) code) := by
    simp only [Program.rowReader, hstates, hcode]
  have hrow := hrow r hlt
  rw [evalRow, ← hread, hget] at hrow
  exact reduces_finalizeRow (hindex r (hlen ▸ hlt)) (fun row => clauses_ne_nil checked) hrow

theorem Reduces.outcome_ne_zero (h : p.Reduces read x) {o : Nat}
    (hi : IsOutcome p.outcomes read p.requirementViews o) : x.outcome ≠ 0 := by
  intro hx
  have ⟨v, hv, truth, ht, hf, _⟩ := hi
  have ⟨row, hrow, hv⟩ := List.mem_map.mp hv
  subst hv
  exact hf (Except.ok.inj (ht.symm.trans (h.none.mp hx row (List.mem_range.mp hrow))))

theorem Reduces.unique (h : p.Reduces read x) (h' : q.Reduces read y) (hr : Rearranged p q) :
    y.outcome = x.outcome := by
  by_cases hx : x.outcome = 0
  case pos =>
    by_contra hy
    exact h.outcome_ne_zero (hr.isOutcome_iff.mp (h'.best (fun h0 => hy (h0.trans hx.symm))).1) hx
  case neg =>
    have ⟨hin, hbest⟩ := h.best hx
    have hin' := hr.isOutcome_iff.mpr hin
    have ⟨hin₂, hbest₂⟩ := h'.best (h'.outcome_ne_zero hin')
    have hle := hbest₂ _ hin'
    rw [hr.outcomes] at hle
    exact hle.antisymm (hbest _ (hr.isOutcome_iff.mp hin₂))

-- The outcome of a request is the best one of all clauses that count, and does not depend on the order
-- of the requirements and of their clauses.
theorem outcome_order_free {out : ResultBatch} (h : p.evaluate batch = .returned out)
    (hindex : p.IndexSound batch) :
    (∃ rs, out = .ofRows rs ∧ rs.length = batch.rows ∧
      ∀ r x, rs[r]? = some x → p.Reduces (p.rowReader batch r) x) ∧
    ∀ q out', Rearranged p q → q.evaluate batch = .returned out' → q.IndexSound batch →
      out'.outcomeIDs = out.outcomeIDs := by
  have ⟨rs, hout, hlen, hred⟩ := reduces_evaluate h hindex
  refine ⟨⟨rs, hout, hlen, hred⟩, fun q out' hr h' hindex' => ?_⟩
  have ⟨rs', hout', hlen', hred'⟩ := reduces_evaluate h' hindex'
  have hmap : rs'.map (·.outcome) = rs.map (·.outcome) := by
    refine List.ext_getElem (by simp [hlen, hlen']) fun r h₁ h₂ => ?_
    rw [List.length_map] at h₁ h₂
    rw [List.getElem_map, List.getElem_map]
    refine (hred r _ (List.getElem?_eq_getElem h₂)).unique ?_ hr
    exact hr.rowReader batch r ▸ hred' r _ (List.getElem?_eq_getElem h₁)
  simp only [hout, hout', ResultBatch.ofRows, ResultBatch.filled, hmap, Nat.sub_self]

end

def twoClauses (order : List Nat) : Program :=
  { Scheduler.definedField with
    requirementClauseCounts := [2]
    requirementClauseIDs := order
    clauseAssertionRoots := [1, 1]
    clauseAssertionSourceNodeIDs := [1, 1]
    clauseEvidenceStarts := [0, 0]
    clauseEvidenceCounts := [0, 0]
    clauseOnSatisfied := [1, 2]
    clauseOnFalse := [1, 1]
    clauseExplanationIDs := List.replicate (2 * clauseExplanationBranchCount) 1
    clauseRemediationStarts := [0, 0]
    clauseRemediationCounts := [0, 0]
    outcomes := ⟨[1, 1], [1, 2], [true, true]⟩
    resolutions := ⟨List.replicate (2 * reasonCount) 1,
      List.replicate (2 * reasonCount) 1, List.replicate (2 * reasonCount) 0,
      List.replicate (2 * reasonCount) 0, []⟩
    resolver_eq := .inl rfl }

theorem outcome_order_free_twoClauses :
    ∃ out, (twoClauses [1, 2]).evaluate (Scheduler.alternating 1) = .returned out ∧
      out.outcomeIDs = [2] ∧
      ∃ out', (twoClauses [2, 1]).evaluate (Scheduler.alternating 1) = .returned out' ∧
        out'.outcomeIDs = out.outcomeIDs := by
  have hindex : ∀ order, (twoClauses order).IndexSound (Scheduler.alternating 1) := by
    intro order r hr i hi hb
    obtain rfl : i = 0 := Nat.lt_one_iff.mp hi
    change bit [1#64] 0 = false at hb
    exact absurd hb (by decide)
  have hperm : Rearranged (twoClauses [1, 2]) (twoClauses [2, 1]) := by
    refine ⟨rfl, rfl, rfl, rfl, rfl, _, .refl _, .cons ⟨rfl, ?_⟩ .nil⟩
    exact .swap ..
  have h₁ : (twoClauses [1, 2]).evaluate (Scheduler.alternating 1) =
      .returned (.ofRows [⟨2, [1], [⟨1, 2, 1, 0, 1⟩], [], [], []⟩]) := by decide +kernel
  have h₂ : (twoClauses [2, 1]).evaluate (Scheduler.alternating 1) =
      .returned (.ofRows [⟨2, [1], [⟨1, 2, 1, 0, 1⟩], [], [], []⟩]) := by decide +kernel
  exact ⟨_, h₁, rfl, _, h₂, (outcome_order_free h₁ (hindex _)).2 _ _ hperm h₂ (hindex _)⟩

-- An index that leaves out a requirement whatever the value of its field is. The executor checks the
-- shape of an index only.
def leftOut : Program :=
  { Scheduler.definedField with
    fieldKinds := [.symbol]
    fieldIndex := ⟨[.symbol], [0], fun kind => if kind = .symbol then 1 else 0, by decide⟩
    applicabilityIndex := ⟨[1], [0], [1], [0#64], [1], [0#64], [1#64], 1, 1⟩ }

def oneSymbol : Batch :=
  { Scheduler.alternating 1 with
    symbolValues := [1]
    booleanValues := []
    symbolValues_le := by decide }

-- No outcome is reported, although the requirement applies and its clause is satisfied.
theorem leftOut_no_outcome :
    leftOut.evaluate oneSymbol = .returned (.ofRows [⟨0, [], [], [], [], []⟩]) ∧
    (leftOut.rowReader oneSymbol 0).truth 1 = .ok ⟨true, false⟩ ∧
    ¬leftOut.Reduces (leftOut.rowReader oneSymbol 0) ⟨0, [], [], [], [], []⟩ := by
  have htruth : (leftOut.rowReader oneSymbol 0).truth 1 = .ok ⟨true, false⟩ := by decide +kernel
  refine ⟨by decide +kernel, htruth, fun h => ?_⟩
  have hfalse := h.none.mp rfl 0 (by decide)
  have : (Except.ok ⟨true, false⟩ : Except Panic Truth) = .ok ⟨false, true⟩ := htruth.symm.trans hfalse
  exact absurd this (by decide)

end Program
end NornRune
