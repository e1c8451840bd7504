import Mathlib.Data.List.Induction
import NornRune.Execution.Theorems.Row

open Bitplane Checked

namespace NornRune

namespace OutcomeTable

variable (t : OutcomeTable)

def Beats (a b : Nat) : Prop :=
  t.precedence.getD (b - 1) 0 < t.precedence.getD (a - 1) 0 ∨
    (t.precedence.getD (b - 1) 0 = t.precedence.getD (a - 1) 0 ∧ a ≤ b)

instance : DecidableRel t.Beats := fun a b =>
  inferInstanceAs (Decidable (t.precedence.getD (b - 1) 0 < t.precedence.getD (a - 1) 0 ∨
    (t.precedence.getD (b - 1) 0 = t.precedence.getD (a - 1) 0 ∧ a ≤ b)))

variable {t} {a b c : Nat}

theorem Beats.refl (a : Nat) : t.Beats a a := .inr ⟨rfl, Nat.le_refl a⟩

theorem Beats.trans (h : t.Beats a b) (h' : t.Beats b c) : t.Beats a c := by
  unfold Beats at *
  omega

theorem Beats.antisymm (h : t.Beats a b) (h' : t.Beats b a) : a = b := by
  unfold Beats at *
  omega

theorem beats_of_not (h : ¬t.Beats a b) : t.Beats b a := by
  unfold Beats at *
  omega

theorem preferKnown_eq (ha : a ≠ 0) (hb : b ≠ 0) :
    t.preferKnown a b = if t.Beats a b then a else b := by
  rw [preferKnown, if_neg ha, if_neg hb]
  dsimp only
  by_cases h : t.Beats a b
  case pos =>
    rw [if_pos h, if_neg]
    unfold Beats at h
    omega
  case neg =>
    rw [if_neg h, if_pos]
    unfold Beats at h
    omega

theorem prefer_eq_some {w : Nat} (ha : a ≠ 0) (hb : b ≠ 0) (h : t.prefer a b = some w) :
    w = if t.Beats a b then a else b := by
  rw [prefer, if_neg ha] at h
  have ⟨_, _, h⟩ := Option.bind_eq_some_iff.mp h
  rw [if_neg hb] at h
  have ⟨_, _, h⟩ := Option.bind_eq_some_iff.mp h
  cases h
  exact preferKnown_eq ha hb

end OutcomeTable

structure Wins (t : OutcomeTable) (cs : List OutcomeCandidate) (best : OutcomeCandidate) : Prop where
  first : ∃ before after, cs = before ++ best :: after ∧ ∀ c ∈ before, c.outcome ≠ best.outcome
  beats : ∀ c ∈ cs, t.Beats best.outcome c.outcome

theorem Wins.mem {t : OutcomeTable} {cs : List OutcomeCandidate} {best : OutcomeCandidate}
    (h : Wins t cs best) : best ∈ cs := by
  have ⟨before, after, hcs, _⟩ := h.first
  rw [hcs]
  exact List.mem_append_right _ List.mem_cons_self

section Reduction

variable {p : Program} {best best' c : OutcomeCandidate} {cs : List OutcomeCandidate}

theorem preferExecutionCandidate_eq_ok (hc : c.outcome ≠ 0)
    (h : preferExecutionCandidate p best c = .ok best') :
    best' = if best.outcome = 0 ∨ ¬p.outcomes.Beats best.outcome c.outcome then c else best := by
  unfold preferExecutionCandidate at h
  split at h
  case h_1 => cases h
  case h_2 w hw =>
    cases h
    by_cases hb : best.outcome = 0
    case pos => rw [if_pos (.inl hb), if_pos (.inl hb)]
    case neg =>
      rw [OutcomeTable.prefer_eq_some hb hc hw]
      by_cases hbeats : p.outcomes.Beats best.outcome c.outcome
      case pos => simp [hb, hbeats]
      case neg =>
        have hne : c.outcome ≠ best.outcome := fun he => hbeats (he ▸ .refl _)
        simp [hb, hbeats, hne]

theorem wins_of_foldlM (hc : ∀ c ∈ cs, c.outcome ≠ 0)
    (h : cs.foldlM (preferExecutionCandidate p) {} = .ok best) :
    (cs = [] ∧ best = {}) ∨ Wins p.outcomes cs best := by
  induction cs using List.reverseRecOn generalizing best
  case nil =>
    cases h
    exact .inl ⟨rfl, rfl⟩
  case append_singleton cs c ih =>
    rw [List.foldlM_append] at h
    have ⟨last, hlast, h⟩ := of_bind h
    have ⟨best', h, he⟩ := of_bind h
    cases he
    have hlast := ih (fun c hm => hc c (List.mem_append_left _ hm)) hlast
    rw [preferExecutionCandidate_eq_ok (hc c (by simp)) h]
    refine .inr ?_
    rcases hlast with ⟨rfl, rfl⟩ | wins
    case inl =>
      rw [if_pos (.inl rfl)]
      exact ⟨⟨[], [], rfl, nofun⟩, fun c' hm => List.mem_singleton.mp hm ▸ .refl _⟩
    case inr =>
      have hlast0 : last.outcome ≠ 0 := hc last (List.mem_append_left _ wins.mem)
      by_cases hbeats : p.outcomes.Beats last.outcome c.outcome
      case pos =>
        rw [if_neg (by simp [hlast0, hbeats])]
        have ⟨before, after, hcs, hb⟩ := wins.first
        refine ⟨⟨before, after ++ [c], by rw [hcs, List.append_assoc, List.cons_append], hb⟩,
          fun c' hm => ?_⟩
        rcases List.mem_append.mp hm with hm | hm
        · exact wins.beats c' hm
        · exact List.mem_singleton.mp hm ▸ hbeats
      case neg =>
        rw [if_pos (.inr hbeats)]
        refine ⟨⟨cs, [], rfl, fun c' hm he => hbeats (he ▸ wins.beats c' hm)⟩, fun c' hm => ?_⟩
        rcases List.mem_append.mp hm with hm | hm
        · exact (OutcomeTable.beats_of_not hbeats).trans (wins.beats c' hm)
        · exact List.mem_singleton.mp hm ▸ .refl _

end Reduction

section Candidates

variable (p : Program) (read : LaneReader)

def clauseCandidate (requirementRow requirement : Nat) (truth : Truth) (clause : Nat) :
    Except Panic OutcomeCandidate := do
  if truth = ⟨true, false⟩ then resolveActiveClause p read requirement clause
  else
    let root ← fetch p.requirementRoots requirementRow
    let sourceNode ← fetch p.requirementSourceNodeIDs requirementRow
    resolveApplicability p read requirement clause root sourceNode

def requirementCandidates (requirementRow : Nat) : Except Panic (List OutcomeCandidate) := do
  let truth ← read.truth (← fetch p.requirementRoots requirementRow)
  if truth = ⟨false, true⟩ then return []
  else
    let requirement ← fetch p.requirementIDs requirementRow
    (Region.read p.requirementClauseIDs (p.requirementClauseStarts.getD requirementRow 0)
      (p.requirementClauseCounts.getD requirementRow 0)).mapM
      (clauseCandidate p read requirementRow requirement truth)

def rowCandidates : Except Panic (List OutcomeCandidate) := do
  return (← (List.range p.requirementIDs.length).mapM (requirementCandidates p read)).flatten

-- A requirement that the index leaves out is definitely inapplicable.
def LeavesOutInapplicable (candidates : List Word) : Prop :=
  ∀ i < p.requirementIDs.length, bit candidates i = false →
    ∃ root, fetch p.requirementRoots i = .ok root ∧ read.truth root = .ok ⟨false, true⟩

variable {p read} {requirementRow requirement clause : Nat} {truth : Truth}
  {best best' c : OutcomeCandidate}

theorem resolveClause_eq : resolveClause p read requirementRow requirement truth best clause =
    clauseCandidate p read requirementRow requirement truth clause >>=
      preferExecutionCandidate p best := by
  unfold resolveClause clauseCandidate
  split
  case isTrue => rfl
  case isFalse => simp only [bind_assoc]

theorem visitRequirement_eq_ok {candidates : List Word} {s s' : RowScan}
    (hleft : LeavesOutInapplicable p read candidates) (hlt : requirementRow < p.requirementIDs.length)
    (h : visitRequirement p read candidates s requirementRow = .ok s') :
    ∃ cs, requirementCandidates p read requirementRow = .ok cs ∧
      cs.foldlM (preferExecutionCandidate p) s.best = .ok s'.best := by
  unfold visitRequirement at h
  split at h
  case isTrue hb =>
    cases h
    have ⟨root, hr, ht⟩ := hleft requirementRow hlt (by simpa using hb)
    refine ⟨[], ?_, rfl⟩
    simp only [requirementCandidates, hr, ht, ok_bind]
    rfl
  case isFalse =>
    have ⟨root, hr, h⟩ := of_bind h
    have ⟨truth, ht, h⟩ := of_bind h
    simp only [requirementCandidates, hr, ht, ok_bind]
    split at h
    case isTrue hf =>
      cases h
      exact ⟨[], if_pos hf, rfl⟩
    case isFalse hf =>
      have ⟨requirement, hq, h⟩ := of_bind h
      have ⟨best, hbest, h⟩ := of_bind h
      cases h
      rw [if_neg hf, hq, ok_bind]
      have hloop : resolveClause p read requirementRow requirement truth = fun best clause =>
          clauseCandidate p read requirementRow requirement truth clause >>=
            preferExecutionCandidate p best := funext₂ fun _ _ => resolveClause_eq
      rw [resolveClauses, hloop] at hbest
      exact mapM_of_foldlM_eq_ok hbest

theorem rowCandidates_of_scan {candidates : List Word} {s : RowScan}
    (hleft : LeavesOutInapplicable p read candidates)
    (h : (List.range p.requirementIDs.length).foldlM (visitRequirement p read candidates) {} = .ok s) :
    ∃ cs, rowCandidates p read = .ok cs ∧ cs.foldlM (preferExecutionCandidate p) {} = .ok s.best := by
  have ⟨css, hcss, hs⟩ := foldlM_range (P := fun i s => ∃ css,
      (List.range i).mapM (requirementCandidates p read) = .ok css ∧
      css.flatten.foldlM (preferExecutionCandidate p) {} = .ok s.best) h ⟨[], rfl, rfl⟩
    fun i s s' hi hv ⟨css, hcss, hs⟩ => by
      have ⟨cs, hcs, hs'⟩ := visitRequirement_eq_ok hleft hi hv
      refine ⟨css ++ [cs], ?_, ?_⟩
      · rw [List.range_succ, List.mapM_append, hcss, ok_bind, List.mapM_cons, hcs]
        rfl
      · rw [List.flatten_append, List.flatten_singleton, List.foldlM_append, hs, ok_bind, hs']
  exact ⟨css.flatten, by rw [rowCandidates, hcss]; rfl, hs⟩

end Candidates
end NornRune
