import NornRune.Execution.Theorems.Finalize

open Checked

namespace NornRune

-- The instructions whose results are reported: the roots of requirements and of clauses, and the
-- evidence of clauses.
def Program.resultRoots (p : Program) : List Nat :=
  p.requirementRoots ++ p.clauseAssertionRoots ++
    (List.range p.clauseAssertionRoots.length).flatMap fun row => (p.clauseEvidence row).map (·.1)

def LaneReader.AgreeAt (p : Program) (read read' : LaneReader) : Prop :=
  ∀ id ∈ p.resultRoots, read.truth id = read'.truth id ∧ read.reasons id = read'.reasons id

variable {p : Program} {read read' : LaneReader} {stateReasons : List Nat}

theorem mem_of_fetch {α : Type} {xs : List α} {i : Nat} {x : α} (h : fetch xs i = .ok x) : x ∈ xs :=
  List.mem_of_getElem? (fetch_eq_ok_iff.mp h)

namespace LaneReader.AgreeAt

variable {row root : Nat}

variable (h : AgreeAt p read read')
include h

theorem requirement (hf : fetch p.requirementRoots row = .ok root) :
    read.truth root = read'.truth root ∧ read.reasons root = read'.reasons root :=
  h root (by simp [Program.resultRoots, mem_of_fetch hf])

theorem assertion (hf : fetch p.clauseAssertionRoots row = .ok root) :
    read.truth root = read'.truth root ∧ read.reasons root = read'.reasons root :=
  h root (by simp [Program.resultRoots, mem_of_fetch hf])

theorem evidence (hf : fetch p.clauseAssertionRoots row = .ok root) {edge : Nat × Nat}
    (he : edge ∈ p.clauseEvidence row) :
    read.truth edge.1 = read'.truth edge.1 ∧ read.reasons edge.1 = read'.reasons edge.1 := by
  have hlt := (List.getElem?_eq_some_iff.mp (fetch_eq_ok_iff.mp hf)).1
  refine h edge.1 (List.mem_append_right _ (List.mem_flatMap.mpr ⟨row, ?_, ?_⟩))
  · exact List.mem_range.mpr hlt
  · exact List.mem_map_of_mem he

end LaneReader.AgreeAt

theorem firstEdge_congr {c c' : Nat → Except Panic Bool} {text : String} {edges : List (Nat × Nat)}
    (h : ∀ edge ∈ edges, c edge.1 = c' edge.1) : firstEdge c text edges = firstEdge c' text edges := by
  induction edges
  case nil => rfl
  case cons edge edges ih =>
    rw [firstEdge, firstEdge, h edge List.mem_cons_self,
      ih fun e he => h e (List.mem_cons_of_mem _ he)]

variable (h : LaneReader.AgreeAt p read read')

include h

theorem resolveApplicability_congr {requirement clause root sourceNode : Nat}
    (hr : root ∈ p.resultRoots) :
    resolveApplicability p read requirement clause root sourceNode =
      resolveApplicability p read' requirement clause root sourceNode := by
  rw [resolveApplicability, resolveApplicability, (h root hr).2]

variable {clauseRow assertion : Nat}

theorem firstEdge_negative_congr (ha : fetch p.clauseAssertionRoots clauseRow = .ok assertion)
    (text : String) :
    firstEdge (fun evidence => return (← read.truth evidence).negative) text
        (p.clauseEvidence clauseRow) =
      firstEdge (fun evidence => return (← read'.truth evidence).negative) text
        (p.clauseEvidence clauseRow) :=
  firstEdge_congr fun _ he => by rw [(h.evidence ha he).1]

theorem firstEdge_reason_congr (ha : fetch p.clauseAssertionRoots clauseRow = .ok assertion)
    (reason : Nat) (text : String) :
    firstEdge (fun evidence => return (← read.reasons evidence).has reason) text
        (p.clauseEvidence clauseRow) =
      firstEdge (fun evidence => return (← read'.reasons evidence).has reason) text
        (p.clauseEvidence clauseRow) :=
  firstEdge_congr fun _ he => by rw [(h.evidence ha he).2]

theorem firstNegativeNode_congr (clauseRow : Nat) :
    firstNegativeNode p read clauseRow = firstNegativeNode p read' clauseRow := by
  refine bind_congr_ok fun assertion ha => ?_
  rw [(h.assertion ha).1, firstEdge_negative_congr h ha]

theorem firstReasonNode_congr (clauseRow reason : Nat) :
    firstReasonNode p read clauseRow reason = firstReasonNode p read' clauseRow reason := by
  refine bind_congr_ok fun assertion ha => ?_
  rw [(h.assertion ha).2, firstEdge_reason_congr h ha]

theorem clauseLane_congr (clauseRow : Nat) :
    clauseLane p read clauseRow = clauseLane p read' clauseRow := by
  refine bind_congr_ok fun assertion ha => ?_
  rw [(h.assertion ha).1, (h.assertion ha).2]
  refine bind_congr_ok fun truth _ => bind_congr_ok fun reasons _ => ?_
  exact foldlM_congr (fun lane edge he => by simp only [(h.evidence ha he).1, (h.evidence ha he).2]) _

theorem resolveActiveClause_congr (requirement clause : Nat) :
    resolveActiveClause p read requirement clause = resolveActiveClause p read' requirement clause := by
  simp only [resolveActiveClause, clauseLane_congr h, firstNegativeNode_congr h,
    firstReasonNode_congr h]

theorem reasonProvenance_congr_reader (records : List EvidenceRecord) (candidate : OutcomeCandidate)
    (reason : Nat) :
    reasonProvenance p read stateReasons records candidate reason =
      reasonProvenance p read' stateReasons records candidate reason := by
  simp only [reasonProvenance]
  split
  case isTrue => rfl
  case isFalse =>
    refine bind_congr_ok fun assertion ha => ?_
    rw [(h.assertion ha).2]
    refine bind_congr_ok fun mask _ => ?_
    split
    case isTrue => rfl
    case isFalse => rw [firstEdge_reason_congr h ha]

theorem resolveClause_congr (requirementRow requirement : Nat) (truth : Truth)
    (best : OutcomeCandidate) (clause : Nat) :
    resolveClause p read requirementRow requirement truth best clause =
      resolveClause p read' requirementRow requirement truth best clause := by
  simp only [resolveClause, resolveActiveClause_congr h]
  split
  case isTrue => rfl
  case isFalse =>
    refine bind_congr_ok fun root hr => bind_congr_ok fun node _ => ?_
    rw [resolveApplicability_congr h (by simp [Program.resultRoots, mem_of_fetch hr])]

theorem visitRequirement_congr (candidates : List Bitplane.Word) (s : RowScan) (requirementRow : Nat) :
    visitRequirement p read candidates s requirementRow =
      visitRequirement p read' candidates s requirementRow := by
  simp only [visitRequirement]
  split
  case isTrue => rfl
  case isFalse =>
    refine bind_congr_ok fun root hr => ?_
    rw [(h.requirement hr).1]
    refine bind_congr_ok fun truth _ => ?_
    split
    case isTrue => rfl
    case isFalse =>
      refine bind_congr_ok fun requirement _ => ?_
      rw [resolveClauses, resolveClauses,
        foldlM_congr fun best clause _ => resolveClause_congr h _ _ _ best clause]

theorem finalizeRow_congr (candidates : List Bitplane.Word) (records : List EvidenceRecord) :
    finalizeRow p read candidates stateReasons records =
      finalizeRow p read' candidates stateReasons records := by
  simp only [finalizeRow]
  rw [foldlM_congr fun s row _ => visitRequirement_congr h candidates s row]
  simp only [funext (reasonProvenance_congr_reader h records _)]

end NornRune
