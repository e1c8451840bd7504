import NornRune.Execution.Theorems.Size
import NornRune.Target.Fuel
import NornRune.Target.Theorems.Artifact

open Bitplane

namespace NornRune

section Arithmetic

variable {total : Nat}

theorem addFuel_eq (h : total ≤ maxUint64) (value : Nat) :
    addFuel total value = if total + value ≤ maxUint64 then some (total + value) else none := by
  have hmax : maxUint64 = 2 ^ 64 - 1 := rfl
  unfold addFuel
  split
  case isTrue hlt => rw [if_neg (by omega)]
  case isFalse hle => rw [if_pos (by omega), Nat.mod_eq_of_lt (by omega)]

theorem addFuelProduct_eq (h : total ≤ maxUint64) (product : Nat × Nat) :
    addFuelProduct total product =
      if total + product.1 * product.2 ≤ maxUint64 then some (total + product.1 * product.2)
      else none := by
  unfold addFuelProduct
  split
  case isTrue hc =>
    have hlt := (Nat.div_lt_iff_lt_mul (Nat.pos_of_ne_zero hc.1)).mp hc.2
    rw [Nat.mul_comm] at hlt
    rw [if_neg (by omega)]
  case isFalse hc =>
    have hle : product.1 * product.2 ≤ maxUint64 := by
      rcases Nat.eq_zero_or_pos product.1 with h0 | hpos
      case inl => simp [h0]
      case inr =>
        have := Nat.le_of_not_lt fun hlt => hc ⟨by omega, hlt⟩
        rw [Nat.le_div_iff_mul_le hpos] at this
        rwa [Nat.mul_comm]
    rw [Nat.mod_eq_of_lt (by simp only [maxUint64] at hle; omega), addFuel_eq h]

theorem foldlM_add_eq {α : Type} {add : Nat → α → Option Nat} {f : α → Nat}
    (hadd : ∀ total ≤ maxUint64, ∀ a,
      add total a = if total + f a ≤ maxUint64 then some (total + f a) else none)
    (h : total ≤ maxUint64) (as : List α) :
    as.foldlM add total =
      if total + (as.map f).sum ≤ maxUint64 then some (total + (as.map f).sum) else none := by
  induction as generalizing total
  case nil => simp [h]
  case cons a as ih =>
    rw [List.foldlM_cons, hadd total h, List.map_cons, List.sum_cons, ← Nat.add_assoc]
    split
    case isTrue hle => exact ih hle
    case isFalse hlt =>
      rw [if_neg (by omega)]
      rfl

def exactCost (profile : EvaluationFuelProfile) (input : Batch) : Nat :=
  1 + (fuelTerms input).sum + ((fuelProducts profile input).map fun product => product.1 * product.2).sum +
    input.evidenceRefs.length

theorem evaluationFuelCost_eq (profile : EvaluationFuelProfile) (input : Batch) :
    evaluationFuelCost profile input =
      if exactCost profile input ≤ maxUint64 then some (exactCost profile input) else none := by
  have hterms := @foldlM_add_eq 1 _ addFuel id (fun _ h a => addFuel_eq h a) (by decide)
    (fuelTerms input)
  rw [List.map_id] at hterms
  have hcost : exactCost profile input = 1 + (fuelTerms input).sum +
    ((fuelProducts profile input).map fun product => product.1 * product.2).sum +
      input.evidenceRefs.length := rfl
  rw [evaluationFuelCost, hterms]
  split
  case isFalse hlt =>
    rw [if_neg (by omega)]
    rfl
  case isTrue hle =>
    rw [Option.bind_eq_bind, Option.bind_some,
      foldlM_add_eq (f := fun product => product.1 * product.2) (fun _ h a => addFuelProduct_eq h a) hle]
    split
    case isFalse hlt =>
      rw [if_neg (by omega)]
      rfl
    case isTrue hle' => exact addFuel_eq hle' _

end Arithmetic

section Profile

open EvaluationFuelProfile

theorem count_eq {counts : List Nat} (h : counts.sum < 2 ^ 64) : count counts = counts.sum := by
  have hfold : ∀ total, total + counts.sum < 2 ^ 64 →
      counts.foldl (fun total count => (total + count) % 2 ^ 64) total = total + counts.sum := by
    induction counts
    case nil => exact fun _ _ => rfl
    case cons c cs ih =>
      intro total ht
      rw [List.sum_cons] at h ht ⊢
      rw [List.foldl_cons, Nat.mod_eq_of_lt (by omega), ih (by omega) _ (by omega), Nat.add_assoc]
  have := hfold 0 (by omega)
  rwa [Nat.zero_add] at this

theorem sum_le_length_mul {counts : List Nat} {m : Nat} (h : ∀ c ∈ counts, c ≤ m) :
    counts.sum ≤ counts.length * m := by
  induction counts
  case nil => simp
  case cons c cs ih =>
    have := h c List.mem_cons_self
    have := ih fun c hc => h c (List.mem_cons_of_mem _ hc)
    rw [List.sum_cons, List.length_cons, Nat.succ_mul]
    omega

theorem sum_map_getD_le (counts : List Nat) (keep : Nat → Bool) (n : Nat) :
    ((List.range n).map fun row => if keep row then counts.getD row 0 else 0).sum ≤ counts.sum := by
  have htake : ((List.range n).map fun row => if keep row then counts.getD row 0 else 0).sum ≤
      (counts.take n).sum := by
    induction n
    case zero => exact Nat.le_refl _
    case succ n ih =>
      rw [List.range_succ, List.map_append, List.sum_append, List.map_singleton, List.sum_singleton,
        List.take_add_one, List.sum_append]
      have hlast : (if keep n then counts.getD n 0 else 0) ≤ counts[n]?.toList.sum := by
        rw [List.getD_eq_getElem?_getD]
        cases counts[n]? <;> split <;> simp
      omega
  refine Nat.le_trans htake ?_
  have := congrArg List.sum (List.take_append_drop n counts)
  rw [List.sum_append] at this
  omega

end Profile

-- What an evaluation does, counted.
namespace Program

def groupOperands (p : Program) : Nat :=
  ((List.range p.opcodes.length).map fun row =>
    if p.opcodes.getD row .invalid == .all || p.opcodes.getD row .invalid == .any then
      p.operandCounts.getD row 0
    else 0).sum

-- Whether the clauses of a requirement are visited for a request: the index does not rule it out, and
-- its root is not definitely false.
def visits (p : Program) (stateReasons : List Nat) (code : List Instr) (facts : Row) (row : Nat) : Bool :=
  bit (p.candidates facts) row &&
  match (Lanes.reader p (Lanes.final p stateReasons facts code)).truth (p.requirementRoots.getD row 0) with
  | .ok ⟨false, true⟩ => false
  | _ => true

def clauseVisits (p : Program) (facts : Row) : Nat :=
  match EvidenceStateIndex.classify p, p.code with
  | some stateReasons, .ok code => ((List.range p.requirementIDs.length).map fun row =>
      if p.visits stateReasons code facts row then p.requirementClauseCounts.getD row 0 else 0).sum
  | _, _ => 0

def evidenceInstructions (p : Program) : Nat :=
  (p.opcodes.map fun opcode => if opcode = .evidence then 1 else 0).sum

end Program

def ResultBatch.edges (out : ResultBatch) : Nat :=
  [out.requirementIDs.length, out.driverRequirements.length, out.driverClauses.length,
    out.driverNodes.length, out.driverReasons.length, out.driverExplanations.length,
    out.evidenceIDs.length, out.reasonIDs.length, out.reasonNodes.length, out.reasonEvidenceIDs.length,
    out.reasonEvidenceStates.length, out.remediationIDs.length].sum

-- The instructions on all rows, the operands of groups, the references to evidence for every
-- instruction that looks for evidence, the requirements and their clauses, and the edges of the result.
def Program.work (p : Program) (input : Batch) (out : ResultBatch) : Nat :=
  p.opcodes.length * input.rows + p.groupOperands * input.rows +
  input.evidenceRefs.length * p.evidenceInstructions + p.requirementIDs.length * input.rows +
  ((List.range input.rows).map fun row => p.clauseVisits (input.row row)).sum + out.edges

section Conservative

variable {p : Program} {input : Batch} {sizes : ExecutionSizes} {rs : List RowResult}

theorem edges_ofRows (rs : List RowResult) : (ResultBatch.ofRows rs).edges =
    (rs.map (·.requirements)).flatten.length + 5 * (rs.map (·.drivers)).flatten.length +
      (rs.map (·.evidence)).flatten.length + 4 * (rs.map (·.reasons)).flatten.length +
      (rs.map (·.remediations)).flatten.length := by
  simp only [ResultBatch.edges, ResultBatch.ofRows, ResultBatch.filled, List.length_map, List.sum_cons,
    List.sum_nil]
  generalize (rs.map (·.requirements)).flatten.length = requirements
  generalize (rs.map (·.drivers)).flatten.length = drivers
  generalize (rs.map (·.evidence)).flatten.length = evidence
  generalize (rs.map (·.reasons)).flatten.length = reasons
  omega

theorem Sized.edges_le (h : Sized p input rs) :
    (ResultBatch.ofRows rs).edges ≤ input.rows * p.requirementIDs.length + 5 * input.rows +
      input.evidenceRefs.length + 4 * (input.rows * reasonCount) +
      input.rows * maxExecutionRemediations p := by
  have hevidence : (rs.map (·.evidence)).flatten.length ≤ input.evidenceRefs.length := by
    refine Nat.le_trans h.evidence ?_
    split
    case isTrue => exact Nat.le_refl _
    case isFalse => exact Nat.zero_le _
  rw [edges_ofRows]
  have hdrivers := Nat.mul_one input.rows ▸ h.drivers
  exact Nat.add_le_add (Nat.add_le_add (Nat.add_le_add (Nat.add_le_add h.requirements
    (Nat.mul_le_mul_left 5 hdrivers)) hevidence) (Nat.mul_le_mul_left 4 h.reasons)) h.remediations

theorem Program.clauseVisits_le (p : Program) (facts : Row) :
    p.clauseVisits facts ≤ p.requirementClauseCounts.sum := by
  unfold clauseVisits
  split
  case h_1 stateReasons code _ _ =>
    exact sum_map_getD_le p.requirementClauseCounts (p.visits stateReasons code facts) _
  case h_2 => exact Nat.zero_le _

theorem sum_clauseVisits_le (p : Program) (input : Batch) :
    ((List.range input.rows).map fun row => p.clauseVisits (input.row row)).sum ≤
      input.rows * p.requirementClauseCounts.sum := by
  have hle : ∀ c ∈ (List.range input.rows).map (fun row => p.clauseVisits (input.row row)),
      c ≤ p.requirementClauseCounts.sum := by
    intro c hc
    have ⟨row, _, hrow⟩ := List.mem_map.mp hc
    exact hrow ▸ p.clauseVisits_le _
  have := sum_le_length_mul hle
  rwa [List.length_map, List.length_range] at this

def Program.exactProfile (p : Program) : EvaluationFuelProfile where
  instructions := p.opcodes.length
  evidenceInstructions := p.evidenceInstructions
  listItems := p.listCounts.sum
  operandEdges := p.operandCounts.sum
  requirements := p.requirementIDs.length
  requirementClauses := p.requirementClauseIDs.length
  maxRemediations := maxExecutionRemediations p

theorem profile_eq (narrow : p.Narrow) (checked : ExecutionChecked p input sizes) :
    newEvaluationFuelProfile p = p.exactProfile := by
  have hsched := checked.semantics
  simp only [validExecutionSemantics, validExecutionSchedule, Bool.and_eq_true, beq_iff_eq,
    decide_eq_true_eq] at hsched
  replace hsched := hsched.1.1.1.1.1.1.1.1.1
  have hn : p.opcodes.length ≤ maxUint32 := hsched.1.1.1.1.1.1.1.1.1.1.1.1.1.1.1.1.1.1.1.2
  have hlists : p.listCounts.length = p.opcodes.length := hsched.1.1.1.1.1.1.1.1.1.1.1.1.1.1.1.2
  have hoperands : p.operandCounts.length = p.opcodes.length := hsched.1.1.1.1.1.1.1.1.1.1.1.1.1.2
  clear hsched
  have bound {counts : List Nat} {m : Nat} (hlen : counts.length = p.opcodes.length) (hm : m < 2 ^ 16)
      (h : ∀ c ∈ counts, c ≤ m) : counts.sum < 2 ^ 64 := by
    have := sum_le_length_mul h
    have hmax : maxUint32 = 2 ^ 32 - 1 := rfl
    have : counts.length * m ≤ 2 ^ 32 * 2 ^ 16 := Nat.mul_le_mul (by omega) (by omega)
    omega
  have hevidence : (p.opcodes.map fun opcode => if opcode = .evidence then 1 else 0).sum < 2 ^ 64 := by
    refine bound (m := 1) (List.length_map _) (by decide) fun c hc => ?_
    obtain ⟨opcode, _, hop⟩ := List.mem_map.mp hc
    split at hop <;> omega
  have h₁ := count_eq (bound hlists (m := 2 ^ 16 - 1) (by decide) fun c hc =>
    Nat.le_pred_of_lt (narrow.counts c (List.mem_append_left _ hc)))
  have h₂ := count_eq (bound hoperands (m := 2 ^ 16 - 1) (by decide) fun c hc =>
    Nat.le_pred_of_lt (narrow.counts c (List.mem_append_right _ hc)))
  simp only [newEvaluationFuelProfile, Program.exactProfile, count_eq hevidence, h₁, h₂,
    Program.evidenceInstructions, maxExecutionRemediations, List.foldl_append]

theorem work_le_exactCost (sized : Sized p input rs)
    (ranges : p.requirementClauseCounts.sum ≤ p.requirementClauseIDs.length) :
    p.work input (.ofRows rs) ≤ exactCost p.exactProfile input := by
  have hedges := sized.edges_le
  have hclauses := Nat.le_trans (sum_clauseVisits_le p input) (Nat.mul_le_mul_left input.rows ranges)
  have hgroups : p.groupOperands ≤ p.operandCounts.sum := sum_map_getD_le p.operandCounts
    (fun row => p.opcodes.getD row .invalid == .all || p.opcodes.getD row .invalid == .any) _
  have hrows : input.rows ≤ max input.rows 1 := Nat.le_max_left ..
  have h₁ : p.opcodes.length * input.rows ≤ max input.rows 1 * p.opcodes.length :=
    Nat.mul_comm .. ▸ Nat.mul_le_mul_right _ hrows
  have h₂ : p.groupOperands * input.rows ≤ max input.rows 1 * p.operandCounts.sum :=
    Nat.mul_comm .. ▸ Nat.mul_le_mul hrows hgroups
  have h₃ := Nat.mul_comm p.requirementIDs.length input.rows
  have h₄ := Nat.mul_assoc input.rows reasonCount 4
  simp only [Program.work, exactCost, Program.exactProfile, fuelProducts, List.map_cons, List.map_nil, List.sum_cons,
    List.sum_nil]
  generalize max input.rows 1 = workRows at h₁ h₂ ⊢
  clear hgroups hrows ranges
  omega

-- The cost of an evaluation that succeeds covers what is done, as far as the ranges of clauses do not
-- overlap.
theorem work_le_of_evaluate {out : ResultBatch} {cost : Nat} (narrow : p.Narrow)
    (hout : p.evaluate input = .returned out)
    (hcost : evaluationFuelCost (newEvaluationFuelProfile p) input = some cost) :
    cost = exactCost p.exactProfile input ∧
      (p.requirementClauseCounts.sum ≤ p.requirementClauseIDs.length → p.work input out ≤ cost) := by
  have ⟨sizes, _, rs, checked, _, _, hrs, heq⟩ := evaluate_eq_returned hout
  rw [profile_eq narrow checked, evaluationFuelCost_eq] at hcost
  split at hcost
  case isFalse => cases hcost
  case isTrue =>
    cases hcost
    exact ⟨rfl, fun ranges => heq ▸ work_le_exactCost (sized_evalRows checked hrs) ranges⟩

end Conservative

section Monotone

structure Batch.NoLarger (a b : Batch) : Prop where
  symbolValues : a.symbolValues.length ≤ b.symbolValues.length
  integerValues : a.integerValues.length ≤ b.integerValues.length
  timestampValues : a.timestampValues.length ≤ b.timestampValues.length
  booleanValues : a.booleanValues.length ≤ b.booleanValues.length
  presenceMasks : a.presenceMasks.length ≤ b.presenceMasks.length
  requestIDs : a.requestIDs.length ≤ b.requestIDs.length
  evidenceOffsets : a.evidenceOffsets.length ≤ b.evidenceOffsets.length
  evidenceRefs : a.evidenceRefs.length ≤ b.evidenceRefs.length
  evidence : a.evidence.ids.length ≤ b.evidence.ids.length
  rows : a.rows ≤ b.rows

theorem exactCost_mono (profile : EvaluationFuelProfile) {a b : Batch} (h : a.NoLarger b) :
    exactCost profile a ≤ exactCost profile b := by
  have hrows : max a.rows 1 ≤ max b.rows 1 := max_le_max_right 1 h.rows
  simp only [exactCost, fuelTerms, fuelProducts, List.map_cons, List.map_nil, List.sum_cons, List.sum_nil]
  have ⟨h₁, h₂, h₃, h₄, h₅, h₆, h₇, h₈, h₉, h₀⟩ := h
  gcongr

-- A larger batch never costs less, and if its cost can be computed then so can that of the smaller one.
theorem evaluationFuelCost_mono (profile : EvaluationFuelProfile) {a b : Batch} (h : a.NoLarger b)
    {cost : Nat} (hb : evaluationFuelCost profile b = some cost) :
    ∃ cost' ≤ cost, evaluationFuelCost profile a = some cost' := by
  have hle := exactCost_mono profile h
  rw [evaluationFuelCost_eq] at hb
  split at hb
  case isFalse => cases hb
  case isTrue hmax =>
    cases hb
    exact ⟨_, hle, by rw [evaluationFuelCost_eq, if_pos (Nat.le_trans hle hmax)]⟩

end Monotone
end NornRune
