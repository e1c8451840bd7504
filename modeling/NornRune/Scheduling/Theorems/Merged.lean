import NornRune.Scheduling.Merge
import NornRune.Scheduling.Theorems.Merge

open Bitplane
open Ragged (Cuts)

namespace NornRune

section Validation

variable {offsets : List Nat} {edges rows total count n : Nat}

theorem validShardCSR_eq_some_iff :
    validShardCSR offsets edges rows = some n ↔
      rows + 1 ≤ maxInt ∧ Cuts offsets edges rows ∧ n = edges := by
  have hcond : (maxInt < rows + 1 ∨ offsets.length ≠ rows + 1 ∨ offsets.getD 0 0 ≠ 0 ∨
      !(List.range rows).all (fun i => decide (offsets.getD i 0 ≤ offsets.getD (i + 1) 0)) ∨
      offsets.getD (offsets.length - 1) 0 ≠ edges) ↔
      ¬(rows + 1 ≤ maxInt ∧ Cuts offsets edges rows) := by
    rw [← not_iff_not, not_not]
    constructor
    · intro h
      simp only [not_or, ne_eq, not_not, Nat.not_lt, Bool.not_eq_true', Bool.not_eq_false,
        List.all_eq_true, List.mem_range, decide_eq_true_eq] at h
      obtain ⟨hmax, hsize, hfirst, hmono, hlast⟩ := h
      rw [hsize, Nat.add_sub_cancel] at hlast
      exact ⟨hmax, hsize, hfirst, hmono, hlast⟩
    · rintro ⟨hmax, cuts⟩
      simp only [not_or, ne_eq, not_not, Nat.not_lt, Bool.not_eq_true', Bool.not_eq_false,
        List.all_eq_true, List.mem_range, decide_eq_true_eq]
      refine ⟨hmax, cuts.size, cuts.first, cuts.mono, ?_⟩
      rw [cuts.size, Nat.add_sub_cancel, cuts.last]
  have hlast (h : Cuts offsets edges rows) : offsets.getD (offsets.length - 1) 0 = edges := by
    rw [h.size, Nat.add_sub_cancel, h.last]
  rw [validShardCSR]
  split
  case isTrue h =>
    have := hcond.mp h
    simp only [reduceCtorEq, false_iff]
    exact fun h => this ⟨h.1, h.2.1⟩
  case isFalse h =>
    obtain ⟨hmax, cuts⟩ := not_not.mp fun hn => h (hcond.mpr hn)
    rw [Option.some.injEq, hlast cuts, eq_comm]
    exact ⟨fun h => ⟨hmax, cuts, h⟩, fun h => h.2.2⟩

theorem addMergeEdges_eq_some_iff :
    addMergeEdges total count = some n ↔ total + count ≤ maxUint32 ∧ n = total + count := by
  rw [addMergeEdges]
  split
  case isTrue h => simp [Nat.not_le_of_lt h]
  case isFalse h => simp [Nat.le_of_not_lt h, @eq_comm _ n]

end Validation

namespace ResultBatch

-- A batch whose offsets cut each of its edge columns into one piece for each row.
structure WellFormed (b : ResultBatch) : Prop where
  outcomes : b.outcomeIDs.length = b.rows
  requirements : Cuts b.requirementOffsets b.requirementIDs.length b.rows
  drivers : Cuts b.driverOffsets b.driverRequirements.length b.rows
  driverClauses : b.driverClauses.length = b.driverRequirements.length
  driverNodes : b.driverNodes.length = b.driverRequirements.length
  driverReasons : b.driverReasons.length = b.driverRequirements.length
  driverExplanations : b.driverExplanations.length = b.driverRequirements.length
  evidence : Cuts b.evidenceOffsets b.evidenceIDs.length b.rows
  reasons : Cuts b.reasonOffsets b.reasonIDs.length b.rows
  reasonNodes : b.reasonNodes.length = b.reasonIDs.length
  reasonEvidenceIDs : b.reasonEvidenceIDs.length = b.reasonIDs.length
  reasonEvidenceStates : b.reasonEvidenceStates.length = b.reasonIDs.length
  remediations : Cuts b.remediationOffsets b.remediationIDs.length b.rows

def rowEdges (b : ResultBatch) (r : Nat) : List (List Nat) := [
  Ragged.slice b.requirementOffsets b.requirementIDs r,
  Ragged.slice b.driverOffsets b.driverRequirements r,
  Ragged.slice b.driverOffsets b.driverClauses r,
  Ragged.slice b.driverOffsets b.driverNodes r,
  Ragged.slice b.driverOffsets b.driverReasons r,
  Ragged.slice b.driverOffsets b.driverExplanations r,
  Ragged.slice b.evidenceOffsets b.evidenceIDs r,
  Ragged.slice b.reasonOffsets b.reasonIDs r,
  Ragged.slice b.reasonOffsets b.reasonNodes r,
  Ragged.slice b.reasonOffsets b.reasonEvidenceIDs r,
  Ragged.slice b.reasonOffsets b.reasonEvidenceStates r,
  Ragged.slice b.remediationOffsets b.remediationIDs r
]

end ResultBatch

namespace MergeTotals

def add (t : MergeTotals) (b : ResultBatch) : MergeTotals where
  requirements := t.requirements + b.requirementIDs.length
  drivers := t.drivers + b.driverRequirements.length
  evidence := t.evidence + b.evidenceIDs.length
  reasons := t.reasons + b.reasonIDs.length
  remediations := t.remediations + b.remediationIDs.length

structure Within (t : MergeTotals) : Prop where
  requirements : t.requirements ≤ maxUint32
  drivers : t.drivers ≤ maxUint32
  evidence : t.evidence ≤ maxUint32
  reasons : t.reasons ≤ maxUint32
  remediations : t.remediations ≤ maxUint32

end MergeTotals

structure Continues (rows covered : Nat) (b : ResultBatch) (range : RowRange) : Prop where
  start : range.start = covered
  le : range.start ≤ range.stop
  stop_le : range.stop ≤ rows
  rows : range.stop - range.start = b.rows
  size : b.rows + 1 ≤ maxInt
  formed : b.WellFormed

variable {b : ResultBatch} {range : RowRange}

theorem checkShard_eq_some_iff {rows covered : Nat} {t : MergeTotals} {s : Nat × MergeTotals} :
    checkShard rows (covered, t) (b, range) = some s ↔
      Continues rows covered b range ∧ (t.add b).Within ∧ s = (range.stop, t.add b) := by
  simp only [checkShard, Option.bind_eq_bind, Option.bind_eq_some_iff, validShardCSR_eq_some_iff,
    addMergeEdges_eq_some_iff, Option.guard_eq_some', Option.pure_def, Option.some.injEq]
  constructor
  · rintro ⟨_, ⟨hstart, hle, hstop, hrows, hout⟩, _, ⟨hsize, hreq, rfl⟩, _, ⟨_, hdrv, rfl⟩, _,
      ⟨hclauses, hnodes, hreasons, hexpl⟩, _, ⟨_, hev, rfl⟩, _, ⟨_, hreason, rfl⟩, _,
      ⟨hrnodes, hrev, hrstates⟩, _, ⟨_, hrem, rfl⟩, _, ⟨h₁, rfl⟩, _, ⟨h₂, rfl⟩, _, ⟨h₃, rfl⟩, _,
      ⟨h₄, rfl⟩, _, ⟨h₅, rfl⟩, rfl⟩
    exact ⟨⟨hstart, hle, hstop, hrows, hsize, hout, hreq, hdrv, hclauses, hnodes, hreasons, hexpl, hev,
      hreason, hrnodes, hrev, hrstates, hrem⟩, ⟨h₁, h₂, h₃, h₄, h₅⟩, rfl⟩
  · rintro ⟨h, within, rfl⟩
    have formed := h.formed
    exact ⟨(), ⟨h.start, h.le, h.stop_le, h.rows, formed.outcomes⟩,
      _, ⟨h.size, formed.requirements, rfl⟩, _, ⟨h.size, formed.drivers, rfl⟩,
      (), ⟨formed.driverClauses, formed.driverNodes, formed.driverReasons, formed.driverExplanations⟩,
      _, ⟨h.size, formed.evidence, rfl⟩, _, ⟨h.size, formed.reasons, rfl⟩,
      (), ⟨formed.reasonNodes, formed.reasonEvidenceIDs, formed.reasonEvidenceStates⟩,
      _, ⟨h.size, formed.remediations, rfl⟩, _, ⟨within.requirements, rfl⟩, _, ⟨within.drivers, rfl⟩,
      _, ⟨within.evidence, rfl⟩, _, ⟨within.reasons, rfl⟩, _, ⟨within.remediations, rfl⟩, rfl⟩

section Copying

variable {base cell rows : Nat} {dst source : List Nat}

theorem rebaseCells_eq_ok (h : cell + source.length ≤ dst.length) :
    rebaseCells base dst cell source = .ok (rebaseShardOffsets dst cell source base) := by
  induction source generalizing dst cell
  case nil => rw [rebaseCells, rebaseShardOffsets, List.map_nil, Region.write_nil]
  case cons offset source ih =>
    rw [List.length_cons] at h
    have hlt : cell < dst.length := by omega
    rw [rebaseCells, if_pos hlt, ih (by rw [List.length_set]; omega), rebaseShardOffsets,
      rebaseShardOffsets, List.map_cons, Region.write_set_succ hlt]

theorem rebaseOffsets_eq_ok (put : List Nat → ResultBatch) (h : cell + source.length ≤ dst.length) :
    ResultBatch.rebaseOffsets put dst cell source base =
      .ok (put (rebaseShardOffsets dst cell source base)) := by
  rw [ResultBatch.rebaseOffsets, rebaseCells_eq_ok h]

structure RowShaped (rows : Nat) (dst : ResultBatch) : Prop where
  outcomes : dst.outcomeIDs.length = rows
  requirements : dst.requirementOffsets.length = rows + 1
  drivers : dst.driverOffsets.length = rows + 1
  evidence : dst.evidenceOffsets.length = rows + 1
  reasons : dst.reasonOffsets.length = rows + 1
  remediations : dst.remediationOffsets.length = rows + 1

theorem RowShaped.mergeShard {dst : ResultBatch} (h : RowShaped rows dst) (shard : ResultBatch × RowRange) :
    RowShaped rows (mergeShard dst shard) where
  outcomes := (Region.length_write ..).trans h.outcomes
  requirements := (Region.length_write ..).trans h.requirements
  drivers := (Region.length_write ..).trans h.drivers
  evidence := (Region.length_write ..).trans h.evidence
  reasons := (Region.length_write ..).trans h.reasons
  remediations := (Region.length_write ..).trans h.remediations

theorem rowShaped_reset {dst dst' : ResultBatch} (h : dst.reset rows = some dst') : RowShaped rows dst' := by
  rw [ResultBatch.reset] at h
  obtain ⟨_, h⟩ := Checked.ite_eq_of_ne h (by rintro ⟨⟩)
  cases h
  constructor <;> simp

theorem copyShard_eq_ok {dst b : ResultBatch} {range : RowRange} {covered : Nat} (h : RowShaped rows dst)
    (hb : Continues rows covered b range) :
    dst.copyShard (b, range) = .ok (NornRune.mergeShard dst (b, range)) := by
  have hle := hb.le
  have hstop := hb.stop_le
  have hrows := hb.rows
  have formed := hb.formed
  have fits {offsets column : List Nat} (hcuts : Cuts offsets column.length b.rows) {cells : Nat}
      (hcells : cells = rows + 1) : range.start + offsets.length ≤ cells := by
    rw [hcuts.size]
    omega
  have hout : b.outcomeIDs.take (range.stop - range.start) = b.outcomeIDs :=
    List.take_of_length_le (by rw [formed.outcomes, hrows])
  simp only [ResultBatch.copyShard, ResultBatch.copyOutcomes, hle, h.outcomes, hstop, and_self, if_true,
    hout, Checked.ok_bind, rebaseOffsets_eq_ok _ (fits formed.requirements h.requirements),
    rebaseOffsets_eq_ok _ (fits formed.drivers h.drivers),
    rebaseOffsets_eq_ok _ (fits formed.evidence h.evidence),
    rebaseOffsets_eq_ok _ (fits formed.reasons h.reasons),
    rebaseOffsets_eq_ok _ (fits formed.remediations h.remediations)]
  rfl

theorem copyShards_eq_ok {dst : ResultBatch} {shards : List (ResultBatch × RowRange)}
    {s s' : Nat × MergeTotals} (h : RowShaped rows dst) (hcheck : shards.foldlM (checkShard rows) s = some s') :
    shards.foldlM ResultBatch.copyShard dst = .ok (shards.foldl NornRune.mergeShard dst) := by
  induction shards generalizing dst s
  case nil => rfl
  case cons shard shards ih =>
    rw [List.foldlM_cons, Option.bind_eq_bind, Option.bind_eq_some_iff] at hcheck
    have ⟨s₁, hshard, hrest⟩ := hcheck
    have ⟨continues, _⟩ := checkShard_eq_some_iff.mp hshard
    rw [List.foldlM_cons, copyShard_eq_ok h continues, Checked.ok_bind, List.foldl_cons]
    exact ih (h.mergeShard shard) hrest

end Copying

theorem mergeInto_eq (dst : ResultBatch) (shards : List ResultBatch) (ranges : List RowRange)
    (rows : Nat) :
    dst.mergeInto shards ranges rows =
      match mergeResults dst shards ranges rows with
      | .ok merged => (merged, .returned)
      | .error e => (dst, .failed e) := by
  rw [ResultBatch.mergeInto, mergeResults]
  split
  case isTrue => rfl
  case isFalse =>
    cases hcheck : (List.zip shards ranges).foldlM (checkShard rows) (0, {})
    case none => rfl
    case some s =>
      simp only
      split
      case isTrue => rfl
      case isFalse =>
        cases hreset : dst.reset rows
        case none => rfl
        case some fresh =>
          simp only [copyShards_eq_ok (rowShaped_reset hreset) hcheck]

namespace ResultBatch

section Rows

def driverColumn (b : ResultBatch) : List Driver :=
  (List.range b.driverRequirements.length).map fun i => {
    requirement := b.driverRequirements.getD i 0
    clause := b.driverClauses.getD i 0
    node := b.driverNodes.getD i 0
    reason := b.driverReasons.getD i 0
    explanation := b.driverExplanations.getD i 0
  }

def reasonColumn (b : ResultBatch) : List ReasonEntry :=
  (List.range b.reasonIDs.length).map fun i => {
    reason := b.reasonIDs.getD i 0
    node := b.reasonNodes.getD i 0
    evidence := b.reasonEvidenceIDs.getD i 0
    evidenceState := b.reasonEvidenceStates.getD i 0
  }

def rowResults (b : ResultBatch) : List RowResult :=
  (List.range b.rows).map fun r => {
    outcome := b.outcomeIDs.getD r 0
    requirements := Ragged.slice b.requirementOffsets b.requirementIDs r
    drivers := Ragged.slice b.driverOffsets b.driverColumn r
    evidence := Ragged.slice b.evidenceOffsets b.evidenceIDs r
    reasons := Ragged.slice b.reasonOffsets b.reasonColumn r
    remediations := Ragged.slice b.remediationOffsets b.remediationIDs r
  }

variable {b : ResultBatch}

theorem map_range_getD {column : List Nat} {n : Nat} (h : column.length = n) :
    (List.range n).map (fun i => column.getD i 0) = column := by
  apply List.ext_getElem
  case hl => simp [h]
  case h =>
    intro i h₁ h₂
    rw [List.getElem_map, List.getElem_range, List.getD_eq_getElem _ _ h₂]

@[simp]
theorem length_rowResults (b : ResultBatch) : b.rowResults.length = b.rows := by
  simp [rowResults]

theorem offsets_slices_eq {α : Type} {cuts : List Nat} {column : List α} {rows : Nat}
    (h : Cuts cuts column.length rows) (hmax : column.length ≤ maxUint32) :
    offsets (Ragged.slices cuts column rows) = cuts := by
  rw [offsets_eq (by rwa [h.flatten_slices]), h.offsets_slices]

theorem WellFormed.cuts_drivers (h : b.WellFormed) : Cuts b.driverOffsets b.driverColumn.length b.rows := by
  simpa [driverColumn] using h.drivers

theorem WellFormed.cuts_reasons (h : b.WellFormed) : Cuts b.reasonOffsets b.reasonColumn.length b.rows := by
  simpa [reasonColumn] using h.reasons

theorem WellFormed.ofRows_rowResults (h : b.WellFormed) (within : (MergeTotals.add {} b).Within) :
    ofRows b.rowResults = b := by
  have hreq : b.requirementIDs.length ≤ maxUint32 := by simpa [MergeTotals.add] using within.requirements
  have hdrv : b.driverColumn.length ≤ maxUint32 := by
    simpa [MergeTotals.add, driverColumn] using within.drivers
  have hev : b.evidenceIDs.length ≤ maxUint32 := by simpa [MergeTotals.add] using within.evidence
  have hreason : b.reasonColumn.length ≤ maxUint32 := by
    simpa [MergeTotals.add, reasonColumn] using within.reasons
  have hrem : b.remediationIDs.length ≤ maxUint32 := by
    simpa [MergeTotals.add] using within.remediations
  have rows {α : Type} (f : RowResult → List α) {cuts : List Nat} {column : List α}
      (hf : b.rowResults.map f = Ragged.slices cuts column b.rows)
      (hcuts : Cuts cuts column.length b.rows) (hmax : column.length ≤ maxUint32) :
      offsets (b.rowResults.map f) = cuts ∧ (b.rowResults.map f).flatten = column := by
    rw [hf]
    exact ⟨offsets_slices_eq hcuts hmax, hcuts.flatten_slices⟩
  have requirements := rows (·.requirements) (List.map_map ..) h.requirements hreq
  have drivers := rows (·.drivers) (List.map_map ..) h.cuts_drivers hdrv
  have evidence := rows (·.evidence) (List.map_map ..) h.evidence hev
  have reasons := rows (·.reasons) (List.map_map ..) h.cuts_reasons hreason
  have remediations := rows (·.remediations) (List.map_map ..) h.remediations hrem
  have outcomes : b.rowResults.map (·.outcome) = b.outcomeIDs :=
    (List.map_map ..).trans (map_range_getD h.outcomes)
  have driver (f : Driver → Nat) {column : List Nat} (hf : b.driverColumn.map f =
      (List.range b.driverRequirements.length).map fun i => column.getD i 0)
      (hlen : column.length = b.driverRequirements.length) : b.driverColumn.map f = column :=
    hf.trans (map_range_getD hlen)
  have reason (f : ReasonEntry → Nat) {column : List Nat} (hf : b.reasonColumn.map f =
      (List.range b.reasonIDs.length).map fun i => column.getD i 0)
      (hlen : column.length = b.reasonIDs.length) : b.reasonColumn.map f = column :=
    hf.trans (map_range_getD hlen)
  simp only [ofRows, filled, Nat.sub_self, List.replicate_zero, List.append_nil, requirements, drivers,
    evidence, reasons, remediations, outcomes, length_rowResults,
    driver (·.requirement) (List.map_map ..) rfl, driver (·.clause) (List.map_map ..) h.driverClauses,
    driver (·.node) (List.map_map ..) h.driverNodes,
    driver (·.reason) (List.map_map ..) h.driverReasons,
    driver (·.explanation) (List.map_map ..) h.driverExplanations,
    reason (·.reason) (List.map_map ..) rfl, reason (·.node) (List.map_map ..) h.reasonNodes,
    reason (·.evidence) (List.map_map ..) h.reasonEvidenceIDs,
    reason (·.evidenceState) (List.map_map ..) h.reasonEvidenceStates]

def edgesOf (r : RowResult) : List (List Nat) := [
  r.requirements,
  r.drivers.map (·.requirement),
  r.drivers.map (·.clause),
  r.drivers.map (·.node),
  r.drivers.map (·.reason),
  r.drivers.map (·.explanation),
  r.evidence,
  r.reasons.map (·.reason),
  r.reasons.map (·.node),
  r.reasons.map (·.evidence),
  r.reasons.map (·.evidenceState),
  r.remediations
]

variable {rs : List RowResult}

theorem rowEdges_ofRows (h : Bounded rs) {i : Nat} {r : RowResult} (hi : rs[i]? = some r) :
    (ofRows rs).rowEdges i = edgesOf r := by
  have row {α : Type} (f : RowResult → List α) (hf : (rs.map f).flatten.length ≤ maxUint32) :
      Ragged.slice (offsets (rs.map f)) (rs.map f).flatten i = f r := by
    rw [offsets_eq hf]
    exact Ragged.slice_offsets (by rw [List.getElem?_map, hi, Option.map_some])
  simp only [rowEdges, ofRows, filled, Nat.sub_self, List.replicate_zero, List.append_nil,
    Ragged.slice_map, row _ h.requirements, row _ h.drivers, row _ h.evidence, row _ h.reasons,
    row _ h.remediations, edgesOf]

theorem getElem?_outcomeIDs_ofRows (i : Nat) :
    (ofRows rs).outcomeIDs[i]? = rs[i]?.map (·.outcome) := by
  simp [ofRows, filled]

end Rows
end ResultBatch

section Shards

variable {shards : List ResultBatch} {ranges : List RowRange} {rows start : Nat} {t : MergeTotals}

def Covers (rows : Nat) : Nat → List RowRange → Prop
  | start, [] => start = rows
  | start, range :: rest => range.start = start ∧ start ≤ range.stop ∧ Covers rows range.stop rest

def Answers (shards : List ResultBatch) (ranges : List RowRange) : Prop :=
  List.Forall₂ (fun b range => b.WellFormed ∧ b.rows = range.stop - range.start) shards ranges

structure Mergeable (shards : List ResultBatch) (ranges : List RowRange) (rows : Nat) : Prop where
  covers : Covers rows 0 ranges
  answers : Answers shards ranges
  within : (shards.foldl MergeTotals.add {}).Within

theorem of_checkShards {covered : Nat} {t' : MergeTotals} (hlen : shards.length = ranges.length)
    (h : (List.zip shards ranges).foldlM (checkShard rows) (start, t) = some (covered, t')) :
    Covers covered start ranges ∧ Answers shards ranges ∧ t' = shards.foldl MergeTotals.add t ∧
      (t.Within → t'.Within) := by
  induction shards generalizing ranges start t
  case nil =>
    obtain rfl := List.length_eq_zero_iff.mp hlen.symm
    cases h
    exact ⟨rfl, .nil, rfl, id⟩
  case cons b shards ih =>
    cases ranges
    case nil => cases hlen
    case cons range ranges =>
      rw [List.zip_cons_cons, List.foldlM_cons, Option.bind_eq_bind, Option.bind_eq_some_iff] at h
      have ⟨s, hshard, hrest⟩ := h
      have ⟨continues, within, hs⟩ := checkShard_eq_some_iff.mp hshard
      subst hs
      have ⟨hcovers, hanswers, ht, hwithin⟩ := ih (Nat.succ.inj hlen) hrest
      refine ⟨⟨continues.start, ?_, hcovers⟩, .cons ⟨continues.formed, continues.rows.symm⟩ hanswers, ht,
        fun _ => hwithin within⟩
      exact continues.start ▸ continues.le

variable {b : ResultBatch}

theorem MergeTotals.Within.of_add (h : (t.add b).Within) :
    t.Within ∧ (MergeTotals.add {} b).Within := by
  have ⟨h₁, h₂, h₃, h₄, h₅⟩ := h
  simp only [MergeTotals.add] at h₁ h₂ h₃ h₄ h₅
  constructor
  · exact ⟨by omega, by omega, by omega, by omega, by omega⟩
  · constructor <;> simp only [MergeTotals.add] <;> omega

theorem MergeTotals.Within.of_foldl (h : (shards.foldl MergeTotals.add t).Within) :
    t.Within ∧ ∀ b ∈ shards, (MergeTotals.add {} b).Within := by
  induction shards generalizing t
  case nil => exact ⟨h, by simp⟩
  case cons b shards ih =>
    have ⟨hadd, hrest⟩ := ih h
    exact ⟨hadd.of_add.1, List.forall_mem_cons.mpr ⟨hadd.of_add.2, hrest⟩⟩

theorem MergeTotals.of_append_rowResults (h : b.WellFormed) (ls : List RowResult) :
    MergeTotals.of (ls ++ b.rowResults) = (MergeTotals.of ls).add b := by
  have rows {α : Type} (f : RowResult → List α) {cuts : List Nat} {column : List α}
      (hf : b.rowResults.map f = Ragged.slices cuts column b.rows)
      (hcuts : Cuts cuts column.length b.rows) :
      ((ls ++ b.rowResults).map f).flatten.length = (ls.map f).flatten.length + column.length := by
    rw [List.map_append, List.flatten_append, List.length_append, hf, hcuts.flatten_slices]
  have drivers := rows (·.drivers) (List.map_map ..) h.cuts_drivers
  have reasons := rows (·.reasons) (List.map_map ..) h.cuts_reasons
  rw [ResultBatch.driverColumn, List.length_map, List.length_range] at drivers
  rw [ResultBatch.reasonColumn, List.length_map, List.length_range] at reasons
  simp only [MergeTotals.of, MergeTotals.add, rows (·.requirements) (List.map_map ..) h.requirements,
    drivers, rows (·.evidence) (List.map_map ..) h.evidence, reasons,
    rows (·.remediations) (List.map_map ..) h.remediations]

section

variable (h : Answers shards ranges)
include h

theorem Answers.totals (ls : List RowResult) :
    MergeTotals.of (ls ++ (shards.map (·.rowResults)).flatten) =
      shards.foldl MergeTotals.add (MergeTotals.of ls) := by
  induction h generalizing ls
  case nil => simp
  case cons b range shards ranges hb _ ih =>
    rw [List.map_cons, List.flatten_cons, ← List.append_assoc, ih, List.foldl_cons,
      MergeTotals.of_append_rowResults hb.1]

theorem Answers.spans (hc : Covers rows start ranges) :
    ranges = spans start (shards.map (·.rowResults)) ∧
      rows = start + (shards.map (·.rowResults)).flatten.length := by
  induction h generalizing start
  case nil => exact ⟨rfl, hc.symm⟩
  case cons b range shards ranges hb _ ih =>
    have ⟨hstart, hle, hrest⟩ := hc
    have hstop : range.stop = start + b.rowResults.length := by
      rw [ResultBatch.length_rowResults, hb.2, hstart]
      omega
    have ⟨hspans, hrows⟩ := ih hrest
    rw [List.map_cons, NornRune.spans, ← hstop, ← hspans, List.flatten_cons, List.length_append]
    refine ⟨?_, by rw [hrows, hstop, Nat.add_assoc]⟩
    rw [← hstart]

theorem Answers.map_ofRows (hw : ∀ b ∈ shards, (MergeTotals.add {} b).Within) :
    (shards.map (·.rowResults)).map ResultBatch.ofRows = shards := by
  induction h
  case nil => rfl
  case cons b range shards ranges hb _ ih =>
    have ⟨hwb, hw⟩ := List.forall_mem_cons.mp hw
    rw [List.map_cons, List.map_cons, hb.1.ofRows_rowResults hwb, ih hw]

theorem Answers.formed (hb : b ∈ shards) : b.WellFormed :=
  have ⟨_, _, hformed, _⟩ := Checked.exists_of_forall₂ h hb
  hformed

end

theorem MergeTotals.Within.bounded {rs : List RowResult} (h : (MergeTotals.of rs).Within) : Bounded rs :=
  ⟨h.requirements, h.drivers, h.evidence, h.reasons, h.remediations⟩

theorem Mergeable.mergeResults_eq (h : Mergeable shards ranges rows) (hne : shards ≠ [])
    (hrows : rows ≤ maxUint32) (dst : ResultBatch) :
    mergeResults dst shards ranges rows = .ok (.ofRows (shards.map (·.rowResults)).flatten) ∧
      Bounded (shards.map (·.rowResults)).flatten := by
  have hw := h.within
  have htotals := h.answers.totals []
  rw [List.nil_append] at htotals
  have hwithin : (MergeTotals.of (shards.map (·.rowResults)).flatten).Within := htotals ▸ hw
  have hbounded := hwithin.bounded
  have ⟨hspans, hlen⟩ := h.answers.spans h.covers
  rw [Nat.zero_add] at hlen
  have hmax : (shards.map (·.rowResults)).flatten.length + 1 ≤ maxInt := by
    rw [← hlen]
    simp only [maxUint32, maxInt] at hrows ⊢
    omega
  have := mergeResults_eq_ok (by simpa using hne) hbounded hmax dst
  rw [h.answers.map_ofRows hw.of_foldl.2, ← hspans, ← hlen] at this
  exact ⟨this, hbounded⟩

theorem mergeable_of_mergeResults {dst merged : ResultBatch}
    (h : mergeResults dst shards ranges rows = .ok merged) :
    shards ≠ [] ∧ Mergeable shards ranges rows := by
  rw [mergeResults] at h
  obtain ⟨hlen, h⟩ := Checked.ite_eq_of_ne h (by rintro ⟨⟩)
  rw [not_or, not_not] at hlen
  split at h
  case h_1 => cases h
  case h_2 covered t hcheck =>
    obtain ⟨hcovered, h⟩ := Checked.ite_eq_of_ne h (by rintro ⟨⟩)
    obtain ⟨hcovers, hanswers, ht, hwithin⟩ := of_checkShards hlen.2 hcheck
    have hzero : MergeTotals.Within {} := by constructor <;> simp
    refine ⟨fun hnil => hlen.1 (by rw [hnil, List.length_nil]), ?_, hanswers, ht ▸ hwithin hzero⟩
    rwa [not_not.mp hcovered] at hcovers

end Shards

theorem getElem?_flatten_rowResults {shards : List ResultBatch} {ranges : List RowRange}
    {rows start i r : Nat} (h : Answers shards ranges) (hc : Covers rows start ranges)
    (hb : shards[i]? = some b) (hrange : ranges[i]? = some range) (hr : r < b.rows) :
    (shards.map (·.rowResults)).flatten[range.start - start + r]? = b.rowResults[r]? ∧
      start ≤ range.start := by
  induction h generalizing start i
  case nil => cases hb
  case cons b₀ range₀ shards ranges hb₀ _ ih =>
    have ⟨hstart, hle, hrest⟩ := hc
    rw [List.map_cons, List.flatten_cons]
    cases i
    case zero =>
      cases hb
      cases hrange
      rw [hstart, Nat.sub_self, Nat.zero_add,
        List.getElem?_append_left (by rwa [ResultBatch.length_rowResults])]
      exact ⟨rfl, Nat.le_refl _⟩
    case succ i =>
      have ⟨hget, hle'⟩ := ih hrest hb hrange
      have hlen : b₀.rowResults.length = range₀.stop - start := by
        rw [ResultBatch.length_rowResults, hb₀.2, hstart]
      refine ⟨?_, Nat.le_trans hle hle'⟩
      rw [List.getElem?_append_right (by omega), hlen, ← hget]
      congr 1
      omega

-- Merging either fails and leaves the destination unchanged, or it keeps the edges of each row. It
-- succeeds exactly if there are shards, and they are results for ranges that cover the rows.
theorem mergeInto_atomic (dst : ResultBatch) (shards : List ResultBatch) (ranges : List RowRange)
    (rows : Nat) (hrows : rows ≤ maxUint32) :
    ((dst.mergeInto shards ranges rows).2 = .returned ∨
      ∃ e, dst.mergeInto shards ranges rows = (dst, .failed e)) ∧
    ((dst.mergeInto shards ranges rows).2 = .returned ↔
      shards ≠ [] ∧ Mergeable shards ranges rows) ∧
    ((dst.mergeInto shards ranges rows).2 = .returned → ∀ (i : Nat) (b : ResultBatch)
      (range : RowRange), shards[i]? = some b → ranges[i]? = some range → ∀ r < b.rows,
      (dst.mergeInto shards ranges rows).1.rowEdges (range.start + r) = b.rowEdges r ∧
      (dst.mergeInto shards ranges rows).1.outcomeIDs[range.start + r]? = b.outcomeIDs[r]?) := by
  rw [mergeInto_eq]
  cases hm : mergeResults dst shards ranges rows
  case error e =>
    refine ⟨.inr ⟨e, rfl⟩, ⟨fun h => (nomatch h), fun ⟨hne, hmergeable⟩ => ?_⟩, fun h => (nomatch h)⟩
    rw [(hmergeable.mergeResults_eq hne hrows dst).1] at hm
    cases hm
  case ok merged =>
    have ⟨hne, hmergeable⟩ := mergeable_of_mergeResults hm
    have ⟨hmerged, hbounded⟩ := hmergeable.mergeResults_eq hne hrows dst
    rw [hm] at hmerged
    cases hmerged
    refine ⟨.inl rfl, iff_of_true rfl ⟨hne, hmergeable⟩, fun _ i b range hb hrange r hr => ?_⟩
    have hmem := List.mem_of_getElem? hb
    have hw := hmergeable.within.of_foldl.2 b hmem
    have hformed := hmergeable.answers.formed hmem
    have ⟨row, hrow⟩ : ∃ row, b.rowResults[r]? = some row :=
      ⟨_, List.getElem?_eq_getElem (by rwa [ResultBatch.length_rowResults])⟩
    have ⟨hget, _⟩ := getElem?_flatten_rowResults hmergeable.answers hmergeable.covers hb hrange hr
    rw [Nat.sub_zero, hrow] at hget
    -- The shard is made of its rows as well, so both sides are the edges of the same row.
    have hshard : b.rowEdges r = ResultBatch.edgesOf row := by
      have hof := MergeTotals.of_append_rowResults hformed []
      rw [List.nil_append] at hof
      have hsmall : (MergeTotals.of b.rowResults).Within := hof ▸ hw
      rw [← ResultBatch.rowEdges_ofRows hsmall.bounded hrow, hformed.ofRows_rowResults hw]
    have hout : b.outcomeIDs[r]? = some row.outcome := by
      rw [← hformed.ofRows_rowResults hw, ResultBatch.getElem?_outcomeIDs_ofRows, hrow, Option.map_some]
    rw [ResultBatch.rowEdges_ofRows hbounded hget, hshard, ResultBatch.getElem?_outcomeIDs_ofRows, hget,
      hout, Option.map_some]
    exact ⟨rfl, rfl⟩

def shardOfOne : ResultBatch :=
  .ofRows [⟨2, [1], [⟨1, 1, 3, 4, 5⟩], [7], [⟨4, 3, 7, 6⟩], []⟩]

def shardOfTwo : ResultBatch :=
  .ofRows [⟨1, [], [], [], [], []⟩, ⟨3, [2], [⟨2, 2, 1, 1, 1⟩], [8, 9], [], [1]⟩]

theorem mergeInto_atomic_three :
    (ResultBatch.empty.mergeInto [shardOfOne, shardOfTwo] [⟨0, 1⟩, ⟨1, 3⟩] 3).2 = .returned ∧
    (ResultBatch.empty.mergeInto [shardOfOne, shardOfTwo] [⟨0, 1⟩, ⟨1, 3⟩] 3).1.rowEdges 2 =
      shardOfTwo.rowEdges 1 :=
  have h : (ResultBatch.empty.mergeInto [shardOfOne, shardOfTwo] [⟨0, 1⟩, ⟨1, 3⟩] 3).2 = .returned := by
    decide
  ⟨h, ((mergeInto_atomic .empty [shardOfOne, shardOfTwo] [⟨0, 1⟩, ⟨1, 3⟩] 3 (by decide)).2.2 h 1
    shardOfTwo ⟨1, 3⟩ rfl rfl 1 (by decide)).1⟩

-- No ranges cover no rows, but without shards there is nothing to merge.
theorem mergeInto_no_shards :
    Mergeable [] [] 0 ∧
    ResultBatch.empty.mergeInto [] [] 0 = (.empty, .failed .invalidShardResult) :=
  ⟨⟨rfl, .nil, by constructor <;> decide⟩, rfl⟩

end NornRune
