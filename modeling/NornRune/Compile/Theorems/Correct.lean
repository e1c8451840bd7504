import NornRune.Compile.Theorems.Indexes
import NornRune.Compile.Theorems.Tables
import NornRune.Scheduling.Theorems.Partition

open Checked

-- Running a compiled program evaluates the expressions of its document.
namespace NornRune

-- The nodes of a document that decide about a request, each with the instruction that the program has
-- for it.
inductive CompiledRoot (doc : Document) (p : Program) : Nat → Nat → Prop
  | requirement {i : Nat} (lt : i < doc.requirementIDs.length) :
      CompiledRoot doc p (doc.requirementApplicabilityRoots.getD i 0) (p.requirementRoots.getD i 0)
  | assertion {i : Nat} (lt : i < doc.clauseAssertionRoots.length) :
      CompiledRoot doc p (doc.clauseAssertionRoots.getD i 0) (p.clauseAssertionRoots.getD i 0)
  | evidence {i edge : Nat} (lt : i < doc.clauseAssertionRoots.length)
      (mem : edge ∈ List.range' (doc.clauseEvidenceStarts.getD i 0) (doc.clauseEvidenceCounts.getD i 0)) :
      CompiledRoot doc p (doc.clauseEvidenceNodeIDs.getD edge 0) (p.clauseEvidenceIDs.getD edge 0)

namespace Lineage

variable {doc : Document} {fields : Schema} {symbols : Interner} {p : Program} {code : List Instr}

theorem getD_mem {xs : List Nat} {i : Nat} (h : i < xs.length) : xs.getD i 0 ∈ xs := by
  rw [List.getD_eq_getElem _ _ h]
  exact List.getElem_mem h

structure RootAt (doc : Document) (t : InstructionTable) (nodeRoots : List RootFlags) (order : List Nat)
    (node id b : Nat) : Prop where
  mem : node ∈ order
  flag : (nodeRoots.getD (node - 1) 0#8).getLsbD b
  instruction : rootInstruction t doc.nodeKinds.length node = .ok id

variable (h : Lineage doc fields symbols p)
include h

theorem rootAt_of_mem {node id : Nat}
    (hi : rootInstruction h.t.toInstructionTable doc.nodeKinds.length node = .ok id) :
    (node ∈ doc.requirementApplicabilityRoots →
      RootAt doc h.t.toInstructionTable h.nodeRoots h.order node id 0) ∧
    (node ∈ doc.clauseAssertionRoots →
      RootAt doc h.t.toInstructionTable h.nodeRoots h.order node id 1) ∧
    (node ∈ doc.clauseEvidenceNodeIDs →
      RootAt doc h.t.toInstructionTable h.nodeRoots h.order node id 2) := by
  have ⟨_, _, hflags⟩ := markRootFlags_eq_ok h.tr.flags
  refine ⟨fun hm => ?_, fun hm => ?_, fun hm => ?_⟩
  all_goals
    have hn : node ∈ h.order := h.tr.roots node (Sorted.mem_sortUnique.mpr (by simp [hm]))
    have ⟨h0, hlt⟩ := Lowering.nodeInRange_iff.mp (h.tr.sound.inRange node hn)
    have hf := hflags (node - 1) hlt
    rw [Nat.sub_add_cancel (Nat.pos_of_ne_zero h0)] at hf
    refine ⟨hn, ?_, hi⟩
    rw [hf]
    simp [hm, RootFlags.applicability, RootFlags.assertion, RootFlags.evidence]

theorem requirementAt {i : Nat} (hi : i < doc.requirementIDs.length) :
    RootAt doc h.t.toInstructionTable h.nodeRoots h.order
      (doc.requirementApplicabilityRoots.getD i 0) (p.requirementRoots.getD i 0) 0 := by
  have requirements := (lowerSemantics_eq_ok h.low.semantics).requirements
  have ⟨roots, lowered, hr⟩ := lowerRequirements_eq_ok requirements
  have ⟨hlen, _⟩ := of_guard requirements
  simp only [not_or, not_not] at hlen
  rw [h.low.columns.requirementRoots, hr]
  exact (h.rootAt_of_mem (lowered.root i hi)).1 (getD_mem (hlen.1 ▸ hi))

theorem assertionAt {i : Nat} (hi : i < doc.clauseAssertionRoots.length) :
    RootAt doc h.t.toInstructionTable h.nodeRoots h.order
      (doc.clauseAssertionRoots.getD i 0) (p.clauseAssertionRoots.getD i 0) 1 := by
  have ⟨w, lowered, hc⟩ := lowerClauses_eq_ok (lowerSemantics_eq_ok h.low.semantics).clauses
  rw [h.low.columns.clauseAssertionRoots, hc]
  exact (h.rootAt_of_mem (lowered.clause i hi).assertion).2.1 (getD_mem hi)

theorem evidenceAt {i edge : Nat} (hi : i < doc.clauseAssertionRoots.length)
    (he : edge ∈ List.range' (doc.clauseEvidenceStarts.getD i 0) (doc.clauseEvidenceCounts.getD i 0)) :
    RootAt doc h.t.toInstructionTable h.nodeRoots h.order
      (doc.clauseEvidenceNodeIDs.getD edge 0) (p.clauseEvidenceIDs.getD edge 0) 2 := by
  have ⟨w, lowered, hc⟩ := lowerClauses_eq_ok (lowerSemantics_eq_ok h.low.semantics).clauses
  have clause := lowered.clause i hi
  have hedge := List.mem_range'_1.mp he
  have := clause.range
  rw [h.low.columns.clauseEvidenceIDs, hc]
  exact (h.rootAt_of_mem (clause.edge edge he).root).2.2 (getD_mem (by omega))

theorem rootAt {node id : Nat} (root : CompiledRoot doc p node id) :
    ∃ b, RootAt doc h.t.toInstructionTable h.nodeRoots h.order node id b := by
  cases root
  case requirement hi => exact ⟨0, h.requirementAt hi⟩
  case assertion hi => exact ⟨1, h.assertionAt hi⟩
  case evidence hi he => exact ⟨2, h.evidenceAt hi he⟩

theorem solves (hc : p.code = .ok code) (stateReasons : List Nat) (facts : Row) :
    Dataflow.Solves (rowSemantics (leafValue p stateReasons facts)) h.t.rows
      (codeValues code stateReasons facts) := by
  intro i row hi
  have ⟨code', hc', hrows⟩ := h.code
  cases hc.symm.trans hc'
  have ⟨instr, hinstr, hr⟩ := hrows i row hi
  have ⟨_, _, hnot⟩ := h.instr hi
  calc codeValues code stateReasons facts (i + 1)
    _ = instr.lane stateReasons facts (codeValues code stateReasons facts) :=
      codeValues_succ h.scheduled hc hinstr stateReasons facts
    _ = row.toCandidate.denote (leafValue p stateReasons facts) (codeValues code stateReasons facts) := by
      refine Candidate.lane_eq_denote hr (fun ho hnil => ?_) stateReasons facts _
      have := hnot ho
      rw [hnil] at this
      cases this

theorem lane (hc : p.code = .ok code) (stateReasons : List Nat) (facts : Row) {node : Nat}
    (hn : node ∈ h.order) (hl : h.live.getD (h.l.canon node - 1) false) :
    doc.lane p.fieldIndex p.lookupSymbol stateReasons facts doc.len node =
      some (codeValues code stateReasons facts (h.f (h.l.canon node))) := by
  have hordered : Dataflow.Ordered (rowSemantics (leafValue p stateReasons facts)) h.l.rows :=
    h.tr.sound.ordered
  have hsolves := hordered.solves fun _ => ⟨.bottom, 0#16⟩
  have hcanon := h.tr.sound.canon_le hn
  rw [h.tr.sound.lane h.low h.named h.parts hsolves hn, (h.tr.image.embeds _).value hordered hsolves
    (h.solves hc stateReasons facts) hcanon.1 hcanon.2 hl]

end Lineage

section Execution

variable {doc : Document} {fields : Schema} {symbols : Interner} {heap : Heap} {addr : Nat}
  {e : Executor} {batch : Batch}

-- What is assumed about an evaluator before it runs the schedule of a program on a batch: its scratch
-- has the size that the program needs, its bindings are those of the program, and the batch has the
-- columns and the evidence that the program knows about. A successful preparation leaves an evaluator
-- in this state.
structure Executor.Prepared (heap : Heap) (addr : Nat) (batch : Batch) (e : Executor) : Prop where
  ready : e.Ready heap addr batch.rows
  bound : e.Bound heap addr batch
  fits : batch.Fits (heap addr)
  evidence : (heap addr).usesEvidence → ∀ row, EvidenceFits (heap addr) (batch.rowEvidence row)

theorem Executor.Cached.prepared_cached {e' : Executor} {dst dst' : ResultBatch} {mode : ExecutionMode}
    (cached : e.Cached heap)
    (h : prepareExecution heap e dst addr batch mode = (e', dst', .ok ())) :
    e'.Prepared heap addr batch ∧ e'.Cached heap := by
  cases hc : checkExecution true (heap addr) batch
  case error f =>
    rw [cached.prepare_error hc] at h
    cases h
  case ok sizes =>
    cases hv : (heap addr).applicabilityIndex.validBoundPolicy
    case false =>
      rw [cached.prepare_invalid hc hv] at h
      cases h
    case true =>
      have ⟨e₁, h₁, cached', ready, bound, _⟩ := cached.prepare_ok hc hv dst mode
      rw [h₁] at h
      cases h
      have acc := accepted_of_checked (checkExecution_eq_ok hc)
      exact ⟨⟨ready, bound, acc.fits, acc.evidence⟩, cached'⟩

-- The schedule of a compiled program runs to its end, and its roots then have their values.
theorem Executor.executeScheduleMode_values (k : Kernels) (mode : ExecutionMode)
    (compiled : lower doc fields symbols = .ok (heap addr)) (prepared : e.Prepared heap addr batch) :
    ∃ e' code, executeScheduleMode k heap e addr batch mode = (e', .ok ()) ∧
      (heap addr).code = .ok code ∧ Accepted heap addr batch ∧ (heap addr).slotsKept ∧
      ∀ node id, CompiledRoot doc (heap addr) node id → id ≠ 0 ∧ id ≤ code.length ∧
        ∀ r < batch.rows, (e'.lanes batch.rows r).value (heap addr) id =
            codeValues code e.states.reasons (batch.row r) id ∧
          doc.lane (heap addr).fieldIndex (heap addr).lookupSymbol e.states.reasons (batch.row r)
            doc.len node = some (codeValues code e.states.reasons (batch.row r) id) := by
  have ⟨h⟩ := Lineage.of_lower compiled
  have acc : Accepted heap addr batch := ⟨h.scheduled, h.queries, prepared.fits, prepared.evidence⟩
  have ⟨code, hc, _⟩ := h.code
  have ⟨e', res, he, _, hres⟩ := executeScheduleMode_spec k mode acc prepared.ready prepared.bound
  rcases hres with ⟨_, _, hno⟩ | ⟨code', rfl, hc', hagree⟩
  case inl => exact absurd hc (hno code)
  case inr =>
  cases hc.symm.trans hc'
  refine ⟨e', code, he, hc, acc, h.slotsKept, fun node id hroot => ?_⟩
  have ⟨b, hat⟩ := h.rootAt hroot
  have ⟨hlive, hid, row, hrow, h0, hflag⟩ := h.tr.root hat.mem hat.flag hat.instruction
  have hlt := (List.getElem?_eq_some_iff.mp hrow).1
  have hneed : (heap addr).needed code.length id := by
    refine Program.needed_iff.mpr (.inl ?_)
    rw [h.low.columns.rootFlags, getD_map_rows hrow]
    intro hz
    simp [hz] at hflag
  have hle : id ≤ code.length := by
    rw [length_code hc, h.length_opcodes]
    omega
  refine ⟨h0, hle, fun r hr => ⟨?_, ?_⟩⟩
  case refine_1 =>
    have hvalue := value_run_of_slotsKept h.slotsKept h.scheduled hc (batch.row r) Lanes.clear
      (Nat.le_refl _) h0 hle (.inl hneed) e.states.reasons
    rw [List.take_length] at hvalue
    rw [(hagree r hr).value h0 (length_code hc ▸ hle), Lanes.final, hvalue]
  case refine_2 =>
    rw [hid]
    exact h.lane hc e.states.reasons (batch.row r) hat.mem hlive

theorem Executor.executeScheduleMode_refines (k : Kernels) (mode : ExecutionMode)
    (compiled : lower doc fields symbols = .ok (heap addr)) (prepared : e.Prepared heap addr batch) :
    ∃ e', executeScheduleMode k heap e addr batch mode = (e', .ok ()) ∧
      ∀ node id, CompiledRoot doc (heap addr) node id → ∀ r < batch.rows,
        doc.lane (heap addr).fieldIndex (heap addr).lookupSymbol e.states.reasons (batch.row r)
          doc.len node = some ((e'.lanes batch.rows r).value (heap addr) id) := by
  have ⟨e', _, he, _, _, _, hroots⟩ := executeScheduleMode_values k mode compiled prepared
  refine ⟨e', he, fun node id hroot r hr => ?_⟩
  have ⟨hvalue, hlane⟩ := (hroots node id hroot).2.2 r hr
  rw [hvalue, hlane]

end Execution

theorem Executor.executeScheduleMode_refines_nested : ∃ e e',
    executeScheduleMode .portable (fun _ => nestedProgram) e 0 (Scheduler.alternating 1) .auto = (e', .ok ()) ∧
      (e'.lanes 1 0).value nestedProgram (nestedProgram.requirementRoots.getD 0 0) = ⟨.top, 0#16⟩ := by
  have hprepare : (prepareExecution (fun _ => nestedProgram) zero .empty 0 (Scheduler.alternating 1)
      .auto).2.2 = .ok () := by decide +kernel
  have prepared : (prepareExecution (fun _ => nestedProgram) zero .empty 0 (Scheduler.alternating 1)
      .auto).1.Prepared (fun _ => nestedProgram) 0 (Scheduler.alternating 1) :=
    ((cached_zero _).prepared_cached (Prod.ext rfl (Prod.ext rfl hprepare))).1
  have ⟨e', he, hroots⟩ := executeScheduleMode_refines .portable .auto lower_nestedPolicy prepared
  have hvalue := hroots _ _ (.requirement (by decide : 0 < nestedPolicy.requirementIDs.length)) 0 Nat.one_pos
  have hlane : nestedPolicy.lane nestedProgram.fieldIndex nestedProgram.lookupSymbol
      (prepareExecution (fun _ => nestedProgram) zero .empty 0 (Scheduler.alternating 1)
        .auto).1.states.reasons ((Scheduler.alternating 1).row 0) nestedPolicy.len
      (nestedPolicy.requirementApplicabilityRoots.getD 0 0) = some ⟨.top, 0#16⟩ := by decide +kernel
  exact ⟨_, e', he, Option.some.inj (hvalue.symm.trans hlane)⟩

end NornRune
