import NornRune.Execution.Theorems.Prepare

open Bitplane Checked

namespace NornRune

def Outcome.of (dst : ResultBatch) : Except Fault Unit → Outcome
  | .ok () => .returned dst
  | .error (.panic _) => .panicked
  | .error f => .failed f

namespace Executor

variable {k : Kernels} {heap : Heap} {addr : Nat} {e : Executor} {batch : Batch} {dst : ResultBatch}
  {mode : ExecutionMode} {sizes : ExecutionSizes}

-- The bindings that an evaluator keeps between calls. Those of the program that was executed last
-- all belong to that program, which has passed its check.
structure Cached (heap : Heap) (e : Executor) : Prop where
  clean : Clean e.factBuilder.valueRows
  program : ∀ addr, e.program = some addr →
    e.query = some addr ∧ e.states.program = some addr ∧ validExecutionSemantics (heap addr)
  query : ∀ addr, e.query = some addr → (heap addr).applicabilityIndex.validBoundPolicy
  states : ∀ addr, e.states.program = some addr →
    EvidenceStateIndex.classify (heap addr) = some e.states.reasons

theorem cached_zero (heap : Heap) : Cached heap zero where
  clean := clean_empty
  program _ h := by cases h
  query _ h := by cases h
  states _ h := by cases h

theorem Frame.cached {e' : Executor} (frame : Frame e e') (h : e.Cached heap) : e'.Cached heap where
  clean := frame.factBuilder ▸ h.clean
  program := by
    rw [frame.program, frame.query, frame.states]
    exact h.program
  query := frame.query ▸ h.query
  states := frame.states ▸ h.states

theorem Selected.cached {e' : Executor} (sel : Selected e e') (h : e.Cached heap) :
    e'.Cached heap where
  clean := sel.factBuilder ▸ h.clean
  program := by
    rw [sel.program, sel.query, sel.states]
    exact h.program
  query := sel.query ▸ h.query
  states := sel.states ▸ h.states

namespace Cached

theorem check_eq (h : e.Cached heap) :
    checkExecution (e.program != some addr) (heap addr) batch =
      checkExecution true (heap addr) batch := by
  refine checkExecution_rebind fun he => (h.program addr ?_).2.2
  simpa using he

theorem prepare_error (h : e.Cached heap) {f : Fault}
    (hc : checkExecution true (heap addr) batch = .error f) :
    prepareExecution heap e dst addr batch mode = (e, dst, .error f) := by
  simp only [prepareExecution, h.check_eq, hc]

theorem prepare_invalid (h : e.Cached heap)
    (hc : checkExecution true (heap addr) batch = .ok sizes)
    (hv : (heap addr).applicabilityIndex.validBoundPolicy = false) :
    prepareExecution heap e dst addr batch mode = (e, dst, .error .invalidProgram) := by
  have hq : e.query ≠ some addr := fun hq => by simp [h.query addr hq] at hv
  have hp : e.program ≠ some addr := fun hp => hq (h.program addr hp).1
  have hb : e.bind heap addr = (e, .error .invalidProgram) := by
    simp [Executor.bind, bindQuery, hq, hv]
  simp only [prepareExecution, hc, bne_iff_ne.mpr hp, if_true, hb]

theorem bind_ok (h : e.Cached heap) (hc : ExecutionChecked (heap addr) batch sizes)
    (hv : (heap addr).applicabilityIndex.validBoundPolicy) :
    ∃ reasons, EvidenceStateIndex.classify (heap addr) = some reasons ∧
      (if e.program != some addr then e.bind heap addr else (e, .ok ())) =
        ({ e with query := some addr, states := ⟨some addr, reasons⟩ }, .ok ()) := by
  have ⟨reasons, hr, _⟩ := hc.classify
  have states_eq : e.states.program = some addr → e.states = ⟨some addr, reasons⟩ := fun hs => by
    have := h.states addr hs
    rw [hr, Option.some.injEq] at this
    rw [this, ← hs]
  refine ⟨reasons, hr, ?_⟩
  by_cases hp : e.program = some addr
  case pos =>
    have ⟨hq, hs, _⟩ := h.program addr hp
    rw [if_neg (by simp [hp]), ← hq, hq, ← states_eq hs, ← hq]
  case neg =>
    have hq : e.bindQuery heap addr = some { e with query := some addr } := by
      rw [bindQuery, hv]
      split
      case isTrue hq => rw [← hq]
      case isFalse => rfl
    have hs : e.states.bind heap addr = some ⟨some addr, reasons⟩ := by
      unfold EvidenceStateIndex.bind
      split
      case isTrue hs => rw [states_eq hs]
      case isFalse => rw [hr, Option.map_some]
    rw [if_pos (bne_iff_ne.mpr hp)]
    simp only [Executor.bind, hq, hs]

theorem buildFactIndex_ok (h : Clean e.factBuilder.valueRows)
    (hspec : (heap addr).factIndexSpec.valid (heap addr).fieldIndex (heap addr).programSymbolCount)
    (hcolumns : validExecutionBatchColumns (heap addr) batch) (hrows : batch.rows ≤ maxUint32)
    (mode : ExecutionMode) :
    ∃ factBuilder factIndex, e.buildFactIndex heap addr batch mode =
        ({ e with factBuilder, factIndex }, .ok ()) ∧
      Clean factBuilder.valueRows ∧ factIndex.Sound heap addr batch := by
  unfold buildFactIndex
  simp only
  split
  case isTrue => exact ⟨e.factBuilder, e.factIndex.reset, rfl, h, FactIndex.sound_reset _ _ _ _⟩
  case isFalse =>
    have ⟨b, index, hb⟩ := exists_build_of_columns hspec hcolumns hrows e.factBuilder
    have built := FactBuilder.build_eq_ok h hb
    simp only [hb]
    exact ⟨b, index, rfl, built.clean, built.sound hspec⟩

-- After a successful preparation the evaluator is bound to the program and its scratch has the right
-- size, but the contents of the scratch are whatever earlier calls left there.
theorem prepare_ok (h : e.Cached heap) (hc : checkExecution true (heap addr) batch = .ok sizes)
    (hv : (heap addr).applicabilityIndex.validBoundPolicy) (dst : ResultBatch) (mode : ExecutionMode) :
    ∃ e', prepareExecution heap e dst addr batch mode = (e', .filled batch.rows [], .ok ()) ∧
      e'.Cached heap ∧ e'.Ready heap addr batch.rows ∧ e'.Bound heap addr batch ∧
      e'.Selecting heap addr := by
  have checked := checkExecution_eq_ok hc
  obtain ⟨reasons, hr, hb⟩ := h.bind_ok checked hv
  obtain ⟨builder, index, hf, clean, sound⟩ := @buildFactIndex_ok _ _
    { e with query := some addr, states := ⟨some addr, reasons⟩ } _ h.clean checked.factSpec
    checked.columns checked.rows_le mode
  have hreset := dst.reset_eq (n := batch.rows) (by
    have := checked.rows_le
    simp only [maxUint32, maxInt] at *
    omega)
  obtain ⟨_, hr', hl⟩ := checked.classify
  rw [hr, Option.some.injEq] at hr'
  simp only [prepareExecution, h.check_eq, hc, hb, hf, hreset]
  refine ⟨_, rfl, ⟨clean, ?_, ?_, ?_⟩, ⟨rfl, ?_, ?_⟩, ⟨rfl, ?_, sound⟩,
    ⟨rfl, Policy.valid_of_validBoundPolicy hv, ?_, ?_, ?_⟩⟩
  case refine_1 =>
    rintro _ ⟨⟩
    exact ⟨rfl, rfl, checked.semantics⟩
  case refine_2 =>
    rintro _ ⟨⟩
    exact hv
  case refine_3 =>
    rintro _ ⟨⟩
    exact hr
  case refine_4 => exact (Slice.len_resize ..).trans checked.truthLen
  case refine_5 => exact (Slice.len_resize ..).trans checked.reasonLen
  case refine_6 => exact hr' ▸ hl
  all_goals exact Slice.len_resize ..

end Cached

theorem accepted_of_checked (h : ExecutionChecked (heap addr) batch sizes) :
    Accepted heap addr batch where
  sched := h.sched
  queries := h.queries
  fits := Batch.fits_of_valid h.columns
  evidence uses := evidenceFits_of_valid (h.evidence uses)

-- A call delivers what the batch evaluates to, whatever the evaluator and the destination were used
-- for before and whichever mode and kernels are used.
theorem executeMode_spec (k : Kernels) (cached : e.Cached heap) (dst : ResultBatch) (addr : Nat)
    (batch : Batch) (mode : ExecutionMode) :
    (executeMode k heap e dst addr batch mode).1.Cached heap ∧
      Outcome.of (executeMode k heap e dst addr batch mode).2.1
        (executeMode k heap e dst addr batch mode).2.2 = (heap addr).evaluate batch := by
  cases hc : checkExecution true (heap addr) batch
  case error f =>
    simp only [executeMode, cached.prepare_error hc, Program.evaluate, hc]
    refine ⟨cached, ?_⟩
    rcases checkExecution_error hc with rfl | rfl <;> rfl
  case ok sizes =>
    have checked := checkExecution_eq_ok hc
    cases hv : (heap addr).applicabilityIndex.validBoundPolicy
    case false =>
      simp only [executeMode, cached.prepare_invalid hc hv, Program.evaluate, hc, hv]
      exact ⟨cached, rfl⟩
    case true =>
      have ⟨e₁, h₁, cached₁, ready₁, bound₁, sel₁⟩ := cached.prepare_ok hc hv dst mode
      have acc := accepted_of_checked checked
      have ⟨e₂, res, h₂, frame₂, hres⟩ := executeScheduleMode_spec k mode acc ready₁ bound₁
      have hclass := cached₁.states addr bound₁.states
      have cached₂ := frame₂.cached cached₁
      have heval : (heap addr).evaluate batch =
          .ofRows ((heap addr).evalRows e₁.states.reasons batch) := by
        simp only [Program.evaluate, hc, hv, Bool.not_true, Bool.false_eq_true, if_false, hclass]
      rw [heval]
      rcases hres with ⟨text, rfl, hcode⟩ | ⟨code, rfl, hcode, hl⟩
      case inl =>
        have hx : executeMode k heap e dst addr batch mode =
            (e₂, .filled batch.rows [], .error (.panic text)) := by
          simp only [executeMode, h₁, h₂]
        rw [hx]
        refine ⟨cached₂, ?_⟩
        cases hcode' : (heap addr).code
        case ok code => exact absurd hcode' (hcode code)
        case error =>
          rw [Program.evalRows, hcode']
          rfl
      case inr =>
        have sel₂ : e₂.Selecting heap addr := ⟨frame₂.query ▸ sel₁.query, sel₁.valid,
          frame₂.candidateWords ▸ sel₁.candidates, frame₂.selectorValues ▸ sel₁.values,
          frame₂.selectorPresent ▸ sel₁.present⟩
        rw [← frame₂.states] at hl ⊢
        rcases finalizeResults_spec acc.sched acc.fits checked.selectors sel₂ (frame₂.ready ready₁) hl
          (Nat.le_refl _) with ⟨rs, hm, hlen, e₃, selected, _, hf⟩ | ⟨⟨text, hm⟩, text', hf⟩
        case inl =>
          have hx : executeMode k heap e dst addr batch mode =
              (e₃, .filled batch.rows rs, .ok ()) := by
            simp only [executeMode, h₁, h₂, finalizeResults, hf]
          rw [hx, Program.evalRows, hcode, Except.bind, hm]
          refine ⟨selected.cached cached₂, ?_⟩
          change Outcome.returned _ = .returned (.filled rs.length rs)
          rw [hlen]
        case inr =>
          have hx : executeMode k heap e dst addr batch mode =
              (e₂, .filled batch.rows [], .error (.panic text')) := by
            simp only [executeMode, h₁, h₂, finalizeResults, hf]
          rw [hx, Program.evalRows, hcode, Except.bind, hm]
          exact ⟨cached₂, rfl⟩

end Executor
end NornRune
