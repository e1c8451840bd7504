import NornRune.Scheduling.Theorems.Partition
import NornRune.Target.Theorems.Runtime

open Checked

-- What a host can observe of a runtime, after any calls.
namespace NornRune

theorem executeMode_of_evaluate (k : Kernels) {p : Program} {e : Executor} (cached : e.Cached fun _ => p)
    (dst : ResultBatch) {input : Batch} {out : ResultBatch} (h : p.evaluate input = .returned out) :
    ∃ e', e.executeMode k (fun _ => p) dst 0 input .auto = (e', out, .ok ()) := by
  have ⟨_, hspec⟩ := Executor.executeMode_spec k cached dst 0 input .auto
  rw [h] at hspec
  cases hx : e.executeMode k (fun _ => p) dst 0 input .auto
  case mk e' rest =>
    obtain ⟨output, res⟩ := rest
    rw [hx] at hspec
    cases res
    case error fault => cases fault <;> cases hspec
    case ok => exact ⟨e', Outcome.returned.inj hspec ▸ rfl⟩

theorem execute_of_evaluate (k : Kernels) {p : Program} {input : Batch} {out : ResultBatch}
    (h : p.evaluate input = .returned out) :
    (Executor.zero.execute k (fun _ => p) .empty 0 input).2 = (out, .ok ()) := by
  have ⟨e, he⟩ := executeMode_of_evaluate k (Executor.cached_zero fun _ => p) .empty h
  rw [Executor.execute, he]

namespace Runtime

variable {sha : Digest} {k : Kernels} {m : Manifest} {start rt : Runtime} {calls : List Call}

theorem readResult_eq {dst dst' : List Byte} {rt' : Runtime} {written : Nat}
    (h : rt.readResult dst = ((rt', .none), dst', written)) :
    rt.hasResult ∧ dst'.take written = rt.resultBytes := by
  unfold readResult at h
  have ⟨hr, h⟩ := ite_eq_of_ne h nofun
  have ⟨hlen, h⟩ := ite_eq_of_ne h nofun
  rw [Bool.not_eq_true', Bool.not_eq_false] at hr
  simp only [Prod.mk.injEq] at h
  have ⟨_, hdst, hwritten⟩ := h
  have hread := @Region.read_write_self _ dst rt.resultBytes 0 (by omega)
  rw [← hdst, ← hwritten]
  exact ⟨hr, hread⟩

-- What an evaluation takes from the fuel: nothing if it is refused, all of it if it traps, and its cost
-- otherwise.
theorem Sound.fuel (h : Sound sha k m start calls rt) :
    ((rt.evaluate sha k).2 ∈ refusals ∧ (rt.evaluate sha k).1.fuel = rt.fuel) ∨
    ((rt.evaluate sha k).2 ∉ refusals ∧ ∃ f cost, rt.program = some f ∧
      evaluationFuelCost (newEvaluationFuelProfile f.program) rt.input = some cost ∧ cost ≤ rt.fuel ∧
      (rt.evaluate sha k).1.fuel =
        if f.program.evaluate rt.input = .panicked then 0 else rt.fuel - cost) := by
  rcases rt.evaluate_cases sha k with ⟨hc, heq⟩ | ⟨f, cost, charged⟩
  case inl =>
    rw [heq]
    exact .inl ⟨hc, rfl⟩
  case inr =>
    have ⟨_, _, hprofile, cached⟩ := h.program f charged.program
    have ⟨executor, _, performed⟩ := @perform_cases
      { rt with hasResult := false, fuel := rt.fuel - cost } _ sha k cached
    rw [← charged.eq] at performed
    have hcost := charged.charge
    rw [hprofile] at hcost
    refine .inr ?_
    generalize (rt.evaluate sha k).1 = rt', (rt.evaluate sha k).2 = code at performed ⊢
    generalize hout : f.program.evaluate rt.input = outcome at performed
    have hresult : ∀ {fuel}, fuel = (if f.program.evaluate rt.input = .panicked then 0 else rt.fuel - cost) →
        ∃ f cost, rt.program = some f ∧
          evaluationFuelCost (newEvaluationFuelProfile f.program) rt.input = some cost ∧
          cost ≤ rt.fuel ∧
          fuel = if f.program.evaluate rt.input = .panicked then 0 else rt.fuel - cost :=
      fun hf => ⟨f, cost, charged.program, hcost, charged.le, hf⟩
    cases performed
    case trapped => exact ⟨by simp [refusals], hresult (by rw [hout]; rfl)⟩
    case failed => exact ⟨by simp [refusals], hresult (by rw [hout]; rfl)⟩
    case unpublished hc =>
      refine ⟨?_, hresult (by rw [hout]; rfl)⟩
      rcases hc with rfl | rfl <;> simp [refusals]
    case published => exact ⟨by simp [refusals], hresult (by rw [hout]; rfl)⟩

theorem Sound.returned_of_none (h : Sound sha k m start calls rt) {f : ProgramFile}
    (hf : rt.program = some f) (hc : (rt.evaluate sha k).2 = .none) :
    ∃ out, f.program.evaluate rt.input = .returned out := by
  rcases rt.evaluate_cases sha k with ⟨hr, _⟩ | ⟨f', cost, charged⟩
  case inl =>
    rw [hc] at hr
    simp [refusals] at hr
  case inr =>
    have hsame : f' = f := Option.some.inj (charged.program.symm.trans hf)
    subst hsame
    obtain ⟨_, _, hprofile, cached⟩ := h.program f' hf
    obtain ⟨executor, _, performed⟩ := @perform_cases
      { rt with hasResult := false, fuel := rt.fuel - cost } _ sha k cached
    rw [← charged.eq, hc] at performed
    generalize (rt.evaluate sha k).1 = rt' at performed
    generalize hout : f'.program.evaluate rt.input = outcome at performed
    cases performed
    case unpublished hn => rcases hn with hn | hn <;> cases hn
    case published output _ _ _ _ _ => exact ⟨output, rfl⟩

-- After any calls, a result can only be read if a program is loaded, an input was uploaded since, it was
-- evaluated with success since, and nothing has dropped it. It is then read back as what a new executor
-- returns. An evaluation that is not refused is charged its cost, or all of the fuel if it traps.
theorem result_and_fuel_of_calls (sha : Digest) (k : Kernels) (m : Manifest) (start : Runtime)
    (hstart : new m = .ok start) (calls : List Call) :
    (∀ dst dst' rt' written,
      (start.run sha k calls).readResult dst = ((rt', .none), dst', written) →
      ∃ f out, (start.run sha k calls).program = some f ∧
        Evaluated sha k m start calls f (start.run sha k calls).input ∧
        (Executor.zero.execute k (fun _ => f.program) .empty 0 (start.run sha k calls).input).2 =
          (out, .ok ()) ∧
        ∀ u, decodeResultFrame sha m.limits u (dst'.take written) = (out, .ok ())) ∧
    (((start.run sha k calls).evaluate sha k).2 ∈ refusals ∧
      ((start.run sha k calls).evaluate sha k).1.fuel = (start.run sha k calls).fuel ∨
    ((start.run sha k calls).evaluate sha k).2 ∉ refusals ∧
      ∃ f cost, (start.run sha k calls).program = some f ∧
        evaluationFuelCost (newEvaluationFuelProfile f.program) (start.run sha k calls).input = some cost ∧
        cost ≤ (start.run sha k calls).fuel ∧
        ((start.run sha k calls).evaluate sha k).1.fuel =
          if f.program.evaluate (start.run sha k calls).input = .panicked then 0
          else (start.run sha k calls).fuel - cost) := by
  have sound := sound_run sha k hstart calls
  refine ⟨fun dst dst' rt' written h => ?_, sound.fuel⟩
  have ⟨hr, hbytes⟩ := readResult_eq h
  have ⟨_, f, hf, evaluated, out, hout, hdecode⟩ := sound.result hr
  exact ⟨f, out, hf, evaluated, execute_of_evaluate k hout, hbytes ▸ hdecode⟩

-- The cost that was charged for an evaluation that succeeded covers its work, provided that the ranges of
-- clauses do not overlap. It is the sum that it is meant to be, and a larger input costs no less.
theorem work_le_charged (sha : Digest) (k : Kernels) (m : Manifest) (start : Runtime)
    (hstart : new m = .ok start) (calls : List Call) (f : ProgramFile)
    (hf : (start.run sha k calls).program = some f)
    (ranges : f.program.requirementClauseCounts.sum ≤ f.program.requirementClauseIDs.length)
    (h : ((start.run sha k calls).evaluate sha k).2 = .none) :
    ∃ out cost,
      (Executor.zero.execute k (fun _ => f.program) .empty 0 (start.run sha k calls).input).2 =
        (out, .ok ()) ∧
      (start.run sha k calls).fuel = ((start.run sha k calls).evaluate sha k).1.fuel + cost ∧
      f.program.work (start.run sha k calls).input out ≤ cost ∧
      cost = exactCost f.program.exactProfile (start.run sha k calls).input ∧
      ∀ larger cost', (start.run sha k calls).input.NoLarger larger →
        evaluationFuelCost (newEvaluationFuelProfile f.program) larger = some cost' → cost ≤ cost' := by
  have sound := sound_run sha k hstart calls
  generalize start.run sha k calls = rt at hf h sound ⊢
  obtain ⟨_, narrow, _, _⟩ := sound.program f hf
  rcases sound.fuel with ⟨hc, _⟩ | ⟨_, f', cost, hf', hcost, hle, hfuel⟩
  case inl =>
    rw [h] at hc
    simp [refusals] at hc
  case inr =>
    have hsame : f' = f := Option.some.inj (hf'.symm.trans hf)
    subst hsame
    obtain ⟨out, hout⟩ := sound.returned_of_none hf h
    obtain ⟨heq, hwork⟩ := work_le_of_evaluate narrow hout hcost
    rw [hout, if_neg (by rintro ⟨⟩)] at hfuel
    refine ⟨out, cost, execute_of_evaluate k hout, by omega, hwork ranges, heq, fun larger cost' hl hc => ?_⟩
    obtain ⟨cost'', hle', hcost''⟩ := evaluationFuelCost_mono _ hl hc
    rw [hcost] at hcost''
    exact Option.some.inj hcost'' ▸ hle'

section Samples

variable {f : ProgramFile} {cost : Nat}

theorem evaluate_eq_perform (hp : rt.program = some f) (hi : rt.hasInput) (hcancelled : rt.cancelled = false)
    (hcost : evaluationFuelCost rt.fuelProfile rt.input = some cost) (hle : cost ≤ rt.fuel) :
    rt.evaluate sha k =
      perform sha k { rt with hasResult := false, fuel := rt.fuel - cost } f.program := by
  simp only [evaluate, hp, hi, Bool.not_true, Bool.false_eq_true, if_false, hcancelled, hcost,
    if_neg (Nat.not_lt.mpr hle)]

theorem perform_published {p : Program} {out : ResultBatch} {encoded : List Byte}
    (cached : rt.executor.Cached fun _ => p) (hout : p.evaluate rt.input = .returned out)
    (valid : out.validResult)
    (he : (rt.encoder.encode sha [] .result ResultBatch.leaves out rt.manifest.limits.maxOutputBytes
      rt.manifest.limits.maxProgramColumns).2 = .ok encoded) (hlen : encoded.length ≤ maxUint32) :
    (perform sha k rt p).2 = .none ∧ (perform sha k rt p).1.fuel = rt.fuel ∧
      (perform sha k rt p).1.hasResult ∧ (perform sha k rt p).1.resultBytes = encoded := by
  obtain ⟨executor, hx⟩ := executeMode_of_evaluate k cached rt.output hout
  simp only [perform, Executor.execute, hx, publish, valid, Bool.not_true, Bool.false_eq_true, if_false]
  cases hy : rt.encoder.encode sha [] .result ResultBatch.leaves out
    rt.manifest.limits.maxOutputBytes rt.manifest.limits.maxProgramColumns
  case mk encoder bytes =>
    rw [hy] at he
    cases he
    simp only [if_neg (Nat.not_lt.mpr hlen)]
    exact ⟨rfl, rfl, rfl, rfl⟩

theorem length_le_of_decodeFrame {σ : Type} {leaves : List (ProgramLeaf σ)} {dst dst' : σ}
    {src : List Byte} {kind : FrameKind} {maxBytes : UInt64} {maxSections : UInt32}
    (h : decodeFrame sha dst leaves src kind maxBytes maxSections = (dst', .ok ())) :
    src.length ≤ maxBytes.toNat := by
  unfold decodeFrame at h
  split at h
  case h_1 => cases h
  case h_2 hp =>
    have ⟨_, hheader, _⟩ := Option.bind_eq_some_iff.mp hp
    exact length_le_of_preflightHeader hheader

theorem perform_trapped {p : Program} (cached : rt.executor.Cached fun _ => p)
    (hout : p.evaluate rt.input = .panicked) :
    (perform sha k rt p).2 = .internal ∧ (perform sha k rt p).1.fuel = 0 := by
  have ⟨_, _, performed⟩ := perform_cases sha k cached
  rw [hout] at performed
  generalize perform sha k rt p = result at performed ⊢
  cases performed
  exact ⟨rfl, rfl⟩

-- A program that no compiler makes: all of its requirements share all clauses, and its last instruction
-- overwrites the reasons of the first one, which is the root of everything.
def sharing (n : Nat) : Program :=
  { Scheduler.definedField with
    opcodes := [.exists, .defined]
    fields := [1, 1]
    values := [0, 0]
    listStarts := [0, 0]
    listCounts := [0, 0]
    operandStarts := [0, 0]
    operandCounts := [0, 0]
    evidenceKinds := [0, 0]
    evidenceStates := [0, 0]
    rootFlags := [.applicability ||| .assertion, 0]
    truthSlots := [1, 2]
    reasonSlots := [1, 1]
    truthSlotCount := 2
    instructionNodes := [1, 2]
    instructionSourceStarts := [0, 0]
    instructionSourceEnds := [0, 0]
    symbolHashes := [hashSymbol (bytes "flag")]
    symbolIDs := [1]
    requirementIDs := List.replicate n 1
    requirementRoots := List.replicate n 1
    requirementSourceNodeIDs := List.replicate n 1
    requirementClauseStarts := List.replicate n 0
    requirementClauseCounts := List.replicate n n
    requirementClauseIDs := List.replicate n 1
    applicabilityIndex := ⟨[], [], [], [], [], [], [.ofNat 64 (2 ^ n - 1)], n, 1⟩
    templates := ⟨[], [0], [0], [0], [0], [], []⟩
    resolver := ⟨Scheduler.definedField.outcomes, Scheduler.definedField.remediations,
      Scheduler.definedField.resolutions⟩
    resolver_eq := .inr rfl }

def sharingFile (n : Nat) : ProgramFile :=
  { ProgramFile.zero with program := sharing n }

def oneFact (present : Bool) : Batch :=
  { Scheduler.alternating 1 with presenceMasks := [if present then 1#64 else 0#64] }

theorem validateResultTables_sharing (n : Nat) :
    (sharing n).resultTables.validateResultTables = .ok (sharing n).resolver := by
  simp only [sharing, Program.resultTables]
  rfl

theorem decodeProgram_sharing (n : Nat) (out : ResultBatch)
    (he : (encodeProgram blankDigest [] (sharingFile n) someManifest).toOption.isSome)
    (typed : (sharingFile n).typed) (hs : (sharing n).validDecodedSymbols)
    (hv : (sharing n).evaluate noRequests = .returned out) :
    ∃ artifact md, decodeProgram blankDigest .portable artifact someManifest = .ok (sharingFile n, md) := by
  cases h : encodeProgram blankDigest [] (sharingFile n) someManifest
  case error =>
    rw [h] at he
    cases he
  case ok bytes =>
    have ⟨frozen, artifact, hfrozen, _, hdecode, _⟩ := decodeProgram_encode h
    have hself : (sharingFile n).freeze = .ok (sharingFile n) := by
      rw [ProgramFile.freeze, sharingFile, Program.freeze_eq_self (validateResultTables_sharing n) rfl]
      rfl
    rw [hself] at hfrozen
    cases hfrozen
    refine ⟨artifact, _, (hdecode typed .portable).trans (if_pos ⟨hs, ?_⟩)⟩
    exact (validDecodedProgram_iff .portable _).mpr ⟨out, hv⟩

structure Prepared (n : Nat) (present : Bool) (rt : Runtime) : Prop where
  program : rt.program = some (sharingFile n)
  input : rt.input = oneFact present
  hasInput : rt.hasInput
  cancelled : rt.cancelled = false
  fuel : rt.fuel = 1000
  encoder : rt.encoder = .zero
  executor : rt.executor = .zero
  manifest : rt.manifest = someManifest
  fuelProfile : rt.fuelProfile = newEvaluationFuelProfile (sharing n)

theorem exists_prepared {n : Nat} {artifact : List Byte} {md : Metadata} (present : Bool)
    (hload : decodeProgram blankDigest .portable artifact someManifest = .ok (sharingFile n, md)) :
    ∃ start calls, new someManifest = .ok start ∧
      Prepared n present (start.run blankDigest .portable calls) := by
  have hok : (encodeInputFrame blankDigest someLimits [] (oneFact present)).toOption.isSome := by
    cases present <;> decide +kernel
  have typed : (oneFact present).typed := by cases present <;> decide +kernel
  cases he : encodeInputFrame blankDigest someLimits [] (oneFact present)
  case error =>
    rw [he] at hok
    cases hok
  case ok out =>
    have ⟨frame, _, hframe⟩ := decodeInputFrame_encode typed he
    have hvalid : someManifest.validate = .ok () := by decide +kernel
    refine ⟨_, [.load artifact, .upload frame, .setFuel 1000], bind_eq_ok_iff.mpr ⟨(), hvalid, rfl⟩, ?_⟩
    have hlimits : someManifest.limits = someLimits := rfl
    simp only [run, List.foldl_cons, List.foldl_nil, call, loadProgram, clearEvaluation, hload, done,
      uploadInput, hlimits, hframe, setFuel]
    rw [if_neg (by decide)]
    exact ⟨rfl, rfl, rfl, rfl, rfl, rfl, rfl, rfl, rfl⟩

def satisfied (n : Nat) : ResultBatch :=
  .ofRows [⟨1, List.replicate n 1, [⟨1, 1, 1, 0, 1⟩], [], [], []⟩]

theorem Prepared.published {n : Nat} (k : Kernels) (cost : Nat) (h : Prepared n true rt)
    (hout : (sharing n).evaluate (oneFact true) = .returned (satisfied n))
    (hcost : evaluationFuelCost (newEvaluationFuelProfile (sharing n)) (oneFact true) = some cost)
    (hle : cost ≤ 1000) (typed : (satisfied n).typed) (valid : (satisfied n).validResult)
    (he : (FrameEncoder.zero.encode blankDigest [] .result ResultBatch.leaves (satisfied n)
      someLimits.maxOutputBytes someLimits.maxProgramColumns).2.toOption.isSome) :
    (rt.evaluate blankDigest k).2 = .none ∧ (rt.evaluate blankDigest k).1.fuel = 1000 - cost ∧
      (rt.evaluate blankDigest k).1.hasResult := by
  cases hx : (FrameEncoder.zero.encode blankDigest [] .result ResultBatch.leaves (satisfied n)
    someLimits.maxOutputBytes someLimits.maxProgramColumns).2
  case error =>
    rw [hx] at he
    cases he
  case ok encoded =>
    have hlen : encoded.length ≤ maxUint32 := by
      have ⟨frame, hframe, hdecode⟩ := decodeFrame_encode hx (List.all_eq_true.mp typed)
        (satisfied n).copyAll_leaves
      have := length_le_of_decodeFrame (hdecode .empty)
      have hmax : someLimits.maxOutputBytes.toNat ≤ maxUint32 := by decide
      rw [hframe, List.nil_append]
      omega
    have hcost' : evaluationFuelCost rt.fuelProfile rt.input = some cost := by
      rw [h.fuelProfile, h.input, hcost]
    rw [evaluate_eq_perform h.program h.hasInput h.cancelled hcost' (h.fuel ▸ hle)]
    have hperform := @perform_published blankDigest k { rt with hasResult := false, fuel := rt.fuel - cost }
      (sharing n) (satisfied n) encoded (h.executor ▸ Executor.cached_zero _) (by rw [h.input, hout]) valid
      (by rw [h.encoder, h.manifest]; exact hx) hlen
    have ⟨hcode, hfuel, hresult, _⟩ := hperform
    exact ⟨hcode, h.fuel ▸ hfuel, hresult⟩

theorem exists_prepared_one (present : Bool) : ∃ start calls, new someManifest = .ok start ∧
    Prepared 1 present (start.run blankDigest .portable calls) := by
  have ⟨artifact, md, hload⟩ := decodeProgram_sharing 1 (.ofRows []) (by decide +kernel)
    (by decide +kernel) (by decide +kernel) (by decide +kernel)
  exact exists_prepared present hload

-- An evaluation that traps is charged more than its cost: the reasons of the root are gone when the field
-- is missing, which the executor takes for a defect.
theorem trapped_unlike : ∃ start calls f cost, new someManifest = .ok start ∧
    (start.run blankDigest .portable calls).program = some f ∧
    evaluationFuelCost (newEvaluationFuelProfile f.program)
      (start.run blankDigest .portable calls).input = some cost ∧
    ((start.run blankDigest .portable calls).evaluate blankDigest .portable).2 ∉ refusals ∧
    ((start.run blankDigest .portable calls).evaluate blankDigest .portable).1.fuel ≠
      (start.run blankDigest .portable calls).fuel - cost := by
  have ⟨start, calls, hstart, prepared⟩ := exists_prepared_one false
  refine ⟨start, calls, sharingFile 1, 63, hstart, prepared.program, ?_⟩
  generalize start.run blankDigest .portable calls = rt at prepared ⊢
  have hcost : evaluationFuelCost (newEvaluationFuelProfile (sharing 1)) (oneFact false) = some 63 := by
    decide +kernel
  have hout : (sharing 1).evaluate (oneFact false) = .panicked := by decide +kernel
  have hcost' : evaluationFuelCost rt.fuelProfile rt.input = some 63 := by
    rw [prepared.fuelProfile, prepared.input, hcost]
  have ⟨hcode, hfuel⟩ := @perform_trapped blankDigest .portable
    { rt with hasResult := false, fuel := rt.fuel - 63 } (sharing 1)
    (prepared.executor ▸ Executor.cached_zero _) (prepared.input ▸ hout)
  rw [evaluate_eq_perform prepared.program prepared.hasInput prepared.cancelled hcost'
    (by rw [prepared.fuel]; decide)]
  refine ⟨prepared.input ▸ hcost, ?_, ?_⟩
  case refine_1 =>
    rw [show (perform _ _ _ (sharingFile 1).program).2 = .internal from hcode]
    decide
  case refine_2 =>
    rw [show (perform _ _ _ (sharingFile 1).program).1.fuel = 0 from hfuel, prepared.fuel]
    decide

theorem result_and_fuel_of_calls_satisfied : ∃ start calls, new someManifest = .ok start ∧
    (start.run blankDigest .portable calls).hasResult ∧ ∃ f out,
      (start.run blankDigest .portable calls).program = some f ∧
      Evaluated blankDigest .portable someManifest start calls f (start.run blankDigest .portable calls).input ∧
      (Executor.zero.execute .portable (fun _ => f.program) .empty 0
        (start.run blankDigest .portable calls).input).2 = (out, .ok ()) := by
  obtain ⟨start, calls, hstart, prepared⟩ := exists_prepared_one true
  obtain ⟨_, _, hresult⟩ := prepared.published .portable 63 (by decide +kernel)
    (by decide +kernel) (by decide) (by decide +kernel) (by decide +kernel) (by decide +kernel)
  have hresult : (start.run blankDigest .portable (calls ++ [.evaluate])).hasResult := by
    rw [run_concat]
    exact hresult
  refine ⟨start, calls ++ [.evaluate], hstart, hresult, ?_⟩
  generalize hrt : start.run blankDigest .portable (calls ++ [.evaluate]) = rt at hresult ⊢
  let buffer := List.replicate rt.resultBytes.length 0#8
  have hread : rt.readResult buffer = (rt.done, Region.write buffer 0 rt.resultBytes,
      rt.resultBytes.length) := by
    rw [readResult, if_neg (by simp [hresult]), if_neg (by simp [buffer])]
  obtain ⟨f, out, hf, evaluated, hout, _⟩ := (result_and_fuel_of_calls blankDigest .portable someManifest
    start hstart (calls ++ [.evaluate])).1 _ _ _ _ (hrt ▸ hread)
  exact ⟨f, out, hrt ▸ hf, hrt ▸ evaluated, hrt ▸ hout⟩

-- Ten requirements with the same ten clauses are a hundred visits, but only ten are paid for.
theorem undercharged_unlike : ∃ start calls f out, new someManifest = .ok start ∧
    (start.run blankDigest .portable calls).program = some f ∧
    ((start.run blankDigest .portable calls).evaluate blankDigest .portable).2 = .none ∧
    (Executor.zero.execute .portable (fun _ => f.program) .empty 0
      (start.run blankDigest .portable calls).input).2 = (out, .ok ()) ∧
    (start.run blankDigest .portable calls).fuel <
      ((start.run blankDigest .portable calls).evaluate blankDigest .portable).1.fuel +
        f.program.work (start.run blankDigest .portable calls).input out := by
  have ⟨artifact, md, hload⟩ := decodeProgram_sharing 10 (.ofRows []) (by decide +kernel)
    (by decide +kernel) (by decide +kernel) (by decide +kernel)
  have ⟨start, calls, hstart, prepared⟩ := exists_prepared true hload
  have hout : (sharing 10).evaluate (oneFact true) = .returned (satisfied 10) := by decide +kernel
  have ⟨hcode, hfuel, _⟩ := prepared.published .portable 90 hout
    (by decide +kernel) (by decide) (by decide +kernel) (by decide +kernel) (by decide +kernel)
  have hwork : (sharing 10).work (oneFact true) (satisfied 10) = 127 := by decide +kernel
  refine ⟨start, calls, sharingFile 10, satisfied 10, hstart, prepared.program, hcode, ?_, ?_⟩
  case refine_1 =>
    rw [prepared.input]
    exact execute_of_evaluate .portable hout
  case refine_2 =>
    rw [hfuel, prepared.fuel, prepared.input]
    change 1000 < 1000 - 90 + (sharing 10).work (oneFact true) (satisfied 10)
    omega

theorem work_le_charged_satisfied : ∃ start calls f out cost, new someManifest = .ok start ∧
    (start.run blankDigest .portable calls).program = some f ∧
    f.program.requirementClauseCounts.sum ≤ f.program.requirementClauseIDs.length ∧
    ((start.run blankDigest .portable calls).evaluate blankDigest .portable).2 = .none ∧
    (start.run blankDigest .portable calls).fuel =
      ((start.run blankDigest .portable calls).evaluate blankDigest .portable).1.fuel + cost ∧
    f.program.work (start.run blankDigest .portable calls).input out ≤ cost := by
  have ⟨start, calls, hstart, prepared⟩ := exists_prepared_one true
  have ⟨hcode, _, _⟩ := prepared.published .portable 63 (by decide +kernel)
    (by decide +kernel) (by decide) (by decide +kernel) (by decide +kernel) (by decide +kernel)
  have ranges : (sharing 1).requirementClauseCounts.sum ≤ (sharing 1).requirementClauseIDs.length := by
    decide
  have ⟨out, cost, _, hfuel, hwork, _⟩ := work_le_charged blankDigest .portable someManifest start hstart
    calls (sharingFile 1) prepared.program ranges hcode
  exact ⟨start, calls, sharingFile 1, out, cost, hstart, prepared.program, ranges, hcode, hfuel, hwork⟩

end Samples
end Runtime
end NornRune
