import NornRune.Target.Theorems.Calls

open Checked

-- From a policy to the result that a host reads.
namespace NornRune

theorem validOffsets_offsets {α : Type} {rows : List (List α)}
    (h : rows.flatten.length ≤ maxUint32) :
    validOffsets (ResultBatch.offsets rows) rows.length rows.flatten.length := by
  have hget {i : Nat} := @Ragged.getElem?_offsets α rows i
  simp only [validOffsets, offsets_eq h, Ragged.length_offsets, Bool.and_eq_true, beq_iff_eq,
    true_and, List.head?_eq_getElem?, List.getLast?_eq_getElem?, Nat.add_sub_cancel,
    hget (Nat.zero_le _), hget (Nat.le_refl _), List.take_zero, List.take_length, List.flatten_nil,
    List.length_nil, List.all_eq_true, decide_eq_true_eq]
  intro ⟨a, b⟩ hab
  have ⟨i, hi⟩ := List.mem_iff_getElem?.mp hab
  have ⟨ha, hb⟩ := List.getElem?_zip_eq_some.mp hi
  rw [List.getElem?_tail] at hb
  have hlt : i + 1 < rows.length + 1 :=
    Ragged.length_offsets rows ▸ (List.getElem?_eq_some_iff.mp hb).1
  have hle := Ragged.getElem?_offsets_le (Nat.lt_of_succ_lt_succ hlt)
  rw [List.getD_eq_getElem?_getD, List.getD_eq_getElem?_getD, ha, hb] at hle
  exact ⟨hle, Ragged.le_of_mem_offsets (List.mem_of_getElem? hb)⟩

theorem validResult_of_evaluate {p : Program} {input : Batch} {out : ResultBatch}
    (h : p.evaluate input = .returned out) : out.validResult := by
  obtain ⟨_, _, rs, checked, _, _, hrs, rfl⟩ := evaluate_eq_returned h
  have bounded := bounded_evalRows checked hrs
  have hoffsets {α : Type} {f : RowResult → List α} (h : (rs.map f).flatten.length ≤ maxUint32) :=
    validOffsets_offsets h
  simp only [List.length_map] at hoffsets
  simp only [ResultBatch.validResult, ResultBatch.ofRows, ResultBatch.filled, Nat.sub_self,
    List.replicate_zero, List.append_nil, List.length_map, beq_self_eq_true, Bool.and_true,
    hoffsets bounded.requirements, hoffsets bounded.drivers, hoffsets bounded.evidence,
    hoffsets bounded.reasons, hoffsets bounded.remediations]

namespace Runtime

variable {sha : Digest} {k : Kernels} {m : Manifest} {start rt : Runtime} {calls : List Call}

theorem perform_eq_publish {p : Program} {out : ResultBatch}
    (cached : rt.executor.Cached fun _ => p) (hout : p.evaluate rt.input = .returned out) :
    ∃ executor, perform sha k rt p = publish sha { rt with executor, output := out } := by
  have ⟨executor, hx⟩ := executeMode_of_evaluate k cached rt.output hout
  exact ⟨executor, by simp only [perform, Executor.execute, hx]⟩

theorem publish_valid (valid : rt.output.validResult) : (publish sha rt).2 = .limitExceeded ∨
    ∃ encoder encoded, publish sha rt =
      done { rt with encoder, resultBytes := encoded, hasResult := true } := by
  simp only [publish, valid, Bool.not_true, Bool.false_eq_true, if_false]
  split
  case h_1 => exact .inl rfl
  case h_2 encoder encoded _ =>
    split
    case isTrue => exact .inl rfl
    case isFalse => exact .inr ⟨encoder, encoded, rfl⟩

theorem exists_readResult {dst : List Byte} (hr : rt.hasResult)
    (hlen : rt.resultBytes.length ≤ dst.length) :
    ∃ rt' dst' written, rt.readResult dst = ((rt', .none), dst', written) := by
  rw [readResult, if_neg (by simp [hr]), if_neg (Nat.not_lt.mpr hlen)]
  exact ⟨_, _, _, rfl⟩

theorem run_prepared {artifact frame : List Byte} {compiled : ProgramFile} {md : Metadata}
    {input : Batch} {fuel : UInt64} (hm : rt.manifest = m) (hw : rt.input.Whole)
    (whole : input.Whole) (hd : decodeProgram sha k artifact m = .ok (compiled, md))
    (hi : ∀ dst, decodeInputFrame sha m.limits dst frame = (input.overlay dst, .ok ()))
    (hfuel : fuel ≤ m.limits.maxFuel) :
    ∃ rt', rt.run sha k [.load artifact, .upload frame, .setFuel fuel] = rt' ∧
      rt'.program = some compiled ∧ rt'.input = input ∧ rt'.hasInput ∧ rt'.cancelled = false ∧
      rt'.fuel = fuel.toNat := by
  refine ⟨_, rfl, ?_⟩
  have hover := Batch.overlay_of_whole whole hw
  simp only [run, List.foldl_cons, List.foldl_nil, call, loadProgram, clearEvaluation, done, hm, hd,
    uploadInput, hi, setFuel, if_neg (UInt64.not_lt.mpr hfuel), hover, and_self]

-- Whatever a module was used for before, a policy that was compiled, encoded and loaded into it
-- gives the result that it gives outside of the module, unless the host allows too little room.
theorem lowered_program_served (sha : Digest) (k : Kernels) {m : Manifest} {start : Runtime}
    (hstart : new m = .ok start) (calls : List Call) {doc : Document} {fields : Schema}
    {symbols : Interner} {compiled : ProgramFile}
    (hl : lower doc fields symbols = .ok compiled.program) (typed : compiled.typed)
    {artifact frame : List Byte}
    (ha : encodeProgram sha [] compiled m = .ok artifact)
    (hv : validDecodedProgram k compiled.program) {input : Batch}
    (whole : input.Whole) (ht : input.typed)
    (hf : encodeInputFrame sha m.limits [] input = .ok frame) {fuel : UInt64}
    (hfuel : fuel ≤ m.limits.maxFuel) {cost : Nat}
    (hcost : evaluationFuelCost (newEvaluationFuelProfile compiled.program) input = some cost)
    (hle : cost ≤ fuel.toNat) {out : ResultBatch}
    (hout : compiled.program.evaluate input = .returned out) :
    let rt := start.run sha k (calls ++ [.load artifact, .upload frame, .setFuel fuel])
    (rt.evaluate sha k).2 = .limitExceeded ∨ (rt.evaluate sha k).2 = .none ∧
      ∀ dst, (rt.evaluate sha k).1.resultBytes.length ≤ dst.length →
        ∃ rt' dst' written, (rt.evaluate sha k).1.readResult dst = ((rt', .none), dst', written) ∧
          ∀ u, decodeResultFrame sha m.limits u (dst'.take written) = (out, .ok ()) := by
  intro rt
  have ⟨artifact', hartifact, _, hdecode, _⟩ := decodeProgram_lowered sha k hl typed ha
  have ⟨frame', hframe, hinput⟩ := decodeInputFrame_encode ht hf
  obtain rfl : artifact = artifact' := hartifact
  obtain rfl : frame = frame' := hframe
  rw [if_pos hv] at hdecode
  have before := sound_run sha k hstart calls
  have sound : Sound sha k m start _ rt := sound_run sha k hstart _
  have hrun :
      (start.run sha k calls).run sha k [.load artifact, .upload frame, .setFuel fuel] = rt :=
    List.foldl_append.symm
  have ⟨rt', hrt, hprogram, hin, hhas, hcancelled, hfuel⟩ :=
    run_prepared before.manifest before.received.whole whole hdecode hinput hfuel
  obtain rfl : rt = rt' := hrun.symm.trans hrt
  have ⟨_, _, hprofile, cached⟩ := sound.program compiled hprogram
  have hperform := @evaluate_eq_perform sha k rt compiled cost hprogram hhas hcancelled
    (by rw [hprofile, hin, hcost]) (hfuel ▸ hle)
  have ⟨executor, hpublish⟩ := @perform_eq_publish sha k
    { rt with hasResult := false, fuel := rt.fuel - cost } _ out cached (hin ▸ hout)
  have after : Sound sha k m start _ (rt.evaluate sha k).1 := sound.evaluate
  rw [hperform, hpublish] at after ⊢
  rcases @publish_valid sha
    { rt with hasResult := false, fuel := rt.fuel - cost, executor, output := out }
    (validResult_of_evaluate hout) with hcode | ⟨encoder, encoded, heq⟩
  case inl => exact .inl hcode
  case inr =>
    rw [heq] at after ⊢
    refine .inr ⟨rfl, fun dst hlen => ?_⟩
    have ⟨_, f, hf, _, out', hout', hcarries⟩ := after.result rfl
    obtain rfl : compiled = f := Option.some.inj (hprogram.symm.trans hf)
    obtain rfl : out = out' := Outcome.returned.inj ((hin ▸ hout).symm.trans hout')
    have ⟨rt', dst', written, hread⟩ := exists_readResult rfl hlen
    exact ⟨rt', dst', written, hread, (readResult_eq hread).2 ▸ hcarries⟩

theorem nested_program_served : ∃ start artifact frame, new someManifest = .ok start ∧
    encodeProgram blankDigest [] (compiledFile nestedProgram) someManifest = .ok artifact ∧
    encodeInputFrame blankDigest someLimits [] (oneFact true) = .ok frame ∧
    let rt := start.run blankDigest .portable
      ([.trap] ++ [.load artifact, .upload frame, .setFuel 1000])
    (rt.evaluate blankDigest .portable).2 = .limitExceeded ∨
      (rt.evaluate blankDigest .portable).2 = .none := by
  have ⟨start, hs⟩ : ∃ start, new someManifest = .ok start :=
    ⟨_, bind_eq_ok_iff.mpr ⟨(), by decide +kernel, rfl⟩⟩
  have ⟨artifact, ha⟩ : ∃ out,
      encodeProgram blankDigest [] (compiledFile nestedProgram) someManifest = .ok out :=
    ⟨_, eq_ok_of_toOption (by decide +kernel)⟩
  have ⟨frame, hf⟩ : ∃ out, encodeInputFrame blankDigest someLimits [] (oneFact true) = .ok out :=
    ⟨_, eq_ok_of_toOption (by decide +kernel)⟩
  have hcost :
      evaluationFuelCost (newEvaluationFuelProfile nestedProgram) (oneFact true) = some 71 := by
    decide +kernel
  have hout : nestedProgram.evaluate (oneFact true) =
      .returned (.ofRows [⟨1, [7], [⟨7, 1, 1, 0, 1⟩], [], [], []⟩]) := by decide +kernel
  refine ⟨start, artifact, frame, hs, ha, hf, ?_⟩
  exact (lowered_program_served blankDigest .portable hs [.trap] lower_nestedPolicy
    (by decide +kernel) ha (by decide +kernel) ⟨rfl, rfl⟩ (by decide +kernel) hf (by decide) hcost
    (by decide) hout).imp_right And.left

end Runtime
end NornRune
