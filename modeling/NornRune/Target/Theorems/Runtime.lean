import Mathlib.Data.List.Induction
import NornRune.Execution.Theorems.Reuse
import NornRune.Target.Runtime
import NornRune.Target.Theorems.Fuel

open Checked

namespace NornRune

namespace Batch

structure Received (b : Batch) : Prop where
  whole : b.Whole
  ids : ∀ n ∈ b.evidence.ids, n < 2 ^ 32
  states : ∀ n ∈ b.evidence.states, n < 2 ^ 32

theorem received_zero : Received zero where
  whole := ⟨rfl, rfl⟩
  ids _ h := (List.not_mem_nil h).elim
  states _ h := (List.not_mem_nil h).elim

open ProgramLeaf (Keeps) in
theorem keeps_leaves : ∀ leaf ∈ leaves, leaf.Keeps Received := by
  simp only [leaves, List.forall_mem_cons]
  constructorm* _ ∧ _
  all_goals
    first
    | exact Keeps.column fun _ _ h => ⟨⟨h.whole.1, h.whole.2⟩, h.ids, h.states⟩
    | exact Keeps.unsigned fun xs hxs v h => ⟨⟨h.whole.1, h.whole.2⟩, hxs, h.states⟩
    | exact Keeps.unsigned fun xs hxs v h => ⟨⟨h.whole.1, h.whole.2⟩, h.ids, hxs⟩
    | exact Keeps.scalar fun _ _ hf v h =>
        Option.some.inj hf ▸ ⟨⟨h.whole.1, h.whole.2⟩, h.ids, h.states⟩
    | exact fun _ h => by cases h
    | skip
  -- The number of symbols is bounded before they are stored.
  refine Keeps.ofScalars _ fun xs f hf v h => ?_
  split at hf
  case isTrue => exact Option.some.inj hf ▸ ⟨⟨h.whole.1, h.whole.2⟩, h.ids, h.states⟩
  case isFalse => cases hf

theorem Received.decodeInputFrame {dst : Batch} (h : dst.Received) (sha : Digest) (limits : Limits)
    (src : List Byte) : (decodeInputFrame sha limits dst src).1.Received := by
  have hframe : ∀ maxBytes maxSections,
      (decodeFrame sha dst leaves src .input maxBytes maxSections).1.Received := by
    intro maxBytes maxSections
    simp only [decodeFrame]
    split
    case h_1 => exact h
    case h_2 descriptors _ =>
      split
      case isTrue => exact h
      case isFalse =>
        have := keeps_decodeSections src descriptors 0 keeps_leaves h
        split
        case h_1 heq | h_2 heq => rwa [heq] at this
  have := hframe limits.maxInputBytes limits.maxProgramColumns
  simp only [NornRune.decodeInputFrame]
  split
  case h_1 heq | h_2 heq => rwa [heq] at this

theorem Received.rowEvidence {b : Batch} (h : b.Received) (row : Nat) :
    ∀ record ∈ b.rowEvidence row, record.id < 2 ^ 32 ∧ record.state < 2 ^ 32 := by
  intro record hrecord
  have ⟨ref, _, heq⟩ := List.mem_map.mp hrecord
  have hpos : 0 < 2 ^ 32 := Nat.two_pow_pos 32
  exact heq ▸ ⟨forall_getD (P := (· < 2 ^ 32)) hpos h.ids ref, forall_getD (P := (· < 2 ^ 32)) hpos h.states ref⟩

end Batch

section Typed

variable {p : Program} {input : Batch} {out : ResultBatch}

theorem ResultBatch.typed_ofRows {rs : List RowResult} (h : ∀ r ∈ rs, r.All (· < 2 ^ 32))
    (hlen : rs.length < 2 ^ 32) : (ofRows rs).typed := by
  have hcolumn {xs : List Nat} (hxs : ∀ n ∈ xs, n < 2 ^ 32) : xs.all Scalar.uint32.legal :=
    List.all_eq_true.mpr fun n hn => decide_eq_true (hxs n hn)
  have hoffsets {α : Type} (rows : List (List α)) : (offsets rows).all Scalar.uint32.legal :=
    hcolumn fun n hn => by
      have ⟨_, _, heq⟩ := List.mem_map.mp hn
      exact heq ▸ Nat.mod_lt _ (Nat.two_pow_pos 32)
  have hflat {α : Type} {f : RowResult → List α} {P : α → Prop} (hf : ∀ r ∈ rs, ∀ a ∈ f r, P a) :
      ∀ a ∈ (rs.map f).flatten, P a := by
    intro a ha
    have ⟨l, hl, hal⟩ := List.mem_flatten.mp ha
    have ⟨r, hr, heq⟩ := List.mem_map.mp hl
    exact hf r hr a (heq ▸ hal)
  have hmap {α : Type} {xs : List α} {g : α → Nat} (hg : ∀ a ∈ xs, g a < 2 ^ 32) :
      (xs.map g).all Scalar.uint32.legal := hcolumn fun n hn => by
    have ⟨a, ha, heq⟩ := List.mem_map.mp hn
    exact heq ▸ hg a ha
  have hdrivers := hflat fun r hr => (h r hr).drivers
  have hreasons := hflat fun r hr => (h r hr).reasons
  simp only [typed, leaves, ofRows, filled, List.all_cons, List.all_nil, ProgramLeaf.column,
    ProgramLeaf.slice, ProgramLeaf.scalar, ProgramLeaf.ofScalars, Nat.sub_self, List.replicate_zero,
    List.append_nil, Bool.and_eq_true, Bool.and_true]
  exact ⟨hmap fun r hr => (h r hr).outcome, hoffsets _, hcolumn (hflat fun r hr => (h r hr).requirements),
    hoffsets _, hmap fun d hd => (hdrivers d hd).1, hmap fun d hd => (hdrivers d hd).2.1,
    hmap fun d hd => (hdrivers d hd).2.2.1, hmap fun d hd => (hdrivers d hd).2.2.2.1,
    hmap fun d hd => (hdrivers d hd).2.2.2.2, hoffsets _, hcolumn (hflat fun r hr => (h r hr).evidence),
    hoffsets _, hmap fun e he => (hreasons e he).1, hmap fun e he => (hreasons e he).2.1,
    hmap fun e he => (hreasons e he).2.2.1, hmap fun e he => (hreasons e he).2.2.2, hoffsets _,
    hcolumn (hflat fun r hr => (h r hr).remediations), decide_eq_true hlen⟩

theorem Program.Narrow.typed (h : p.Narrow) (received : input.Received)
    (hout : p.evaluate input = .returned out) : out.typed := by
  have ⟨_, stateReasons, rs, checked, _, _, hrs, heq⟩ := evaluate_eq_returned hout
  have ⟨code, _, hlen, hrow⟩ := evalRows_eq_ok hrs
  have hrows := checked.rows_le
  have hmax : maxUint32 = 2 ^ 32 - 1 := rfl
  refine heq ▸ ResultBatch.typed_ofRows (fun r hr => ?_) (by omega)
  have ⟨i, hi, heq⟩ := List.getElem_of_mem hr
  have reportable : Reportable (· < 2 ^ 32) p (input.rowEvidence i) := {
    reasons n hn := Nat.lt_of_le_of_lt hn (by decide)
    program := h.words
    evidence := received.rowEvidence i
  }
  exact heq ▸ reportable.finalizeRow (hrow i hi)

end Typed

namespace Runtime

namespace Call

-- The calls after which the input, or the result, is not there any more.

def dropsInput : Call → Bool
  | load _ | upload _ | reset | trap => true
  | _ => false

def dropsResult : Call → Bool
  | evaluate => true
  | c => c.dropsInput

end Call

inductive Loaded (sha : Digest) (k : Kernels) (m : Manifest) : List Call → ProgramFile → Prop
  | load {calls : List Call} {artifact : List Byte} {f : ProgramFile} {md : Metadata}
      (h : decodeProgram sha k artifact m = .ok (f, md)) :
    Loaded sha k m (calls ++ [.load artifact]) f
  | other {calls : List Call} {c : Call} {f : ProgramFile}
      (h : Loaded sha k m calls f) (hc : ∀ artifact, c ≠ .load artifact) :
    Loaded sha k m (calls ++ [c]) f

inductive Uploaded (sha : Digest) (k : Kernels) (m : Manifest) : List Call → ProgramFile → Batch → Prop
  | upload {calls : List Call} {frame : List Byte} {f : ProgramFile} {input : Batch}
      (h : Loaded sha k m calls f)
      (hi : decodeInputFrame sha m.limits .zero frame = (input, .ok ())) :
    Uploaded sha k m (calls ++ [.upload frame]) f input
  | other {calls : List Call} {c : Call} {f : ProgramFile} {input : Batch}
      (h : Uploaded sha k m calls f input) (hc : c.dropsInput = false) :
    Uploaded sha k m (calls ++ [c]) f input

inductive Evaluated (sha : Digest) (k : Kernels) (m : Manifest) (start : Runtime) :
    List Call → ProgramFile → Batch → Prop
  | evaluate {calls : List Call} {f : ProgramFile} {input : Batch}
      (h : Uploaded sha k m calls f input)
      (he : ((start.run sha k calls).evaluate sha k).2 = .none) :
    Evaluated sha k m start (calls ++ [.evaluate]) f input
  | other {calls : List Call} {c : Call} {f : ProgramFile} {input : Batch}
      (h : Evaluated sha k m start calls f input) (hc : c.dropsResult = false) :
    Evaluated sha k m start (calls ++ [c]) f input

def Carries (sha : Digest) (limits : Limits) (bytes : List Byte) (p : Program) (input : Batch) : Prop :=
  ∃ out, p.evaluate input = .returned out ∧
    ∀ dst, decodeResultFrame sha limits dst bytes = (out, .ok ())

structure Sound (sha : Digest) (k : Kernels) (m : Manifest) (start : Runtime) (calls : List Call)
    (rt : Runtime) : Prop where
  manifest : rt.manifest = m
  received : rt.input.Received
  program : ∀ f, rt.program = some f → Loaded sha k m calls f ∧ f.program.Narrow ∧
    rt.fuelProfile = newEvaluationFuelProfile f.program ∧ rt.executor.Cached fun _ => f.program
  input : rt.hasInput → ∃ f, rt.program = some f ∧ Uploaded sha k m calls f rt.input
  result : rt.hasResult → rt.hasInput ∧ ∃ f, rt.program = some f ∧
    Evaluated sha k m start calls f rt.input ∧ Carries sha m.limits rt.resultBytes f.program rt.input

variable {sha : Digest} {k : Kernels} {m : Manifest} {start rt : Runtime} {calls : List Call}

theorem run_concat (calls : List Call) (c : Call) :
    start.run sha k (calls ++ [c]) = ((start.run sha k calls).call sha k c).1 := by
  rw [run, List.foldl_append]
  rfl

theorem sound_new (h : new m = .ok rt) : Sound sha k m rt [] rt := by
  have ⟨_, _, h⟩ := of_bind h
  cases h
  exact ⟨rfl, Batch.received_zero, nofun, nofun, nofun⟩

namespace Sound

variable (h : Sound sha k m start calls rt)
include h

theorem program_other {c : Call} (hc : ∀ artifact, c ≠ .load artifact) (f : ProgramFile)
    (hf : rt.program = some f) : Loaded sha k m (calls ++ [c]) f ∧ f.program.Narrow ∧
      rt.fuelProfile = newEvaluationFuelProfile f.program ∧ rt.executor.Cached fun _ => f.program :=
  have ⟨loaded, rest⟩ := h.program f hf
  ⟨loaded.other hc, rest⟩

theorem keep {rt' : Runtime} {c : Call} (hc : c.dropsResult = false)
    (heq : rt' = { rt with lastError := rt'.lastError, fuel := rt'.fuel, cancelled := rt'.cancelled }) :
    Sound sha k m start (calls ++ [c]) rt' := by
  have hdrop : c.dropsInput = false := by
    cases c <;> first | rfl | cases hc
  have hload : ∀ artifact, c ≠ .load artifact := fun artifact he => by
    rw [he] at hc
    cases hc
  rw [heq]
  refine ⟨h.manifest, h.received, h.program_other hload, fun hi => ?_, fun hr => ?_⟩
  case refine_1 =>
    have ⟨f, hf, uploaded⟩ := h.input hi
    exact ⟨f, hf, uploaded.other hdrop⟩
  case refine_2 =>
    have ⟨hi, f, hf, evaluated, carries⟩ := h.result hr
    exact ⟨hi, f, hf, evaluated.other hc, carries⟩

theorem clear {rt' : Runtime} {c : Call} (hc : ∀ artifact, c ≠ .load artifact)
    (heq : rt' = { rt.clearEvaluation with lastError := rt'.lastError }) :
    Sound sha k m start (calls ++ [c]) rt' := by
  rw [heq]
  exact ⟨h.manifest, h.received, h.program_other hc, nofun, nofun⟩

theorem load (artifact : List Byte) :
    Sound sha k m start (calls ++ [.load artifact]) (rt.loadProgram sha k artifact).1 := by
  have hm := h.manifest
  simp only [loadProgram, clearEvaluation, hm]
  split
  case h_1 | h_2 =>
    exact ⟨rfl, h.received, nofun, nofun, nofun⟩
  case h_3 decoded metadata hd =>
    refine ⟨rfl, h.received, fun f hf => ?_, nofun, nofun⟩
    cases hf
    exact ⟨.load hd, narrow_of_decodeProgram hd, rfl, Executor.cached_zero _⟩

theorem upload (frame : List Byte) :
    Sound sha k m start (calls ++ [.upload frame]) (rt.uploadInput sha frame).1 := by
  have hload : ∀ artifact, Call.upload frame ≠ .load artifact := nofun
  have hm := h.manifest
  simp only [uploadInput]
  split
  case h_1 hp =>
    refine ⟨hm, h.received, h.program_other hload, fun hi => ?_, fun hr => ?_⟩
    case refine_1 =>
      have ⟨f, hf, _⟩ := h.input hi
      rw [hp] at hf
      cases hf
    case refine_2 =>
      have ⟨_, f, hf, _⟩ := h.result hr
      rw [hp] at hf
      cases hf
  case h_2 f hp =>
    have hother := h.program_other hload
    have received := h.received.decodeInputFrame sha m.limits frame
    rw [hm]
    split
    case h_1 input _ hd =>
      rw [hd] at received
      exact ⟨rfl, received, hother, nofun, nofun⟩
    case h_2 input hd =>
      rw [hd] at received
      refine ⟨rfl, received, hother, fun _ => ⟨f, hp, .upload (h.program f hp).1 ?_⟩, nofun⟩
      rw [decodeInputFrame_eq_ok hd .zero, Batch.overlay_of_whole received.whole ⟨rfl, rfl⟩]
      rfl

end Sound

structure Charged (sha : Digest) (k : Kernels) (rt rt' : Runtime) (code : ErrorCode) (compiled : ProgramFile)
    (cost : Nat) : Prop where
  program : rt.program = some compiled
  hasInput : rt.hasInput
  charge : evaluationFuelCost rt.fuelProfile rt.input = some cost
  le : cost ≤ rt.fuel
  eq : (rt', code) =
    perform sha k { rt with hasResult := false, fuel := rt.fuel - cost } compiled.program

def refusals : List ErrorCode := [.invalidState, .cancelled, .fuelExhausted]

theorem evaluate_cases (sha : Digest) (k : Kernels) (rt : Runtime) :
    ((rt.evaluate sha k).2 ∈ refusals ∧ (rt.evaluate sha k).1 =
      { rt with
        hasResult := rt.hasResult && !(rt.program.isSome && rt.hasInput)
        lastError := (rt.evaluate sha k).1.lastError }) ∨
    ∃ compiled cost, Charged sha k rt (rt.evaluate sha k).1 (rt.evaluate sha k).2 compiled cost := by
  fun_cases evaluate sha k rt
  case case6 compiled hp hi _ _ cost hcost hle =>
    rw [Bool.not_eq_true', Bool.not_eq_false] at hi
    exact .inr ⟨compiled, cost, hp, hi, hcost, Nat.le_of_not_lt hle, rfl⟩
  all_goals exact .inl ⟨by simp [fail, refusals], by simp_all +zetaDelta [fail]⟩

inductive Performed (sha : Digest) (rt : Runtime) (executor : Executor) : Outcome → Runtime × ErrorCode → Prop
  | trapped (output : ResultBatch) (message : String) :
    Performed sha rt executor .panicked
      (clearEvaluation { rt with executor, output, lastError := message }, .internal)
  | failed (output : ResultBatch) (message : String) (f : Fault) :
    Performed sha rt executor (.failed f)
      ({ rt with executor, output, lastError := message }, .invalidFrame)
  | unpublished (output : ResultBatch) (encoder : FrameEncoder) (message : String) (code : ErrorCode)
      (hc : code = .internal ∨ code = .limitExceeded) :
    Performed sha rt executor (.returned output)
      ({ rt with executor, output, encoder, lastError := message }, code)
  | published (output : ResultBatch) (encoder : FrameEncoder) (encoded : List Byte) (message : String)
      (valid : output.validResult)
      (he : (rt.encoder.encode sha [] .result ResultBatch.leaves output rt.manifest.limits.maxOutputBytes
        rt.manifest.limits.maxProgramColumns).2 = .ok encoded) :
    Performed sha rt executor (.returned output)
      ({ rt with executor, output, encoder, resultBytes := encoded, hasResult := true,
                 lastError := message }, .none)

theorem publish_cases (sha : Digest) (rt : Runtime) (executor : Executor) (output : ResultBatch) :
    Performed sha rt executor (.returned output) (publish sha { rt with executor, output }) := by
  fun_cases publish sha { rt with executor, output }
  case case1 => exact .unpublished output rt.encoder _ _ (.inl rfl)
  case case2 encoder _ _ | case3 encoder _ _ _ => exact .unpublished output encoder _ _ (.inr rfl)
  case case4 hv encoder encoded he _ =>
    rw [Bool.not_eq_true', Bool.not_eq_false] at hv
    exact .published output encoder encoded _ hv (congrArg Prod.snd he)

theorem perform_cases {p : Program} (sha : Digest) (k : Kernels) (cached : rt.executor.Cached fun _ => p) :
    ∃ executor : Executor, executor.Cached (fun _ => p) ∧
      Performed sha rt executor (p.evaluate rt.input) (perform sha k rt p) := by
  obtain ⟨hcached, hout⟩ := Executor.executeMode_spec k cached rt.output 0 rt.input .auto
  rw [← hout]
  refine ⟨_, hcached, ?_⟩
  simp only [perform, Executor.execute]
  cases he : rt.executor.executeMode k (fun _ => p) rt.output 0 rt.input .auto
  case mk executor rest =>
    obtain ⟨output, res⟩ := rest
    cases res
    case ok => exact publish_cases sha rt executor output
    case error f =>
      cases f
      case panic => exact .trapped output _
      all_goals exact .failed output _ _

theorem Uploaded.decoded {f : ProgramFile} {input : Batch} (h : Uploaded sha k m calls f input) :
    ∃ frame, decodeInputFrame sha m.limits .zero frame = (input, .ok ()) := by
  induction h
  case upload frame _ _ _ hi => exact ⟨frame, hi⟩
  case other ih => exact ih

theorem rows_le_of_decodeInputFrame {limits : Limits} {dst input : Batch} {src : List Byte}
    (h : decodeInputFrame sha limits dst src = (input, .ok ())) : input.rows ≤ limits.maxRows.toNat := by
  simp only [decodeInputFrame] at h
  split at h
  case h_1 => cases h
  case h_2 =>
    simp only [Prod.mk.injEq] at h
    obtain ⟨heq, hok⟩ := h
    obtain ⟨hn, hok⟩ := ite_eq_of_ne hok (by rintro ⟨⟩)
    exact heq ▸ Nat.le_of_not_lt fun hlt => hn (.inl hlt)

theorem carries_of_encode {p : Program} {encoder : FrameEncoder} {input : Batch} {output : ResultBatch}
    {encoded : List Byte} (narrow : p.Narrow) (received : input.Received)
    (hrows : input.rows ≤ m.limits.maxRows.toNat) (hout : p.evaluate input = .returned output)
    (valid : output.validResult)
    (he : (encoder.encode sha [] .result ResultBatch.leaves output m.limits.maxOutputBytes
      m.limits.maxProgramColumns).2 = .ok encoded) :
    Carries sha m.limits encoded p input := by
  obtain ⟨_, _, rs, _, _, _, hrs, heq⟩ := evaluate_eq_returned hout
  have hlen : output.rows = input.rows := by
    obtain ⟨_, _, hlen, _⟩ := evalRows_eq_ok hrs
    rw [heq]
    exact hlen
  have he' : (encoder.encodeResult sha m.limits [] output).2 = .ok encoded := by
    rw [FrameEncoder.encodeResult, if_neg]
    case hnc => simp [hlen, valid, hrows]
    exact he
  obtain ⟨frame, hframe, hdecode⟩ := decodeResultFrame_encode (narrow.typed received hout) he'
  exact ⟨output, hout, hframe ▸ hdecode⟩

theorem Sound.evaluate (h : Sound sha k m start calls (start.run sha k calls)) :
    Sound sha k m start (calls ++ [.evaluate]) ((start.run sha k calls).evaluate sha k).1 := by
  have hload : ∀ artifact, Call.evaluate ≠ .load artifact := nofun
  have hcode : ((start.run sha k calls).evaluate sha k).2 = .none → ∀ {f input},
      Uploaded sha k m calls f input → Evaluated sha k m start (calls ++ [.evaluate]) f input :=
    fun hc _ _ uploaded => .evaluate uploaded hc
  generalize start.run sha k calls = rt at h hcode ⊢
  have hm := h.manifest
  rcases rt.evaluate_cases sha k with ⟨_, heq⟩ | ⟨compiled, cost, charged⟩
  case inl =>
    rw [heq]
    refine ⟨hm, h.received, h.program_other hload, fun hi => ?_, fun hr => ?_⟩
    case refine_1 =>
      have ⟨f, hf, uploaded⟩ := h.input hi
      exact ⟨f, hf, uploaded.other rfl⟩
    -- With a result there are a program and an input, and then the result is dropped.
    case refine_2 =>
      simp only [Bool.and_eq_true, Bool.not_eq_true'] at hr
      have ⟨hi, f, hf, _⟩ := h.result hr.1
      simp [hi, hf] at hr
  case inr =>
    have hp := charged.program
    have ⟨loaded, narrow, hprofile, cached⟩ := h.program compiled hp
    have ⟨f, hf, uploaded⟩ := h.input charged.hasInput
    have hsame : f = compiled := Option.some.inj (hf.symm.trans hp)
    subst hsame
    have ⟨executor, cached', performed⟩ := @perform_cases
      { rt with hasResult := false, fuel := rt.fuel - cost } _ sha k cached
    rw [← charged.eq] at performed
    have hprogram : ∀ f', rt.program = some f' → Loaded sha k m (calls ++ [.evaluate]) f' ∧
        f'.program.Narrow ∧ rt.fuelProfile = newEvaluationFuelProfile f'.program ∧
        executor.Cached fun _ => f'.program := fun f' hf' => by
      have hsame : f' = f := Option.some.inj (hf'.symm.trans hp)
      exact hsame ▸ ⟨loaded.other hload, narrow, hprofile, cached'⟩
    have hinput : ∃ f, rt.program = some f ∧ Uploaded sha k m (calls ++ [.evaluate]) f rt.input :=
      ⟨f, hp, uploaded.other rfl⟩
    generalize (rt.evaluate sha k).1 = rt', (rt.evaluate sha k).2 = code at hcode performed ⊢
    generalize hout : f.program.evaluate rt.input = outcome at performed
    cases performed
    case trapped => exact ⟨hm, h.received, hprogram, nofun, nofun⟩
    case failed | unpublished => exact ⟨hm, h.received, hprogram, fun _ => hinput, nofun⟩
    case published encoder encoded _ valid he =>
      have ⟨frame, hframe⟩ := uploaded.decoded
      simp only [hm] at he
      exact ⟨hm, h.received, hprogram, fun _ => hinput, fun _ => ⟨charged.hasInput, f, hp, hcode rfl uploaded,
        carries_of_encode narrow h.received (rows_le_of_decodeInputFrame hframe) hout valid he⟩⟩

theorem sound_run (sha : Digest) (k : Kernels) (h : new m = .ok start) (calls : List Call) :
    Sound sha k m start calls (start.run sha k calls) := by
  induction calls using List.reverseRecOn
  case nil => exact sound_new h
  case append_singleton calls c ih =>
    rw [run_concat]
    cases c
    case load artifact => exact ih.load artifact
    case upload frame => exact ih.upload frame
    case evaluate => exact ih.evaluate
    case reset | trap => exact ih.clear nofun rfl
    case cancel => exact ih.keep rfl rfl
    case setFuel fuel =>
      refine ih.keep rfl ?_
      simp only [call, setFuel]
      split <;> rfl
    case readResult dst =>
      refine ih.keep rfl ?_
      simp only [call, readResult]
      repeat' split
      all_goals rfl
    case readMetadata dst =>
      refine ih.keep rfl ?_
      simp only [call, readMetadata]
      repeat' split
      all_goals rfl

end Runtime
end NornRune
