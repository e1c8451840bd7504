import NornRune.Target.Frame
import NornRune.Target.Theorems.Leaf

namespace NornRune

section Frames

variable {σ : Type} {sha : Digest} {leaves : List (ProgramLeaf σ)} {value : σ} {kind : FrameKind}
  {maxBytes : UInt64} {maxSections : UInt32}

theorem frameFormat_fits (maxBytes : UInt64) (maxSections : UInt32) :
    (frameFormat maxBytes maxSections).Fits :=
  ⟨by simp only [frameFormat, frameMagic]; decide, maxSections.toNat_lt⟩

theorem decodeFrame_of_sealed {src : List Byte} {g : σ → σ}
    (built : Sealed sha (frameFormat maxBytes maxSections) kind.tag 0 .zero (specs value leaves 0) src)
    (hmax : leaves.length ≤ maxSections.toNat) (typed : ∀ leaf ∈ leaves, leaf.typed value)
    (hcopy : copyAll value leaves = some g) (dst : σ) :
    decodeFrame sha dst leaves src kind maxBytes maxSections = (g dst, .ok ()) := by
  have hdecode := @decodeSections_specs σ leaves value src [] _ g typed hcopy built.data dst
  have hpre := preflightSections_of_sealed (by rwa [length_specs]) built
  rw [length_specs] at hpre hdecode
  simp only [decodeFrame, hpre, ne_eq, not_true_eq_false, or_self, if_false]
  simp only [List.nil_append, List.length_nil, Nat.zero_add] at hdecode
  rw [hdecode]
  simp

theorem decodeFrame_encode {encoder : FrameEncoder} {buffer out : List Byte} {g : σ → σ}
    (h : (encoder.encode sha buffer kind leaves value maxBytes maxSections).2 = .ok out)
    (typed : ∀ leaf ∈ leaves, leaf.typed value) (hcopy : copyAll value leaves = some g) :
    ∃ frame, out = buffer ++ frame ∧
      ∀ dst, decodeFrame sha dst leaves frame kind maxBytes maxSections = (g dst, .ok ()) := by
  simp only [FrameEncoder.encode] at h
  split at h
  case isTrue => cases h
  case isFalse hc =>
    rw [not_or, Nat.not_lt, Nat.not_lt] at hc
    cases hf : fillSections value leaves 0 (encoder.buffers.resize .empty leaves.length)
    case mk buffers ss =>
      cases ss
      case none =>
        rw [hf] at h
        cases h
      case some ss =>
        have ⟨hss, hbound⟩ := fillSections_eq_some hf
        have fits : ∀ s ∈ ss, s.Fits := fun s hm => by
          have := hbound s hm
          simp only [maxUint16, maxUint32, Nat.zero_add] at hc this
          exact ⟨by omega, by omega⟩
        rw [hf] at h
        cases hb : buildSections sha buffer (frameFormat maxBytes maxSections) kind.tag 0 .zero ss
        case none =>
          simp only [hb] at h
          cases h
        case some encoded =>
          simp only [hb, Except.ok.injEq] at h
          subst h
          have ht : kind.tag < 2 ^ 8 := by cases kind <;> decide
          have ⟨frame, hframe, built⟩ := sealed_buildSections (frameFormat_fits ..) ht (by decide) fits hb
          rw [hss] at built
          exact ⟨frame, hframe, decodeFrame_of_sealed built hc.2 typed hcopy⟩

theorem update_of_decodeFrame {src : List Byte} {dst dst' : σ}
    (h : decodeFrame sha dst leaves src kind maxBytes maxSections = (dst', .ok ())) :
    ∃ g, Update leaves g ∧ dst' = g dst ∧
      ∀ u, decodeFrame sha u leaves src kind maxBytes maxSections = (g u, .ok ()) := by
  simp only [decodeFrame] at h ⊢
  cases hp : preflightSections sha src (frameFormat maxBytes maxSections)
  case none =>
    rw [hp] at h
    cases h
  case some p =>
    have (header, descriptors) := p
    simp only [hp] at h ⊢
    have ⟨hheader, h⟩ := Checked.ite_eq_of_ne h nofun
    simp only [if_neg hheader]
    cases hd : decodeSections src descriptors leaves 0 dst
    case mk value n =>
      rw [hd] at h
      cases n
      case none => cases h
      case some n =>
        have ⟨g, update, hg, hall⟩ := update_of_decodeSections hd
        simp only [Prod.mk.injEq] at h
        refine ⟨g, update, by rw [← h.1, hg], fun u => ?_⟩
        rw [hall u]
        simp only [h.2]

end Frames

namespace Batch

-- A frame carries the columns of a batch, but not which rows of a larger batch it shows. Only the
-- evaluator makes such views, and only for itself.
def overlay (b u : Batch) : Batch :=
  { b with rowBase := u.rowBase, rowStride := u.rowStride }

structure Whole (b : Batch) : Prop where
  rowBase : b.rowBase = 0
  rowStride : b.rowStride = 0

theorem overlay_of_whole {b u : Batch} (hb : b.Whole) (hu : u.Whole) : b.overlay u = b := by
  rw [overlay, hu.rowBase.trans hb.rowBase.symm, hu.rowStride.trans hb.rowStride.symm]

theorem copyAll_leaves (b : Batch) : copyAll b leaves = some b.overlay := by
  simp only [leaves, copyAll, ProgramLeaf.column, ProgramLeaf.slice, ProgramLeaf.scalar, ProgramLeaf.ofScalars, dif_pos b.symbolValues_le]
  rfl

theorem update_leaves {g : Batch → Batch} (h : Update leaves g) : g = (g zero).overlay := by
  have ⟨xs, f, g', h', hf, hg⟩ := h.slice
  clear h
  split at hf
  case isFalse => cases hf
  case isTrue =>
    cases hf
    subst hg
    iterate 15
      have h := h'.column
      clear h'
      obtain ⟨_, _, h', hg⟩ := h
      subst hg
    have ⟨_, _, _, h, hf, hg⟩ := h'.scalar
    have hid := h.eq_id
    cases hf
    subst hg hid
    rfl

end Batch

namespace ResultBatch

theorem copyAll_leaves (b : ResultBatch) : copyAll b leaves = some fun _ => b :=
  rfl

theorem update_leaves {g : ResultBatch → ResultBatch} (h : Update leaves g) : g = fun _ => g empty := by
  iterate 18
    have h' := h.column
    clear h
    obtain ⟨_, _, h, hg⟩ := h'
    subst hg
  have ⟨_, _, _, h, hf, hg⟩ := h.scalar
  have hid := h.eq_id
  cases hf
  subst hg hid
  rfl

end ResultBatch

section RoundTrip

variable {sha : Digest} {limits : Limits} {encoder : FrameEncoder} {buffer out src : List Byte}

theorem decodeInputFrame_encode {input : Batch} (typed : input.typed)
    (h : (encoder.encodeInput sha limits buffer input).2 = .ok out) :
    ∃ frame, out = buffer ++ frame ∧
      ∀ dst, decodeInputFrame sha limits dst frame = (input.overlay dst, .ok ()) := by
  simp only [FrameEncoder.encodeInput] at h
  split at h
  case isTrue => cases h
  case isFalse hc =>
    have ⟨frame, hout, hdecode⟩ := decodeFrame_encode h (List.all_eq_true.mp typed) input.copyAll_leaves
    refine ⟨frame, hout, fun dst => ?_⟩
    simp only [decodeInputFrame, hdecode]
    exact congrArg (Prod.mk _) (if_neg hc)

theorem decodeResultFrame_encode {output : ResultBatch} (typed : output.typed)
    (h : (encoder.encodeResult sha limits buffer output).2 = .ok out) :
    ∃ frame, out = buffer ++ frame ∧
      ∀ dst, decodeResultFrame sha limits dst frame = (output, .ok ()) := by
  simp only [FrameEncoder.encodeResult] at h
  split at h
  case isTrue => cases h
  case isFalse hc =>
    have ⟨frame, hout, hdecode⟩ := decodeFrame_encode h (List.all_eq_true.mp typed) output.copyAll_leaves
    refine ⟨frame, hout, fun dst => ?_⟩
    simp only [decodeResultFrame, hdecode, if_neg hc]

theorem decodeInputFrame_eq_ok {dst input : Batch}
    (h : decodeInputFrame sha limits dst src = (input, .ok ())) (dst' : Batch) :
    decodeInputFrame sha limits dst' src = (input.overlay dst', .ok ()) := by
  simp only [decodeInputFrame] at h
  split at h
  case h_1 => cases h
  case h_2 value hd =>
    have ⟨g, update, hg, hall⟩ := update_of_decodeFrame hd
    have hover : ∀ u, g u = (g .zero).overlay u := congrFun (Batch.update_leaves update)
    simp only [Prod.mk.injEq] at h
    have ⟨hinput, hvalid⟩ := h
    rw [hg, hover] at hinput hvalid
    simp only [decodeInputFrame, hall, hover dst', ← hinput]
    exact congrArg (Prod.mk _) hvalid

theorem decodeResultFrame_eq_ok {dst output : ResultBatch}
    (h : decodeResultFrame sha limits dst src = (output, .ok ())) (dst' : ResultBatch) :
    decodeResultFrame sha limits dst' src = (output, .ok ()) := by
  simp only [decodeResultFrame] at h
  split at h
  case h_1 => cases h
  case h_2 value hd =>
    have ⟨g, update, hg, hall⟩ := update_of_decodeFrame hd
    have hover := ResultBatch.update_leaves update
    have hvalue : g dst' = value := by rw [hg, hover]
    simp only [decodeResultFrame, hall, hvalue]
    exact h

end RoundTrip

-- Frames that were encoded are decoded to what they were made from, whatever encoder and destination
-- are used. A call that reports success has replaced the whole destination by what the frame holds.
theorem decode_encode_frame (sha : Digest) (limits : Limits) (encoder : FrameEncoder)
    (buffer : List Byte) :
    (∀ (input : Batch) (out : List Byte), input.typed →
      (encoder.encodeInput sha limits buffer input).2 = .ok out →
      ∃ frame, out = buffer ++ frame ∧ ∀ dst,
        decodeInputFrame sha limits dst frame = (input.overlay dst, .ok ()) ∧
        (input.Whole → dst.Whole → (decodeInputFrame sha limits dst frame).1 = input)) ∧
    (∀ (output : ResultBatch) (out : List Byte), output.typed →
      (encoder.encodeResult sha limits buffer output).2 = .ok out →
      ∃ frame, out = buffer ++ frame ∧ ∀ dst,
        decodeResultFrame sha limits dst frame = (output, .ok ())) ∧
    (∀ (src : List Byte) (dst input : Batch), decodeInputFrame sha limits dst src = (input, .ok ()) →
      ∀ dst', decodeInputFrame sha limits dst' src = (input.overlay dst', .ok ())) ∧
    (∀ (src : List Byte) (dst output : ResultBatch),
      decodeResultFrame sha limits dst src = (output, .ok ()) →
      ∀ dst', decodeResultFrame sha limits dst' src = (output, .ok ())) := by
  refine ⟨fun input out typed h => ?_, fun output out typed h => decodeResultFrame_encode typed h,
    fun src dst input h => decodeInputFrame_eq_ok h, fun src dst output h => decodeResultFrame_eq_ok h⟩
  have ⟨frame, hout, hdecode⟩ := decodeInputFrame_encode typed h
  refine ⟨frame, hout, fun dst => ⟨hdecode dst, fun hi hd => ?_⟩⟩
  rw [hdecode dst, Batch.overlay_of_whole hi hd]

def oneRequest : Batch :=
  { Batch.zero with
    symbolValues := [7]
    integerValues := [-1]
    booleanValues := [1#64]
    presenceMasks := [1#64, 1#64, 1#64]
    requestIDs := [1]
    evidenceOffsets := [0, 1]
    evidenceRefs := [0]
    evidence := ⟨[1], [1], [1], [0], [0], [0], [0], [-5]⟩
    rows := 1
    symbolValues_le := by decide }

def someLimits : Limits where
  maxArtifactBytes := 1000000
  maxInputBytes := 1000000
  maxOutputBytes := 1000000
  maxFuel := 1000000
  maxRows := 1000
  maxProgramColumns := 1000

def blankDigest : Digest where
  sum _ := List.replicate 32 0#8
  length_sum _ := List.length_replicate

def twoRequests : Batch :=
  { oneRequest with symbolValues := [8, 9], requestIDs := [1, 2], rows := 2, symbolValues_le := by decide }

def usedEncoder : FrameEncoder :=
  (FrameEncoder.zero.encodeInput blankDigest someLimits [] twoRequests).1

-- The encoder was used for another batch, which is in the destination as well.
theorem decode_encode_frame_oneRequest : ∃ frame,
    (usedEncoder.encodeInput blankDigest someLimits [9#8] oneRequest).2 = .ok ([9#8] ++ frame) ∧
      (decodeInputFrame blankDigest someLimits twoRequests frame).1 = oneRequest := by
  have hok :
      (usedEncoder.encodeInput blankDigest someLimits [9#8] oneRequest).2.toOption.isSome := by
    decide +kernel
  cases h : (usedEncoder.encodeInput blankDigest someLimits [9#8] oneRequest).2
  case error =>
    rw [h] at hok
    cases hok
  case ok out =>
    have ⟨frame, hout, hdecode⟩ := (decode_encode_frame blankDigest someLimits usedEncoder [9#8]).1
      oneRequest out (by decide) h
    exact ⟨frame, congrArg Except.ok hout, (hdecode twoRequests).2 ⟨rfl, rfl⟩ ⟨rfl, rfl⟩⟩

end NornRune
