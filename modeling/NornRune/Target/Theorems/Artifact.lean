import NornRune.Execution.Theorems.Execute
import NornRune.Compile.Theorems.Accepted
import NornRune.Target.Artifact
import NornRune.Target.Theorems.Frame
import NornRune.Target.Theorems.Program

namespace NornRune

variable {sha : Digest} {k : Kernels} {m : Manifest} {src : List Byte}

theorem Profile.ofCode_code (p : Profile) : ofCode p.code = p := by
  cases p <;> rfl

theorem Profile.code_lt (p : Profile) : p.code < 2 ^ 8 := by
  cases p <;> decide

variable {ss : List SectionSpec} {f compiled : ProgramFile} {dst out : List Byte}

theorem appendProgramSections_eq_some {σ : Type} {value : σ} {leaves : List (ProgramLeaf σ)}
    {sections : List SectionSpec} (h : appendProgramSections value leaves sections = some ss) :
    ss = sections ++ specs value leaves sections.length ∧
      ∀ s ∈ specs value leaves sections.length, s.Fits := by
  induction leaves generalizing sections
  case nil =>
    cases h
    exact ⟨(List.append_nil _).symm, fun _ hm => by cases hm⟩
  case cons leaf leaves ih =>
    rw [appendProgramSections] at h
    have ⟨hlen, h⟩ := Checked.ite_eq_of_ne h nofun
    rw [Option.bind_eq_bind, Option.bind_eq_some_iff] at h
    have ⟨(s, _), hs, h⟩ := h
    have ⟨heq, hc⟩ := ProgramLeaf.encodeReuse_eq_some hs
    have ⟨hss, fits⟩ := ih h
    rw [List.length_append, List.length_singleton] at hss fits
    refine ⟨by rw [hss, heq, specs, List.append_assoc, List.singleton_append], fun t ht => ?_⟩
    rcases List.mem_cons.mp ht with rfl | ht
    case inl =>
      simp only [maxUint16, maxUint32] at hlen hc
      rw [heq] at hc
      exact ⟨by simp only [ProgramLeaf.spec]; omega, by omega⟩
    case inr => exact fits t ht

theorem artifactFormat_fits (limits : Limits) : (artifactFormat limits).Fits :=
  ⟨by simp only [artifactFormat, artifactMagic]; decide, limits.maxProgramColumns.toNat_lt⟩

theorem length_le_of_preflightHeader {f : Format} {r : ArtifactHeader × Nat}
    (h : preflightHeader sha src f = some r) : src.length ≤ f.maxBytes := by
  unfold preflightHeader at h
  have ⟨hc, h⟩ := Checked.ite_eq_of_ne h nofun
  simp only [not_or, Nat.not_lt] at hc
  exact hc.2.2.2.1

theorem Manifest.validate_eq_ok (h : m.validate = .ok ()) :
    m.abi.toNat = currentABIVersion ∧ m.schema.toNat = currentSchemaVersion ∧ m.profile.valid ∧
      m.requiredCapabilities &&& ~~~capabilityAll = 0 ∧ m.limits.valid := by
  unfold validate at h
  have ⟨hv, h⟩ := Checked.ite_eq_of_ne h nofun
  have ⟨hp, h⟩ := Checked.ite_eq_of_ne h nofun
  have ⟨_, h⟩ := Checked.ite_eq_of_ne h nofun
  have ⟨hl, h⟩ := Checked.ite_eq_of_ne h nofun
  rw [not_or, not_not, not_not] at hv
  simp only [not_or, Bool.not_eq_true', Bool.not_eq_false, not_not] at hp
  rw [Bool.not_eq_true', Bool.not_eq_false] at hl
  exact ⟨hv.1, hv.2, hp.1, hp.2, hl⟩

def builtHeader (m : Manifest) (bytes sections : Nat) : ArtifactHeader :=
  ⟨bytes, m.limits, m.requiredCapabilities.toNat, sections, currentABIVersion, currentSchemaVersion,
    m.profile.code⟩

theorem manifest_builtHeader (h : m.validate = .ok ()) (bytes sections : Nat) :
    (builtHeader m bytes sections).manifest = m := by
  have ⟨ha, hs, _⟩ := Manifest.validate_eq_ok h
  simp only [ArtifactHeader.manifest, builtHeader, UInt32.ofNat_toNat, Profile.ofCode_code, ← ha, ← hs,
    UInt16.ofNat_toNat]

theorem preflightEnvelope_of_sealed (hm : m.validate = .ok ())
    (hlen : ss.length ≤ m.limits.maxProgramColumns.toNat)
    (built : Sealed sha (artifactFormat m.limits) m.profile.code m.requiredCapabilities.toNat m.limits ss src) :
    preflightEnvelope sha src m = .ok (builtHeader m src.length ss.length,
      placements (descriptorOffset artifactHeaderBytes ss.length) ss) := by
  have ⟨_, _, hp, hc, hl⟩ := Manifest.validate_eq_ok hm
  have hbytes : src.length ≤ m.limits.maxArtifactBytes.toNat :=
    length_le_of_preflightHeader built.header
  have hmanifest := manifest_builtHeader hm src.length ss.length
  have hheader : preflightHeader sha src (artifactFormat m.limits) =
      some (builtHeader m src.length ss.length, descriptorOffset artifactHeaderBytes ss.length) :=
    built.header
  have hdescriptors : preflightDescriptors src artifactHeaderBytes ss.length
      (descriptorOffset artifactHeaderBytes ss.length) =
        some (placements (descriptorOffset artifactHeaderBytes ss.length) ss) := built.descriptors
  refine Checked.bind_eq_ok_iff.mpr ⟨(), hm, ?_⟩
  simp only [hheader, hmanifest, hm]
  rw [if_neg (by simp [builtHeader]), if_neg, if_neg (absurd rfl), if_neg (absurd rfl)]
  · simp only [builtHeader, hdescriptors]
  · simp only [hp, hc, builtHeader, hl, Bool.not_true, Bool.false_eq_true, ne_eq, not_true_eq_false,
      false_or, not_or, Nat.not_lt]
    exact ⟨hbytes, hlen⟩

theorem preflightEnvelope_eq_ok {header : ArtifactHeader} {ds : List SectionDescriptor}
    (h : preflightEnvelope sha src m = .ok (header, ds)) :
    ∃ stop, preflightHeader sha src (artifactFormat m.limits) = some (header, stop) ∧
      preflightDescriptors src artifactHeaderBytes header.sectionCount stop = some ds := by
  have ⟨_, _, h⟩ := Checked.of_bind h
  split at h
  case h_1 => cases h
  case h_2 header' stop hh =>
    have ⟨_, h⟩ := Checked.of_guard h
    have ⟨_, h⟩ := Checked.of_guard h
    have ⟨_, h⟩ := Checked.of_guard h
    have ⟨_, h⟩ := Checked.of_guard h
    split at h
    case h_1 => cases h
    case h_2 hd =>
      cases h
      exact ⟨stop, hh, hd⟩

theorem buildEnvelope_ok (hm : m.validate = .ok ())
    (h : (artifactFormat m.limits).Admits m.limits dst.length ss) :
    ∃ out, buildEnvelope sha dst m ss = some out := by
  rw [buildEnvelope, if_neg]
  · exact buildSections_ok h
  · rw [not_or, not_not, Nat.not_lt]
    exact ⟨hm, h.count⟩

-- The sections of bytes that the preflight accepts lie apart from each other behind the descriptors.
-- Sections within the limits are built, and it accepts what is built, with the sections at the places
-- that it reports.
theorem preflight_sound (sha : Digest) :
    (∀ f src header ds, preflightSections sha src f = some (header, ds) →
      ds.length = header.sectionCount ∧
        Laid (descriptorOffset f.headerBytes header.sectionCount) src.length ds) ∧
    (∀ m src header ds, preflightEnvelope sha src m = .ok (header, ds) →
      ds.length = header.sectionCount ∧
        Laid (descriptorOffset artifactHeaderBytes header.sectionCount) src.length ds) ∧
    (∀ f tag flags limits ss dst, f.Fits → tag < 2 ^ 8 → flags < 2 ^ 32 → (∀ s ∈ ss, s.Fits) →
      (f.Admits limits dst.length ss →
        ∃ out, buildSections sha dst f tag flags limits ss = some out) ∧
      ∀ out, buildSections sha dst f tag flags limits ss = some out →
        ∃ src header ds, out = dst ++ src ∧ preflightSections sha src f = some (header, ds) ∧
          ds.map (fun d => Region.read src d.offset d.bytes) = ss.map (·.data)) ∧
    (∀ m ss dst, (∀ s ∈ ss, s.Fits) →
      (m.validate = .ok () → (artifactFormat m.limits).Admits m.limits dst.length ss →
        ∃ out, buildEnvelope sha dst m ss = some out) ∧
      ∀ out, buildEnvelope sha dst m ss = some out →
        ∃ src header ds, out = dst ++ src ∧ preflightEnvelope sha src m = .ok (header, ds) ∧
          ds.map (fun d => Region.read src d.offset d.bytes) = ss.map (·.data)) := by
  refine ⟨fun f src header ds h => ?_, fun m src header ds h => ?_,
    fun f tag flags limits ss dst ff ht hf fits => ⟨buildSections_ok, fun out h => ?_⟩,
    fun m ss dst fits => ⟨buildEnvelope_ok, fun out h => ?_⟩⟩
  case refine_1 =>
    rw [preflightSections, Option.bind_eq_bind, Option.bind_eq_some_iff] at h
    obtain ⟨⟨header', stop⟩, hh, h⟩ := h
    simp only at h
    obtain ⟨_, h⟩ := Checked.ite_eq_of_ne h (by rintro ⟨⟩)
    obtain ⟨ds', hd, h⟩ := Option.bind_eq_some_iff.mp h
    cases h
    obtain ⟨rfl, hlen⟩ := descriptorEnd_of_preflightHeader hh
    exact laid_of_preflightDescriptors hd hlen
  case refine_2 =>
    obtain ⟨stop, hh, hd⟩ := preflightEnvelope_eq_ok h
    obtain ⟨rfl, hlen⟩ := descriptorEnd_of_preflightHeader hh
    exact laid_of_preflightDescriptors hd hlen
  case refine_3 =>
    obtain ⟨src, hout, built⟩ := sealed_buildSections ff ht hf fits h
    exact ⟨src, _, _, hout, preflightSections_of_sealed (length_le_of_buildSections h) built, built.data⟩
  case refine_4 =>
    unfold buildEnvelope at h
    obtain ⟨hc, h⟩ := Checked.ite_eq_of_ne h (by rintro ⟨⟩)
    rw [not_or, not_not, Nat.not_lt] at hc
    obtain ⟨src, hout, built⟩ := sealed_buildSections (artifactFormat_fits _) (Profile.code_lt _)
      m.requiredCapabilities.toNat_lt fits h
    exact ⟨src, _, _, hout, preflightEnvelope_of_sealed hc.1 hc.2 built, built.data⟩

def someManifest : Manifest where
  limits := someLimits
  requiredCapabilities := 0
  abi := 1
  schema := 1
  profile := .wasi

-- A byte and two words, which are aligned to four bytes.
def twoSections : List SectionSpec :=
  [⟨[1#8], 1, 1, 1⟩, ⟨Wire.put 4 2 ++ Wire.put 4 3, 2, 3, 4⟩]

theorem preflight_sound_twoSections :
    (artifactFormat someManifest.limits).Admits someManifest.limits 1 twoSections ∧
    ∃ src header ds, buildEnvelope blankDigest [7#8] someManifest twoSections = some ([7#8] ++ src) ∧
      preflightEnvelope blankDigest src someManifest = .ok (header, ds) ∧
      ds.map (fun d => Region.read src d.offset d.bytes) = twoSections.map (·.data) ∧
      ds.length = header.sectionCount ∧
      Laid (descriptorOffset artifactHeaderBytes header.sectionCount) src.length ds := by
  have admits : (artifactFormat someManifest.limits).Admits someManifest.limits 1 twoSections :=
    ⟨.inr ⟨rfl, by decide⟩, by decide, by decide, by decide, by decide, by decide, by decide⟩
  have fits : ∀ s ∈ twoSections, s.Fits := fun s hs => by
    rcases List.mem_pair.mp hs with rfl | rfl <;> exact ⟨by decide, by decide⟩
  have ⟨_, laid, _, built⟩ := preflight_sound blankDigest
  have ⟨returns, accepted⟩ := built someManifest twoSections [7#8] fits
  have ⟨out, hout⟩ := returns (by decide) admits
  have ⟨src, header, ds, he, hp, hdata⟩ := accepted out hout
  exact ⟨admits, src, header, ds, he ▸ hout, hp, hdata, laid _ _ _ _ hp⟩

namespace Program

variable {p : Program}

theorem validateResultTables_of_ok {r : Resolver} (h : p.resultTables.validateResultTables = .ok r) :
    p.validateResultTables = .ok { p with
      resolver := r, resolver_eq := .inr (p.resultTables.new_of_validateResultTables h) } := by
  unfold validateResultTables
  split
  case h_1 h' =>
    rw [h] at h'
    cases h'
  case h_2 h' =>
    rw [h] at h'
    cases h'
    rfl

theorem freeze_eq_ok {q : Program} (h : p.freeze = .ok q) :
    q.bare.validateResultTables = .ok q ∧ q.clauseRemediationIDs = q.resolutions.remediationIDs := by
  have h' := h
  rw [freeze] at h'
  unfold validateResultTables at h'
  split at h'
  case h_1 => cases h'
  case h_2 r hr =>
    cases h'
    exact ⟨h, rfl⟩

theorem freeze_eq_self (h : p.resultTables.validateResultTables = .ok p.resolver)
    (hr : p.resolutions.remediationIDs = p.clauseRemediationIDs) : p.freeze = .ok p := by
  have htables : { p.resolutions with remediationIDs := p.clauseRemediationIDs } = p.resolutions := by
    rw [← hr]
  rw [freeze, htables]
  exact p.bare.validateResultTables_of_ok h

theorem validDecodedSymbols_of_named {names : List (List Byte)} (h : p.Named names) :
    p.validDecodedSymbols := by
  have hrun : ∀ n ≤ names.length, (List.range n).foldlM p.validDecodedSymbol 0 =
      some (names.take n).flatten.length := by
    intro n hn
    induction n
    case zero => rfl
    case succ n ih =>
      have hname : names[n]? = some names[n] := List.getElem?_eq_getElem hn
      have hstart : p.symbolStarts.getD n 0 = (names.take n).flatten.length := by
        rw [h.starts, List.getD_eq_getElem?_getD, Ragged.getElem?_starts hn, Option.getD_some]
      have hlength : p.symbolLengths.getD n 0 = names[n].length := by
        rw [h.lengths, List.getD_eq_getElem?_getD, List.getElem?_map, hname, Option.map_some,
          Option.getD_some]
      have hle := Ragged.le_length_flatten hname
      have hsymbol : p.symbol (n + 1) = some names[n] := (h.symbol_eq n.succ_ne_zero).trans hname
      have hlookup : p.lookupSymbol names[n] = some (n + 1) :=
        h.lookupSymbol_eq_some.mpr ⟨n.succ_ne_zero, hname⟩
      rw [List.range_succ, List.foldlM_append, ih (by omega)]
      simp only [Option.bind_eq_bind, Option.bind_some, List.foldlM_cons, List.foldlM_nil,
        validDecodedSymbol, hstart, hlength, h.bytes]
      rw [if_neg (by omega), hsymbol]
      simp only [Option.bind_some, hlookup, ne_eq, not_true_eq_false, if_false]
      rw [List.take_succ_eq_append_getElem hn, List.flatten_append, List.flatten_singleton,
        List.length_append]
      rfl
  have ⟨slots, hf, hashes, ids⟩ := h.frozen
  have ⟨k, hk⟩ := hf.length
  have hcount : p.symbolStarts.length = names.length := by rw [h.starts, Ragged.length_starts]
  simp only [validDecodedSymbols, hcount, hrun _ (Nat.le_refl _), List.take_length, h.bytes, h.lengths,
    h.count, List.length_map, hashes, ids, hk, Nat.and_two_pow_sub_one_eq_mod, Nat.mod_self]
  simp

end Program

section Lowered

variable {doc : Document} {fields : Schema} {symbols : Interner} {c : Constants}
  {t₀ : InstructionTable} {t : ScheduledTable} {s : Semantics} {slots : Slots} {indexes : Indexes}
  {p : Program}

variable (h : Lowered doc fields symbols c t₀ t s slots indexes p)
include h

theorem Lowered.freeze_eq_self :
    p.freeze = .ok p := by
  have parts := lowerSemantics_eq_ok h.semantics
  have columns := h.columns
  refine Program.freeze_eq_self ?_ ?_
  · rw [← columns.resolver]
    simp only [Program.resultTables, columns.templates, columns.explanations, columns.outcomes,
      columns.remediations, columns.resolutions, columns.evidenceIssueNodeIDs,
      columns.evidenceIssueTemplateIDs, columns.clauseExplanationIDs, ← parts.explanationIDs]
  · rw [columns.resolutions, columns.clauseRemediationIDs, parts.remediationIDs]

theorem Lowered.validDecodedSymbols :
    p.validDecodedSymbols := by
  have ⟨names, parts⟩ := lowerConstants_eq_ok h.constants
  have hn := parts.holds
  exact Program.validDecodedSymbols_of_named (h.columns.named hn)

end Lowered

namespace ProgramFile

variable {f frozen : ProgramFile}

def metadata (f : ProgramFile) (m : Manifest) (artifact : List Byte) : Metadata where
  artifactHash := Region.read artifact artifactHashOffset artifactHashBytes
  programHash := f.contentHash
  limits := m.limits
  requiredCapabilities := m.requiredCapabilities
  abi := m.abi
  schema := m.schema
  profile := m.profile

theorem freeze_eq_ok (h : f.freeze = .ok frozen) :
    f.program.freeze = .ok frozen.program ∧ frozen = { f with program := frozen.program } := by
  have ⟨p, hp, h⟩ := Checked.of_bind h
  cases h
  exact ⟨hp, rfl⟩

theorem accept_bare (h : f.freeze = .ok frozen) (hash : sha.sum f.inputBytes = f.contentHash) :
    frozen.bare.accept sha k =
      if frozen.program.validDecodedSymbols ∧ validDecodedProgram k frozen.program then .ok frozen
      else .error .invalidArtifact := by
  obtain ⟨hp, hf⟩ := freeze_eq_ok h
  obtain ⟨hv, hr⟩ := Program.freeze_eq_ok hp
  have hhash : sha.sum frozen.bare.inputBytes = frozen.bare.contentHash := by
    rw [hf]
    exact hash
  rw [accept, if_neg]
  case hnc => exact fun hc => hc.elim (absurd hhash) (absurd hr)
  have hv : frozen.bare.program.validateResultTables = _ := hv
  simp only [hv]
  split
  case isTrue hc =>
    rw [if_neg]
    rw [not_and_or]
    simpa using hc
  case isFalse hc =>
    rw [if_pos (by simpa [not_or] using hc)]
    rfl

end ProgramFile

theorem decodeProgram_of_sealed (hm : m.validate = .ok ())
    (hlen : ProgramFile.leaves.length ≤ m.limits.maxProgramColumns.toNat) (typed : f.typed)
    (built : Sealed sha (artifactFormat m.limits) m.profile.code m.requiredCapabilities.toNat m.limits (specs f ProgramFile.leaves 0) src) :
    decodeProgram sha k src m =
      (f.bare.accept sha k).map fun decoded => (decoded, decoded.metadata m src) := by
  have hpre := preflightEnvelope_of_sealed hm (by rwa [length_specs]) built
  have hdecode := @decodeSections_specs _ ProgramFile.leaves f src [] _ _ (List.all_eq_true.mp typed)
    f.copyAll_leaves built.data .zero
  simp only [List.nil_append, List.length_nil, Nat.zero_add] at hdecode
  have hmanifest := manifest_builtHeader hm src.length (specs f ProgramFile.leaves 0).length
  have hdecode : decodeSections src (placements (descriptorOffset artifactHeaderBytes _) _)
      ProgramFile.leaves 0 .zero = _ := hdecode
  simp only [decodeProgram, hpre, Checked.ok_bind]
  rw [hdecode]
  simp only [length_placements, length_specs, ne_eq, not_true_eq_false, if_false]
  cases f.bare.accept sha k
  case error => rfl
  case ok decoded =>
    exact congrArg (fun m => Except.ok (decoded, decoded.metadata m src)) hmanifest

theorem decodeProgram_encode (h : encodeProgram sha dst compiled m = .ok out) :
    ∃ frozen artifact, compiled.freeze = .ok frozen ∧ out = dst ++ artifact ∧
      (frozen.typed → ∀ k, decodeProgram sha k artifact m =
        if frozen.program.validDecodedSymbols ∧ validDecodedProgram k frozen.program then
          .ok (frozen, frozen.metadata m artifact)
        else .error .invalidArtifact) ∧
      ∀ leaf ∈ ProgramFile.leaves, (leaf.bits frozen).length ≤ maxUint32 := by
  unfold encodeProgram at h
  have ⟨hash, h⟩ := Checked.ite_eq_of_ne h nofun
  rw [not_not] at hash
  split at h
  case h_1 => cases h
  case h_2 frozen hf =>
    split at h
    case h_1 => cases h
    case h_2 sections hs =>
      split at h
      case h_1 => cases h
      case h_2 out' hb =>
        cases h
        have ⟨hss, fits⟩ := appendProgramSections_eq_some hs
        rw [List.nil_append] at hss
        subst hss
        unfold buildEnvelope at hb
        have ⟨hm, hb⟩ := Checked.ite_eq_of_ne hb nofun
        rw [not_or, not_not, Nat.not_lt, length_specs] at hm
        have ⟨artifact, hout, built⟩ := sealed_buildSections (artifactFormat_fits _)
          (Profile.code_lt _) m.requiredCapabilities.toNat_lt fits hb
        refine ⟨frozen, artifact, hf, hout, fun typed k => ?_, fun leaf hl => ?_⟩
        case refine_1 =>
          rw [decodeProgram_of_sealed hm.1 hm.2 typed built, ProgramFile.accept_bare hf hash]
          split <;> rfl
        case refine_2 =>
          have ⟨_, hs⟩ := @exists_mem_specs _ _ frozen _ hl 0
          exact Nat.le_of_lt_succ (fits _ hs).count

theorem decodeProgram_lowered (sha : Digest) (k : Kernels) {doc : Document} {fields : Schema}
    {symbols : Interner} (hl : lower doc fields symbols = .ok compiled.program)
    (typed : compiled.typed) (h : encodeProgram sha dst compiled m = .ok out) :
    ∃ artifact, out = dst ++ artifact ∧ compiled.freeze = .ok compiled ∧
      decodeProgram sha k artifact m =
        (if validDecodedProgram k compiled.program then .ok (compiled, compiled.metadata m artifact)
        else .error .invalidArtifact) ∧
      compiled.program.clauseAssertionRoots.length ≤ maxUint32 := by
  have ⟨_, _, _, _, _, _, lowered⟩ := lower_eq_ok hl
  have hself : compiled.freeze = .ok compiled := by
    rw [ProgramFile.freeze, lowered.freeze_eq_self]
    rfl
  have ⟨frozen, artifact, hf, hout, hdecode, hcount⟩ := decodeProgram_encode h
  rw [hself] at hf
  cases hf
  refine ⟨artifact, hout, hself, ?_, ?_⟩
  case refine_1 =>
    rw [hdecode typed k]
    simp only [lowered.validDecodedSymbols, true_and]
  case refine_2 =>
    have hmem : ProgramFile.part (Program.clauseLeaves.head nofun) ∈ ProgramFile.leaves := by
      simp only [ProgramFile.leaves, List.mem_append]
      exact .inl (.inl (.inl (.inl (.inl (.inl (.inr (List.mem_map_of_mem (List.head_mem _))))))))
    exact (List.length_map _).symm.trans_le (hcount _ hmem)

theorem validDecodedProgram_iff (k : Kernels) (p : Program) :
    validDecodedProgram k p ↔ ∃ out, p.evaluate noRequests = .returned out := by
  have ⟨_, hout⟩ := Executor.executeMode_spec k (Executor.cached_zero fun _ => p) .empty 0 noRequests .auto
  simp only [validDecodedProgram, Executor.execute, ← hout]
  cases (Executor.zero.executeMode k (fun _ => p) .empty 0 noRequests .auto).2.2
  case ok => simp [Outcome.of]
  case error f => cases f <;> simp [Outcome.of]

-- A program that was lowered is read back exactly if each of its groups has at least two operands.
theorem decodeProgram_lowered_iff (sha : Digest) (k : Kernels) {doc : Document} {fields : Schema}
    {symbols : Interner} {compiled : ProgramFile} (hl : lower doc fields symbols = .ok compiled.program)
    (typed : compiled.typed) {dst artifact : List Byte}
    (h : encodeProgram sha dst compiled m = .ok (dst ++ artifact)) :
    (∃ frozen metadata, compiled.freeze = .ok frozen ∧
      decodeProgram sha k artifact m = .ok (frozen, metadata)) ↔
        ∀ row, (compiled.program.opcodes.getD row .invalid).isGroup →
          2 ≤ compiled.program.operandCounts.getD row 0 := by
  have ⟨_, hout, hself, hdecode, hmax⟩ := decodeProgram_lowered sha k hl typed h
  cases List.append_cancel_left hout
  have ⟨lineage⟩ := Lineage.of_lower hl
  rw [← lineage.accepted_iff hmax, ← validDecodedProgram_iff k, hself, hdecode]
  constructor
  case mp =>
    rintro ⟨frozen, metadata, _, hd⟩
    by_contra hv
    rw [if_neg hv] at hd
    cases hd
  case mpr =>
    intro hv
    exact ⟨compiled, _, rfl, if_pos hv⟩

def singlePolicy : Document :=
  flagPolicy [.compare, .all] [0, 0] [0] [1] [1] [] 2

def singleProgram : Program :=
  (lower singlePolicy flagSchema flagSymbols).toOption.get (by decide +kernel)

theorem lower_singlePolicy : lower singlePolicy flagSchema flagSymbols = .ok singleProgram :=
  Checked.eq_ok_of_toOption _

def compiledFile (program : Program) : ProgramFile :=
  { ProgramFile.zero with program }

theorem decodeProgram_lowered_iff_nested :
    lower nestedPolicy flagSchema flagSymbols = .ok (compiledFile nestedProgram).program ∧
      ∃ artifact,
        encodeProgram blankDigest [] (compiledFile nestedProgram) someManifest = .ok ([] ++ artifact) ∧
        ∃ frozen metadata, (compiledFile nestedProgram).freeze = .ok frozen ∧
          decodeProgram blankDigest .portable artifact someManifest = .ok (frozen, metadata) := by
  have ⟨artifact, he⟩ :
      ∃ out, encodeProgram blankDigest [] (compiledFile nestedProgram) someManifest = .ok out :=
    ⟨_, Checked.eq_ok_of_toOption (by decide +kernel)⟩
  refine ⟨lower_nestedPolicy, artifact, he, ?_⟩
  refine (decodeProgram_lowered_iff blankDigest .portable lower_nestedPolicy (by decide +kernel) he).mpr ?_
  have hgroups : ∀ row < nestedProgram.opcodes.length, (nestedProgram.opcodes.getD row .invalid).isGroup →
      2 ≤ nestedProgram.operandCounts.getD row 0 := by decide +kernel
  exact fun row hg => hgroups row (Opcode.lt_of_isGroup hg) hg

theorem single_not_read_back :
    lower singlePolicy flagSchema flagSymbols = .ok (compiledFile singleProgram).program ∧
      (compiledFile singleProgram).typed ∧
      ∃ artifact, encodeProgram blankDigest [] (compiledFile singleProgram) someManifest = .ok artifact ∧
        decodeProgram blankDigest .portable artifact someManifest = .error .invalidArtifact := by
  have typed : (compiledFile singleProgram).typed := by decide +kernel
  have ⟨artifact, he⟩ :
      ∃ out, encodeProgram blankDigest [] (compiledFile singleProgram) someManifest = .ok out :=
    ⟨_, Checked.eq_ok_of_toOption (by decide +kernel)⟩
  have ⟨_, hout, _, hdecode, _⟩ :=
    decodeProgram_lowered blankDigest .portable lower_singlePolicy typed he
  rw [List.nil_append] at hout
  cases hout
  exact ⟨lower_singlePolicy, typed, artifact, he, hdecode.trans (if_neg (by decide +kernel))⟩

theorem narrow_of_decodeProgram {metadata : Metadata}
    (h : decodeProgram sha k src m = .ok (f, metadata)) : f.program.Narrow := by
  have ⟨(header, descriptors), _, h⟩ := Checked.of_bind h
  have hread : ProgramFile.zero.program.Narrow :=
    ⟨fun _ hn => (List.not_mem_nil hn).elim, fun _ hn => (List.not_mem_nil hn).elim⟩
  replace hread := keeps_decodeSections src descriptors 0
    ProgramFile.keeps_leaves hread
  simp only at h
  split at h
  case h_1 => cases h
  case h_2 decoded _ heq =>
    rw [heq] at hread
    have ⟨_, h⟩ := Checked.ite_eq_of_ne h nofun
    have ⟨accepted, ha, h⟩ := Checked.of_bind h
    cases h
    unfold ProgramFile.accept at ha
    have ⟨_, ha⟩ := Checked.ite_eq_of_ne ha nofun
    split at ha
    case h_1 => cases ha
    case h_2 program hp =>
      have ⟨_, ha⟩ := Checked.ite_eq_of_ne ha nofun
      cases ha
      unfold Program.validateResultTables at hp
      split at hp
      case h_1 => cases hp
      case h_2 =>
        cases hp
        exact ⟨hread.counts, hread.words⟩

end NornRune
