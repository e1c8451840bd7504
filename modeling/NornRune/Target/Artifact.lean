import NornRune.Compile.Lower
import NornRune.Execution.Execute
import NornRune.Target.Frame
import NornRune.Target.Program

-- Artifacts carry a compiled program, together with the manifest it was built for.
namespace NornRune

def artifactMagic : Nat := 0x4e525750

inductive Profile
  | invalid
  | wasi
  | browser
  | envoy
  | istio
  | cloudflare
  deriving DecidableEq, Repr

namespace Profile

def codes : List Profile := [.invalid, .wasi, .browser, .envoy, .istio, .cloudflare]

def code (p : Profile) : Nat :=
  codes.idxOf p

def ofCode (n : Nat) : Profile :=
  codes.getD n .invalid

def valid : Profile → Bool
  | invalid => false
  | _ => true

end Profile

def capabilityAll : UInt32 := 0x1f

structure Manifest where
  limits : Limits
  requiredCapabilities : UInt32
  abi : UInt16
  schema : UInt16
  profile : Profile
  deriving DecidableEq, Repr

def Manifest.validate (m : Manifest) : Except TargetError Unit :=
  if m.abi.toNat ≠ currentABIVersion ∨ m.schema.toNat ≠ currentSchemaVersion then
    .error .incompatibleVersion
  else if !m.profile.valid ∨ m.requiredCapabilities &&& ~~~capabilityAll ≠ 0 then
    .error .invalidManifest
  else if (m.profile = .wasi ∨ m.profile = .browser) ∧ m.requiredCapabilities ≠ 0 then
    .error .invalidManifest
  else if !m.limits.valid then .error .invalidLimits
  else .ok ()

structure Metadata where
  artifactHash : List Byte
  programHash : List Byte
  limits : Limits
  requiredCapabilities : UInt32
  abi : UInt16
  schema : UInt16
  profile : Profile
  deriving DecidableEq, Repr

def artifactFormat (limits : Limits) : Format where
  magic := artifactMagic
  headerBytes := artifactHeaderBytes
  maxBytes := limits.maxArtifactBytes.toNat
  maxSections := limits.maxProgramColumns.toNat

def buildEnvelope (sha : Digest) (dst : List Byte) (m : Manifest) (sections : List SectionSpec) :
    Option (List Byte) :=
  if m.validate ≠ .ok () ∨ m.limits.maxProgramColumns.toNat < sections.length then none
  else buildSections sha dst (artifactFormat m.limits) m.profile.code m.requiredCapabilities.toNat
    m.limits sections

def ArtifactHeader.manifest (h : ArtifactHeader) : Manifest where
  limits := h.limits
  requiredCapabilities := .ofNat h.capabilities
  abi := .ofNat h.abi
  schema := .ofNat h.schema
  profile := .ofCode h.profile

def preflightEnvelope (sha : Digest) (src : List Byte) (host : Manifest) :
    Except TargetError (ArtifactHeader × List SectionDescriptor) := do
  host.validate
  match preflightHeader sha src (artifactFormat host.limits) with
  | none => .error .invalidArtifact
  | some (header, descriptorEnd) =>
    if header.abi ≠ currentABIVersion ∨ header.schema ≠ currentSchemaVersion then
      .error .incompatibleVersion
    else if !header.manifest.profile.valid ∨
        header.manifest.requiredCapabilities &&& ~~~capabilityAll ≠ 0 ∨ !header.limits.valid ∨
        header.limits.maxArtifactBytes.toNat < header.totalBytes ∨
        header.limits.maxProgramColumns.toNat < header.sectionCount then .error .invalidArtifact
    else if header.manifest.validate ≠ .ok () then .error .invalidArtifact
    else if header.manifest ≠ host then .error .incompatibleVersion
    else match preflightDescriptors src artifactHeaderBytes header.sectionCount descriptorEnd with
      | none => .error .invalidArtifact
      | some descriptors => .ok (header, descriptors)

namespace Program

def resultTables (p : Program) : ResultTables where
  templates := p.templates
  explanations := p.explanations
  outcomes := p.outcomes
  remediations := p.remediations
  resolutions := p.resolutions
  evidenceIssueNodeIDs := p.evidenceIssueNodeIDs
  evidenceIssueTemplateIDs := p.evidenceIssueTemplateIDs
  clauseExplanationIDs := p.clauseExplanationIDs

-- Validates the tables of results and stores their resolver.
def validateResultTables (p : Program) : Except TableError Program :=
  match h : p.resultTables.validateResultTables with
  | .error e => .error e
  | .ok resolver =>
    .ok { p with resolver, resolver_eq := .inr (p.resultTables.new_of_validateResultTables h) }

-- A copy of a program. Clauses and resolutions share one column of remediations.
def freeze (src : Program) : Except TableError Program :=
  validateResultTables (src.withTables src.outcomes src.remediations
    { src.resolutions with remediationIDs := src.clauseRemediationIDs })

def zero : Program where
  opcodes := []
  fields := []
  values := []
  listStarts := []
  listCounts := []
  operandStarts := []
  operandCounts := []
  evidenceKinds := []
  evidenceStates := []
  evidenceSubjects := []
  evidenceScopes := []
  evidenceTimings := []
  rootFlags := []
  truthSlots := []
  reasonSlots := []
  instructionNodes := []
  instructionSourceStarts := []
  instructionSourceEnds := []
  listValues := []
  operands := []
  opcodeRunOpcodes := []
  opcodeRunStarts := []
  opcodeRunCounts := []
  nodeInstructionStarts := []
  nodeInstructionCounts := []
  nodeInstructionIDs := []
  symbolBytes := []
  symbolStarts := []
  symbolLengths := []
  symbolHashes := []
  symbolIDs := []
  valueKinds := []
  valueRefs := []
  integerValues := []
  booleanValues := []
  timestampValues := []
  fieldNames := []
  fieldKinds := []
  fieldGroups := []
  evidenceKindNames := []
  evidenceStateNames := []
  requirementIDs := []
  requirementRoots := []
  requirementSourceNodeIDs := []
  requirementClauseStarts := []
  requirementClauseCounts := []
  requirementClauseIDs := []
  clauseAssertionRoots := []
  clauseAssertionSourceNodeIDs := []
  clauseEvidenceStarts := []
  clauseEvidenceCounts := []
  clauseEvidenceIDs := []
  clauseEvidenceSourceNodeIDs := []
  clauseOnSatisfied := []
  clauseOnFalse := []
  clauseExplanationIDs := []
  clauseRemediationStarts := []
  clauseRemediationCounts := []
  clauseRemediationIDs := []
  templates := .empty
  explanations := .empty
  evidenceIssueNodeIDs := []
  evidenceIssueTemplateIDs := []
  outcomes := ⟨[], [], []⟩
  remediations := ⟨[], [], [], []⟩
  resolutions := ⟨[], [], [], [], []⟩
  resolver := .zero
  applicabilityIndex := ⟨[], [], [], [], [], [], [], 0, 0⟩
  factIndexSpec := ⟨[], [], [], [], [], []⟩
  fieldIndex := ⟨[], [], fun _ => 0, by decide⟩
  policyName := 0
  policyVersion := 0
  programSymbolCount := 0
  truthSlotCount := 0
  reasonSlotCount := 0
  programSymbolCount_le := Nat.zero_le _
  resolver_eq := .inl rfl

-- Symbols lie one after the other, and each of them is found by its bytes. The result is where the
-- next symbol starts.
def validDecodedSymbol (p : Program) (stop row : Nat) : Option Nat :=
  let start := p.symbolStarts.getD row 0
  let length := p.symbolLengths.getD row 0
  if start ≠ stop ∨ p.symbolBytes.length - start < length then none
  else do
    let symbol ← p.symbol (row + 1)
    let id ← p.lookupSymbol symbol
    if id ≠ row + 1 then none else some (start + length)

def validDecodedSymbols (p : Program) : Bool :=
  let count := p.symbolStarts.length
  let slots := p.symbolHashes.length
  count == p.symbolLengths.length && count == p.programSymbolCount &&
  slots == p.symbolIDs.length && slots != 0 && slots &&& (slots - 1) == 0 &&
  (List.range count).foldlM p.validDecodedSymbol 0 == some p.symbolBytes.length

end Program

def noRequests : Batch :=
  { Batch.zero with evidenceOffsets := [0] }

-- A program is taken to be valid if it can be executed at all. A panic is recovered.
def validDecodedProgram (k : Kernels) (p : Program) : Bool :=
  match (Executor.execute k (fun _ => p) .zero .empty 0 noRequests).2.2 with
  | .ok () => true
  | .error _ => false

def appendProgramSections {σ : Type} (value : σ) :
    List (ProgramLeaf σ) → List SectionSpec → Option (List SectionSpec)
  | [], sections => some sections
  | leaf :: leaves, sections =>
    if maxUint16 ≤ sections.length then none
    else do
      let (s, _) ← leaf.encodeReuse (sections.length + 1) value .empty
      appendProgramSections value leaves (sections ++ [s])

namespace ProgramFile

def zero : ProgramFile where
  program := .zero
  evidenceKindSourceStarts := []
  evidenceKindSourceEnds := []
  evidenceStateSourceStarts := []
  evidenceStateSourceEnds := []
  outcomeSourceStarts := []
  outcomeSourceEnds := []
  remediationSourceStarts := []
  remediationSourceEnds := []
  requirementSourceStarts := []
  requirementSourceEnds := []
  clauseSourceStarts := []
  clauseSourceEnds := []
  inputBytes := []
  contentHash := List.replicate 32 0#8
  contentHash_length := List.length_replicate

def freeze (f : ProgramFile) : Except TableError ProgramFile := do
  return { f with program := ← f.program.freeze }

end ProgramFile

def encodeProgram (sha : Digest) (dst : List Byte) (compiled : ProgramFile) (m : Manifest) :
    Except TargetError (List Byte) :=
  if sha.sum compiled.inputBytes ≠ compiled.contentHash then .error .invalidArtifact
  else match compiled.freeze with
    | .error _ => .error .invalidArtifact
    | .ok frozen =>
      match appendProgramSections frozen ProgramFile.leaves [] with
      | none => .error .invalidArtifact
      | some sections =>
        match buildEnvelope sha dst m sections with
        | none => .error .invalidArtifact
        | some artifact => .ok artifact

def ProgramFile.accept (sha : Digest) (k : Kernels) (decoded : ProgramFile) :
    Except TargetError ProgramFile :=
  if sha.sum decoded.inputBytes ≠ decoded.contentHash ∨
      decoded.program.clauseRemediationIDs ≠ decoded.program.resolutions.remediationIDs then
    .error .invalidArtifact
  else match decoded.program.validateResultTables with
    | .error _ => .error .invalidArtifact
    | .ok program =>
      if !program.validDecodedSymbols ∨ !validDecodedProgram k program then .error .invalidArtifact
      else .ok { decoded with program }

def decodeProgram (sha : Digest) (k : Kernels) (src : List Byte) (m : Manifest) :
    Except TargetError (ProgramFile × Metadata) := do
  let (header, descriptors) ← preflightEnvelope sha src m
  match decodeSections src descriptors ProgramFile.leaves 0 .zero with
  | (_, none) => .error .invalidArtifact
  | (decoded, some row) =>
    if row ≠ descriptors.length then .error .invalidArtifact
    else do
      let decoded ← decoded.accept sha k
      return (decoded, {
        artifactHash := Region.read src artifactHashOffset artifactHashBytes
        programHash := decoded.contentHash
        limits := header.limits
        requiredCapabilities := .ofNat header.capabilities
        abi := .ofNat header.abi
        schema := .ofNat header.schema
        profile := .ofCode header.profile
      })

end NornRune
