import NornRune.Lib.Wire
import NornRune.Objects.Schema

open Wire

-- The byte layout that artifacts and frames share: a header, a table of descriptors and the sections
-- that the descriptors point to. The header holds a digest of all bytes.
namespace NornRune

-- A hash function with digests of 32 bytes. In the released builds it is SHA-256.
structure Digest where
  sum : List Byte → List Byte
  length_sum : ∀ bytes, (sum bytes).length = 32

structure Limits where
  maxArtifactBytes : UInt64
  maxInputBytes : UInt64
  maxOutputBytes : UInt64
  maxFuel : UInt64
  maxRows : UInt32
  maxProgramColumns : UInt32
  deriving DecidableEq, Repr

namespace Limits

def zero : Limits where
  maxArtifactBytes := 0
  maxInputBytes := 0
  maxOutputBytes := 0
  maxFuel := 0
  maxRows := 0
  maxProgramColumns := 0

def valid (l : Limits) : Bool :=
  l.maxArtifactBytes != 0 && l.maxInputBytes != 0 && l.maxOutputBytes != 0 && l.maxFuel != 0 &&
  l.maxRows != 0 && l.maxProgramColumns != 0

end Limits

def frameHeaderBytes : Nat := 64
def artifactHeaderBytes : Nat := 104
def artifactDescriptorBytes : Nat := 24
def artifactHashOffset : Nat := 32
def artifactHashBytes : Nat := 32

def currentABIVersion : Nat := 1
def currentSchemaVersion : Nat := 1

structure SectionSpec where
  data : List Byte
  count : Nat
  id : Nat
  width : Nat
  deriving DecidableEq, Repr

structure SectionDescriptor where
  offset : Nat
  bytes : Nat
  count : Nat
  id : Nat
  width : Nat
  alignment : Nat
  deriving DecidableEq, Repr

structure ArtifactHeader where
  totalBytes : Nat
  limits : Limits
  capabilities : Nat
  sectionCount : Nat
  abi : Nat
  schema : Nat
  profile : Nat
  deriving DecidableEq, Repr

def validWidth (width : Nat) : Bool :=
  width == 1 || width == 2 || width == 4 || width == 8

-- Sizes and offsets have 64 bits. Where they are added and multiplied, the guards have to see to it that
-- they do not wrap around.
def checkedProduct (left right : Nat) : Option Nat :=
  if left ≠ 0 ∧ maxUint64 / left < right then none else some (left * right % 2 ^ 64)

def alignOffset (offset alignment : Nat) : Option Nat :=
  let padding := (2 ^ 64 - offset) % 2 ^ 64 &&& (alignment - 1)
  if maxUint64 - offset < padding then none else some ((offset + padding) % 2 ^ 64)

-- The size of the bytes so far, with the ID of the section that was added last.
structure Extent where
  previousID : Nat
  total : Nat

def Extent.add (e : Extent) (spec : SectionSpec) : Option Extent := do
  if spec.id = 0 ∨ spec.id ≤ e.previousID ∨ !validWidth spec.width then none
  else
    let bytes ← checkedProduct spec.count spec.width
    if bytes ≠ spec.data.length then none
    else
      let total ← alignOffset e.total spec.width
      if maxUint64 - total < bytes then none
      else some ⟨spec.id, (total + bytes) % 2 ^ 64⟩

def descriptorOffset (headerBytes row : Nat) : Nat :=
  headerBytes + row * artifactDescriptorBytes

def putDescriptor (artifact : List Byte) (start : Nat) (d : SectionDescriptor) : List Byte :=
  let artifact := putWord artifact start 2 d.id
  let artifact := putWord artifact (start + 2) 1 d.width
  let artifact := putWord artifact (start + 3) 1 d.alignment
  let artifact := putWord artifact (start + 4) 4 d.count
  let artifact := putWord artifact (start + 8) 8 d.offset
  putWord artifact (start + 16) 8 d.bytes

def getDescriptor (src : List Byte) (start : Nat) : SectionDescriptor where
  id := word src start 2
  width := word src (start + 2) 1
  alignment := word src (start + 3) 1
  count := word src (start + 4) 4
  offset := word src (start + 8) 8
  bytes := word src (start + 16) 8

def SectionSpec.descriptor (s : SectionSpec) (offset : Nat) : SectionDescriptor where
  offset := (alignOffset offset s.width).getD 0
  bytes := s.data.length
  count := s.count
  id := s.id
  width := s.width
  alignment := s.width

def putSections (headerBytes : Nat) :
    (row offset : Nat) → List SectionSpec → List Byte → List Byte
  | _, _, [], artifact => artifact
  | row, offset, s :: ss, artifact =>
    let d := s.descriptor offset
    let artifact := putDescriptor artifact (descriptorOffset headerBytes row) d
    let artifact := Region.write artifact d.offset s.data
    putSections headerBytes (row + 1) ((d.offset + d.bytes) % 2 ^ 64) ss artifact

def putHeader (artifact : List Byte) (magic tag flags sectionCount total : Nat) : List Byte :=
  let artifact := putWord artifact 0 4 magic
  let artifact := putWord artifact 4 2 currentABIVersion
  let artifact := putWord artifact 6 2 currentSchemaVersion
  let artifact := putWord artifact 8 1 tag
  let artifact := putWord artifact 12 4 flags
  let artifact := putWord artifact 16 4 sectionCount
  let artifact := putWord artifact 20 4 artifactDescriptorBytes
  putWord artifact 24 8 total

def putLimits (artifact : List Byte) (l : Limits) : List Byte :=
  let artifact := putWord artifact 64 8 l.maxArtifactBytes.toNat
  let artifact := putWord artifact 72 8 l.maxInputBytes.toNat
  let artifact := putWord artifact 80 8 l.maxOutputBytes.toNat
  let artifact := putWord artifact 88 8 l.maxFuel.toNat
  let artifact := putWord artifact 96 4 l.maxRows.toNat
  putWord artifact 100 4 l.maxProgramColumns.toNat

def getLimits (src : List Byte) : Limits where
  maxArtifactBytes := .ofNat (word src 64 8)
  maxInputBytes := .ofNat (word src 72 8)
  maxOutputBytes := .ofNat (word src 80 8)
  maxFuel := .ofNat (word src 88 8)
  maxRows := .ofNat (word src 96 4)
  maxProgramColumns := .ofNat (word src 100 4)

-- What kind of bytes are built: the size of the header, the magic number and the bounds they are
-- subject to.
structure Format where
  magic : Nat
  headerBytes : Nat
  maxBytes : Nat
  maxSections : Nat

-- The bytes of an artifact, before the digest is put into its header.
def unsigned (f : Format) (tag flags : Nat) (limits : Limits) (sections : List SectionSpec)
    (total : Nat) : List Byte :=
  let artifact := putHeader (List.replicate total 0#8) f.magic tag flags sections.length total
  let artifact := if f.headerBytes = artifactHeaderBytes then putLimits artifact limits else artifact
  putSections f.headerBytes 0 (descriptorOffset f.headerBytes sections.length) sections artifact

-- The size of the descriptor table cannot wrap around: there are fewer than `2 ^ 32` sections.
def buildSections (sha : Digest) (dst : List Byte) (f : Format) (tag flags : Nat) (limits : Limits)
    (sections : List SectionSpec) : Option (List Byte) := do
  if f.maxBytes = 0 ∨ f.maxSections < sections.length ∨
      (f.headerBytes ≠ frameHeaderBytes ∧ f.headerBytes ≠ artifactHeaderBytes) ∨
      (f.headerBytes = artifactHeaderBytes ∧ !limits.valid) ∨
      (f.headerBytes = frameHeaderBytes ∧ limits ≠ .zero) then none
  else
    let extent ← sections.foldlM Extent.add ⟨0, descriptorOffset f.headerBytes sections.length⟩
    if f.maxBytes < extent.total ∨ maxInt - dst.length < extent.total then none
    else
      let artifact := unsigned f tag flags limits sections extent.total
      some (dst ++ Region.write artifact artifactHashOffset (sha.sum artifact))

-- The bytes whose digest is stored: those of the artifact, with zeros in the place of the digest.
def hashParts (src : List Byte) : List Byte :=
  src.take artifactHashOffset ++ List.replicate artifactHashBytes 0#8 ++
    src.drop (artifactHashOffset + artifactHashBytes)

def validArtifactHash (sha : Digest) (src : List Byte) : Bool :=
  sha.sum (hashParts src) == Region.read src artifactHashOffset artifactHashBytes

def preflightHeader (sha : Digest) (src : List Byte) (f : Format) : Option (ArtifactHeader × Nat) :=
  if (f.headerBytes ≠ frameHeaderBytes ∧ f.headerBytes ≠ artifactHeaderBytes) ∨
      src.length < f.headerBytes ∨ f.maxBytes = 0 ∨ f.maxBytes < src.length ∨
      word src 0 4 ≠ f.magic then none
  else
    let header : ArtifactHeader := {
      abi := word src 4 2
      schema := word src 6 2
      profile := word src 8 1
      capabilities := word src 12 4
      sectionCount := word src 16 4
      totalBytes := word src 24 8
      limits := if f.headerBytes = artifactHeaderBytes then getLimits src else .zero
    }
    if header.totalBytes ≠ src.length ∨ word src 20 4 ≠ artifactDescriptorBytes ∨
        !(Region.read src 9 3).all (· == 0#8) ∨ !validArtifactHash sha src then none
    else
      let descriptorEnd := descriptorOffset f.headerBytes header.sectionCount
      if src.length < descriptorEnd then none else some (header, descriptorEnd)

-- The sections read so far: where the last one ends, and its ID.
structure Placed where
  previousID : Nat
  previousEnd : Nat

def Placed.add (length : Nat) (p : Placed) (d : SectionDescriptor) : Option Placed :=
  if d.id = 0 ∨ d.id ≤ p.previousID ∨ !validWidth d.width ∨ d.alignment ≠ d.width ∨
      checkedProduct d.count d.width ≠ some d.bytes ∨ d.offset % d.alignment ≠ 0 ∨
      d.offset < p.previousEnd ∨ length < d.offset ∨ length - d.offset < d.bytes then none
  else some ⟨d.id, (d.offset + d.bytes) % 2 ^ 64⟩

def preflightDescriptors (src : List Byte) (headerBytes sectionCount descriptorEnd : Nat) :
    Option (List SectionDescriptor) := do
  let descriptors := (List.range sectionCount).map fun row =>
    getDescriptor src (descriptorOffset headerBytes row)
  let placed ← descriptors.foldlM (Placed.add src.length) ⟨0, descriptorEnd⟩
  if placed.previousEnd ≠ src.length then none else some descriptors

def preflightSections (sha : Digest) (src : List Byte) (f : Format) :
    Option (ArtifactHeader × List SectionDescriptor) := do
  let (header, descriptorEnd) ← preflightHeader sha src f
  if header.abi ≠ currentABIVersion ∨ header.schema ≠ currentSchemaVersion ∨
      f.maxSections < header.sectionCount then none
  else
    let descriptors ← preflightDescriptors src f.headerBytes header.sectionCount descriptorEnd
    return (header, descriptors)

end NornRune
