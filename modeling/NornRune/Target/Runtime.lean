import NornRune.Target.Artifact
import NornRune.Target.Fuel

open Wire

-- The evaluator inside of a module, as the host of the module drives it.
namespace NornRune

inductive ErrorCode
  | none
  | invalidArgument
  | incompatibleVersion
  | limitExceeded
  | invalidArtifact
  | invalidFrame
  | invalidState
  | cancelled
  | fuelExhausted
  | outputTooSmall
  | internal
  deriving DecidableEq, Repr

def metadataBytes : Nat := 128
def metadataMagic : Nat := 0x4e52574d
def metadataHashStart : Nat := 56

def Manifest.metadata (m : Manifest) : Metadata where
  artifactHash := List.replicate 32 0#8
  programHash := List.replicate 32 0#8
  limits := m.limits
  requiredCapabilities := m.requiredCapabilities
  abi := m.abi
  schema := m.schema
  profile := m.profile

def validMetadataManifest (metadata : Metadata) : Bool :=
  let manifest : Manifest := {
    limits := metadata.limits
    requiredCapabilities := metadata.requiredCapabilities
    abi := metadata.abi
    schema := metadata.schema
    profile := metadata.profile
  }
  manifest.validate = .ok ()

def metadataRecord (metadata : Metadata) : List Byte :=
  let record := List.replicate metadataBytes 0#8
  let record := putWord record 0 4 metadataMagic
  let record := putWord record 4 2 metadata.abi.toNat
  let record := putWord record 6 2 metadata.schema.toNat
  let record := putWord record 8 1 metadata.profile.code
  let record := putWord record 12 4 metadata.requiredCapabilities.toNat
  let record := putWord record 16 8 metadata.limits.maxArtifactBytes.toNat
  let record := putWord record 24 8 metadata.limits.maxInputBytes.toNat
  let record := putWord record 32 8 metadata.limits.maxOutputBytes.toNat
  let record := putWord record 40 8 metadata.limits.maxFuel.toNat
  let record := putWord record 48 4 metadata.limits.maxRows.toNat
  let record := putWord record 52 4 metadata.limits.maxProgramColumns.toNat
  let record := Region.write record metadataHashStart metadata.artifactHash
  Region.write record (metadataHashStart + 32) metadata.programHash

def encodeMetadata (dst : List Byte) (metadata : Metadata) : Option (List Byte) :=
  if dst.length < metadataBytes ∨ !validMetadataManifest metadata then none
  else some (Region.write dst 0 (metadataRecord metadata))

-- Loading a program resets the executor, so that its address is of no importance here.
structure Runtime where
  program : Option ProgramFile
  lastError : String
  encoder : FrameEncoder
  resultBytes : List Byte
  output : ResultBatch
  executor : Executor
  input : Batch
  manifest : Manifest
  fuelProfile : EvaluationFuelProfile
  fuel : Nat
  metadata : Metadata
  cancelled : Bool
  hasInput : Bool
  hasResult : Bool

namespace Runtime

def new (manifest : Manifest) : Except TargetError Runtime := do
  manifest.validate
  return {
    program := none
    lastError := ""
    encoder := .zero
    resultBytes := []
    output := .empty
    executor := .zero
    input := .zero
    manifest := manifest
    fuelProfile := .zero
    fuel := 0
    metadata := manifest.metadata
    cancelled := false
    hasInput := false
    hasResult := false
  }

def clearEvaluation (rt : Runtime) : Runtime :=
  { rt with hasInput := false, hasResult := false, fuel := 0, resultBytes := [], cancelled := false }

def fail (rt : Runtime) (code : ErrorCode) (message : String) : Runtime × ErrorCode :=
  ({ rt with lastError := message }, code)

def done (rt : Runtime) : Runtime × ErrorCode :=
  ({ rt with lastError := "" }, .none)

section Calls

variable (sha : Digest) (k : Kernels)

def loadProgram (rt : Runtime) (artifact : List Byte) : Runtime × ErrorCode :=
  let rt := clearEvaluation
    { rt with program := none, fuelProfile := .zero, metadata := rt.manifest.metadata }
  match decodeProgram sha k artifact rt.manifest with
  | .error .incompatibleVersion => rt.fail .incompatibleVersion "artifact manifest mismatch"
  | .error _ => rt.fail .invalidArtifact "invalid program artifact"
  | .ok (decoded, metadata) =>
    done (clearEvaluation { rt with
      program := some decoded
      fuelProfile := newEvaluationFuelProfile decoded.program
      metadata := metadata
      executor := .zero
    })

-- A frame that is refused may have replaced a part of the input.
def uploadInput (rt : Runtime) (frame : List Byte) : Runtime × ErrorCode :=
  match rt.program with
  | none => rt.fail .invalidState "program is not loaded"
  | some _ =>
    let rt := { rt with hasInput := false, hasResult := false }
    match decodeInputFrame sha rt.manifest.limits rt.input frame with
    | (input, .error _) => fail { rt with input } .invalidFrame "invalid input frame"
    | (input, .ok ()) => done { rt with input, hasInput := true, resultBytes := [] }

def publish (rt : Runtime) : Runtime × ErrorCode :=
  if !rt.output.validResult then rt.fail .internal "evaluator produced an invalid result"
  else
    match rt.encoder.encode sha [] .result ResultBatch.leaves rt.output
        rt.manifest.limits.maxOutputBytes rt.manifest.limits.maxProgramColumns with
    | (encoder, .error _) =>
      fail { rt with encoder } .limitExceeded "result exceeds linear-memory limit"
    | (encoder, .ok encoded) =>
      if maxUint32 < encoded.length then
        fail { rt with encoder } .limitExceeded "result exceeds linear-memory limit"
      else done { rt with encoder, resultBytes := encoded, hasResult := true }

-- Evaluates the input once its cost was taken from the fuel. A panic is recovered.
def perform (rt : Runtime) (compiled : Program) : Runtime × ErrorCode :=
  match rt.executor.execute k (fun _ => compiled) rt.output 0 rt.input with
  | (executor, output, .error (.panic _)) =>
    fail (clearEvaluation { rt with executor, output }) .internal "evaluation trapped"
  | (executor, output, .error _) =>
    fail { rt with executor, output } .invalidFrame "input does not match program"
  | (executor, output, .ok ()) => publish sha { rt with executor, output }

def evaluate (rt : Runtime) : Runtime × ErrorCode :=
  match rt.program with
  | none => rt.fail .invalidState "input is not loaded"
  | some compiled =>
    if !rt.hasInput then rt.fail .invalidState "input is not loaded"
    else
      let rt := { rt with hasResult := false }
      if rt.cancelled then rt.fail .cancelled "evaluation cancelled"
      else match evaluationFuelCost rt.fuelProfile rt.input with
        | none => rt.fail .fuelExhausted "evaluation fuel exhausted"
        | some cost =>
          if rt.fuel < cost then rt.fail .fuelExhausted "evaluation fuel exhausted"
          else perform sha k { rt with fuel := rt.fuel - cost } compiled.program

end Calls

def readResult (rt : Runtime) (dst : List Byte) : (Runtime × ErrorCode) × List Byte × Nat :=
  if !rt.hasResult then (rt.fail .invalidState "result is not available", dst, 0)
  else if dst.length < rt.resultBytes.length then
    (rt.fail .outputTooSmall "result buffer is too small", dst, 0)
  else (rt.done, Region.write dst 0 rt.resultBytes, rt.resultBytes.length)

def readMetadata (rt : Runtime) (dst : List Byte) : (Runtime × ErrorCode) × List Byte × Nat :=
  if dst.length < metadataBytes then
    (rt.fail .outputTooSmall "metadata buffer is too small", dst, 0)
  else match encodeMetadata dst rt.metadata with
    | none => (rt.fail .internal "metadata encoding failed", dst, 0)
    | some written => (rt.done, written, metadataBytes)

def reset (rt : Runtime) : Runtime × ErrorCode :=
  rt.clearEvaluation.done

def cancel (rt : Runtime) : Runtime :=
  { rt with cancelled := true }

def setFuel (rt : Runtime) (fuel : UInt64) : Runtime × ErrorCode :=
  if rt.manifest.limits.maxFuel < fuel then
    rt.fail .limitExceeded "fuel exceeds configured limit"
  else done { rt with fuel := fuel.toNat }

def recordTrap (rt : Runtime) : Runtime × ErrorCode :=
  rt.clearEvaluation.fail .internal "module operation trapped"

inductive Call
  | load (artifact : List Byte)
  | upload (frame : List Byte)
  | setFuel (fuel : UInt64)
  | cancel
  | evaluate
  | readResult (dst : List Byte)
  | readMetadata (dst : List Byte)
  | reset
  | trap

def call (sha : Digest) (k : Kernels) (rt : Runtime) : Call → Runtime × ErrorCode
  | .load artifact => rt.loadProgram sha k artifact
  | .upload frame => rt.uploadInput sha frame
  | .setFuel fuel => rt.setFuel fuel
  | .cancel => (rt.cancel, .none)
  | .evaluate => rt.evaluate sha k
  | .readResult dst => (rt.readResult dst).1
  | .readMetadata dst => (rt.readMetadata dst).1
  | .reset => rt.reset
  | .trap => rt.recordTrap

def run (sha : Digest) (k : Kernels) (rt : Runtime) (calls : List Call) : Runtime :=
  calls.foldl (fun rt c => (rt.call sha k c).1) rt

end Runtime
end NornRune
