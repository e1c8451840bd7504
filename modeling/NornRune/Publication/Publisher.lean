import NornRune.Objects.Program
import NornRune.Publication.Registry

-- A policy is published durably in a store and locally in the registry. The publisher keeps the two in
-- step: what it activates locally is what the store has committed or loaded.
namespace NornRune

structure FrozenProgram where
  program : Program
  contentHash : ContentHash
  inputBytes : List Byte

namespace FrozenProgram

variable (p : FrozenProgram)

def name : Option (List Byte) :=
  p.program.symbol p.program.policyName

def version : Option (List Byte) :=
  p.program.symbol p.program.policyVersion

end FrozenProgram

structure PolicyCandidate where
  program : Nat
  name : List Byte
  semanticVersion : List Byte
  compilerVersion : List Byte
  source : List Byte
  contentHash : ContentHash
  deriving DecidableEq, Repr

-- A row of the store. Times are counted from the zero time.
structure PolicyVersion where
  name : List Byte
  semanticVersion : List Byte
  compilerVersion : List Byte
  publishedAt : Int
  source : List Byte
  contentHash : ContentHash
  policyID : Int
  id : Int
  deriving DecidableEq, Repr

inductive PolicyError
  | invalidPolicyPersistence (what : String)
  | endedContext (error : Nat)
  | compilePolicy (error : Nat)
  | persistActivePolicy (error : Nat)
  | loadActivePolicy (error : Nat)
  | loadPolicyHash (error : Nat)
  | storedPolicyCorrupt (what : String)
  -- A durable version that was not activated.
  | storedVersion (cause : PolicyError)
  | publishRegistry (cause : RegistryError)
  | reloadRegistry (cause : RegistryError)
  | canonicalProgram (cause : PolicyError)
  | activateRegistry (cause : RegistryError)
  deriving DecidableEq, Repr

def spaces : List (List Byte) :=
  [[0x09#8], [0x0A#8], [0x0B#8], [0x0C#8], [0x0D#8], [0x20#8], [0xC2#8, 0x85#8], [0xC2#8, 0xA0#8],
    [0xE1#8, 0x9A#8, 0x80#8], [0xE2#8, 0x80#8, 0x80#8], [0xE2#8, 0x80#8, 0x81#8],
    [0xE2#8, 0x80#8, 0x82#8], [0xE2#8, 0x80#8, 0x83#8], [0xE2#8, 0x80#8, 0x84#8],
    [0xE2#8, 0x80#8, 0x85#8], [0xE2#8, 0x80#8, 0x86#8], [0xE2#8, 0x80#8, 0x87#8],
    [0xE2#8, 0x80#8, 0x88#8], [0xE2#8, 0x80#8, 0x89#8], [0xE2#8, 0x80#8, 0x8A#8],
    [0xE2#8, 0x80#8, 0xA8#8], [0xE2#8, 0x80#8, 0xA9#8], [0xE2#8, 0x80#8, 0xAF#8],
    [0xE2#8, 0x81#8, 0x9F#8], [0xE3#8, 0x80#8, 0x80#8]]

def validTrimmedPolicyText (value : List Byte) : Bool :=
  !value.isEmpty && !spaces.any (·.isPrefixOf value) && !spaces.any (·.isSuffixOf value)

section Checks

variable (sha256 : List Byte → ContentHash) (heap : Nat → FrozenProgram)

def validPolicyMetadata (source name semanticVersion compilerVersion : List Byte) (hash : ContentHash) :
    Bool :=
  !source.isEmpty && validTrimmedPolicyText name && validTrimmedPolicyText semanticVersion &&
    validTrimmedPolicyText compilerVersion && hash != 0#256 && sha256 source == hash

def validateCandidate (c : PolicyCandidate) : Except PolicyError Unit :=
  if !validPolicyMetadata sha256 c.source c.name c.semanticVersion c.compilerVersion c.contentHash then
    .error (.invalidPolicyPersistence "candidate metadata")
  else if (heap c.program).contentHash ≠ c.contentHash ∨ (heap c.program).inputBytes ≠ c.source then
    .error (.invalidPolicyPersistence "candidate Program identity")
  else if (heap c.program).name ≠ some c.name ∨ (heap c.program).version ≠ some c.semanticVersion then
    .error (.invalidPolicyPersistence "candidate Program metadata")
  else .ok ()

def validatePolicyVersion (v : PolicyVersion) : Except PolicyError Unit :=
  if v.policyID ≤ 0 ∨ v.id ≤ 0 ∨ v.publishedAt = 0 ∨
      !validPolicyMetadata sha256 v.source v.name v.semanticVersion v.compilerVersion v.contentHash then
    .error (.storedPolicyCorrupt "version metadata")
  else .ok ()

def candidateFromProgram (compiled : Option Nat) (source compilerVersion : List Byte) :
    Except PolicyError PolicyCandidate :=
  match compiled with
  | none => .error (.invalidPolicyPersistence "compiled source")
  | some p =>
    if (heap p).inputBytes ≠ source then .error (.invalidPolicyPersistence "compiled source")
    else match (heap p).name, (heap p).version with
      | some name, some semanticVersion =>
        let candidate : PolicyCandidate := {
          program := p
          source := (heap p).inputBytes
          name := name
          semanticVersion := semanticVersion
          compilerVersion := compilerVersion
          contentHash := (heap p).contentHash }
        match validateCandidate sha256 heap candidate with
        | .error e => .error e
        | .ok () => .ok candidate
      | _, _ => .error (.invalidPolicyPersistence "compiled metadata")

def validateStoredCandidate (v : PolicyVersion) (c : PolicyCandidate) : Except PolicyError Unit :=
  match validatePolicyVersion sha256 v with
  | .error e => .error e
  | .ok () =>
    if v.name ≠ c.name ∨ v.semanticVersion ≠ c.semanticVersion ∨ v.contentHash ≠ c.contentHash ∨
        v.source ≠ c.source then
      .error (.storedPolicyCorrupt "stored candidate identity")
    else .ok ()

def validateProgramVersion (compiled : Option Nat) (v : PolicyVersion) : Except PolicyError Unit :=
  match compiled with
  | none => .error (.storedPolicyCorrupt "compiled identity")
  | some p =>
    if (heap p).contentHash ≠ v.contentHash ∨ (heap p).inputBytes ≠ v.source then
      .error (.storedPolicyCorrupt "compiled identity")
    else if (heap p).name ≠ some v.name ∨ (heap p).version ≠ some v.semanticVersion then
      .error (.storedPolicyCorrupt "compiled metadata")
    else .ok ()

end Checks

inductive PolicyCall
  | publish (ctx : Bool) (source : List Byte)
  | reloadActive (ctx : Bool) (name : List Byte)
  | reloadHash (ctx : Bool) (hash : ContentHash)
  deriving DecidableEq, Repr

inductive PolicyWork
  | publishActive (candidate : PolicyCandidate)
  | loadActive (name : List Byte)
  | loadByHash (hash : ContentHash)
  deriving DecidableEq, Repr

inductive RegistryWork
  | publish (compiled : Nat) (version : PolicyVersion)
  | load (version : PolicyVersion)
  | activate (version : PolicyVersion) (canonical : Nat)
  deriving DecidableEq, Repr

namespace RegistryWork

def version : RegistryWork → PolicyVersion
  | .publish _ version | .load version | .activate version _ => version

def call : RegistryWork → RegistryCall
  | .publish compiled _ => .publish (some compiled)
  | .load version => .loadOrCompile version.contentHash true
  | .activate version _ => .activate version.contentHash

end RegistryWork

-- The program and the version, or an error with the version if there is one already.
abbrev Published := Except (PolicyError × Option PolicyVersion) (Nat × PolicyVersion)

-- What has happened, in order. Calls are numbered in the order in which they start.
inductive PublisherEntry
  -- The store has committed or loaded the version.
  | stored (call : Nat) (version : PolicyVersion)
  -- The active program of the registry was set, to what it says.
  | activated (call : Nat) (active : Option Nat)
  | returned (call : Nat) (result : Published)
  deriving DecidableEq

-- The registry and the lock of the publisher. The calls that were made, with the threads that made them,
-- and the trace are not stored in the source.
structure PolicyPublisher where
  registry : Registry
  publish : Option Nat := none
  calls : List Nat := []
  trace : List PublisherEntry := []

inductive PublisherPoint
  | idle
  | compile (call : Nat) (source : List Byte)
  | lock (call : Nat) (work : PolicyWork)
  | recheck (call : Nat) (work : PolicyWork)
  | store (call : Nat) (work : PolicyWork)
  | enter (call : Nat) (work : RegistryWork)
  | registry (call : Nat) (work : RegistryWork) (point : RegistryPoint)
  | unlock (call : Nat) (result : Published)
  -- A thread that uses the registry without the publisher.
  | outside (point : RegistryPoint)
  deriving DecidableEq

def PublisherPoint.storing : PublisherPoint → Option Nat
  | .registry _ _ (.publishStore _ candidate _) => some candidate
  | _ => none

inductive PublisherEvent
  -- A call, with what its context says when it is asked first.
  | call (c : PolicyCall) (error : Option Nat)
  -- The context is asked again.
  | context (error : Option Nat)
  -- The compiler returns.
  | compiled (program error : Option Nat)
  -- The store returns.
  | stored (answer : Except Nat PolicyVersion)
  | registry (e : RegistryEvent)
  | go

namespace PolicyPublisher

variable (sha256 : List Byte → ContentHash) (heap : Nat → FrozenProgram) (compilerVersion : List Byte)

def content (c : Nat) : ContentHash :=
  (heap c).contentHash

def log (s : PolicyPublisher) (e : PublisherEntry) : PolicyPublisher :=
  { s with trace := s.trace ++ [e] }

def fail (s : PolicyPublisher) (call : Nat) (e : PolicyError) : PolicyPublisher × PublisherPoint :=
  (s.log (.returned call (.error (e, none))), .idle)

def start (s : PolicyPublisher) (t : Nat) (c : PolicyCall) (error : Option Nat) :
    PolicyPublisher × PublisherPoint :=
  let call := s.calls.length
  let s := { s with calls := s.calls ++ [t] }
  match c, error with
  | .publish ctx source, error =>
    if !ctx || source.isEmpty then s.fail call (.invalidPolicyPersistence "publish input")
    else match error with
      | some e => s.fail call (.endedContext e)
      | none => (s, .compile call source)
  | .reloadActive ctx name, error =>
    if !ctx || !validTrimmedPolicyText name then
      s.fail call (.invalidPolicyPersistence "active reload input")
    else match error with
      | some e => s.fail call (.endedContext e)
      | none => (s, .lock call (.loadActive name))
  | .reloadHash ctx hash, error =>
    if !ctx || hash == 0#256 then s.fail call (.invalidPolicyPersistence "hash reload input")
    else match error with
      | some e => s.fail call (.endedContext e)
      | none => (s, .lock call (.loadByHash hash))

def endCompile (s : PolicyPublisher) (call : Nat) (source : List Byte) (program error : Option Nat) :
    PolicyPublisher × PublisherPoint :=
  match error with
  | some e => s.fail call (.compilePolicy e)
  | none =>
    match candidateFromProgram sha256 heap program source compilerVersion with
    | .error e => s.fail call e
    | .ok candidate => (s, .lock call (.publishActive candidate))

def storeError (error : Nat) : PolicyWork → PolicyError
  | .publishActive _ => .persistActivePolicy error
  | .loadActive _ => .loadActivePolicy error
  | .loadByHash _ => .loadPolicyHash error

def checkStored (v : PolicyVersion) : PolicyWork → Except PolicyError RegistryWork
  | .publishActive candidate =>
    match validateStoredCandidate sha256 v candidate with
    | .error e => .error (.storedVersion e)
    | .ok () => .ok (.publish candidate.program v)
  | .loadActive name =>
    match validatePolicyVersion sha256 v with
    | .error e => .error e
    | .ok () =>
      if v.name ≠ name then .error (.storedPolicyCorrupt "active policy name") else .ok (.load v)
  | .loadByHash hash =>
    match validatePolicyVersion sha256 v with
    | .error e => .error e
    | .ok () =>
      if v.contentHash ≠ hash then .error (.storedPolicyCorrupt "loaded policy hash") else .ok (.load v)

def endStore (s : PolicyPublisher) (call : Nat) (work : PolicyWork) (answer : Except Nat PolicyVersion) :
    PolicyPublisher × PublisherPoint :=
  match answer with
  | .error e => (s, .unlock call (.error (storeError e work, none)))
  | .ok v =>
    match checkStored sha256 v work with
    | .error e => (s.log (.stored call v), .unlock call (.error (e, some v)))
    | .ok work => (s.log (.stored call v), .enter call work)

-- The compile function that a reload gives to the registry. The first two codes are the errors of the
-- check, the others are those of the compiler.
def compileStored (v : PolicyVersion) (program error : Option Nat) : RegistryEvent :=
  match error with
  | some e => .compiled none (some (e + 2))
  | none =>
    match validateProgramVersion heap program v with
    | .error (.storedPolicyCorrupt "compiled identity") => .compiled none (some 0)
    | .error _ => .compiled none (some 1)
    | .ok () => .compiled program none

def checkCanonical (v : PolicyVersion) (canonical : Nat) (call : Nat) : PublisherPoint :=
  match validateProgramVersion heap (some canonical) v with
  | .error e => .unlock call (.error (.canonicalProgram e, some v))
  | .ok () => .enter call (.activate v canonical)

-- Goes on when a call of the registry has returned. An answer to another call is none.
def endRegistry (s : PolicyPublisher) (call : Nat) (work : RegistryWork) (answer : Option Returned) :
    Option (PolicyPublisher × PublisherPoint) :=
  match work, answer with
  | .publish _ v, some (.publish _ (.ok canonical)) => some (s, checkCanonical heap v canonical call)
  | .publish _ v, some (.publish _ (.error e)) => some (s, .unlock call (.error (.publishRegistry e, some v)))
  | .load v, some (.load _ _ (.ok canonical)) => some (s, checkCanonical heap v canonical call)
  | .load v, some (.load _ _ (.error e)) => some (s, .unlock call (.error (.reloadRegistry e, some v)))
  | .activate v canonical, some (.activate _ (.ok ())) =>
    some (s.log (.activated call s.registry.active), .unlock call (.ok (canonical, v)))
  | .activate v _, some (.activate _ (.error e)) =>
    some (s, .unlock call (.error (.activateRegistry e, some v)))
  | _, _ => none

-- Goes on after a turn in the registry. A thread that is idle there has returned from it, and its answer
-- is the last one.
def resume (s : PolicyPublisher) (call : Nat) (work : RegistryWork) (next : Registry × RegistryPoint) :
    Option (PolicyPublisher × PublisherPoint) :=
  if next.2 = .idle then
    { s with registry := next.1 }.endRegistry heap call work next.1.returned.getLast?
  else some ({ s with registry := next.1 }, .registry call work next.2)

def resumeOutside (s : PolicyPublisher) (next : Registry × RegistryPoint) : PolicyPublisher × PublisherPoint :=
  ({ s with registry := next.1 }, if next.2 = .idle then .idle else .outside next.2)

def activates : RegistryEvent → Bool
  | .call (.activate _) => true
  | _ => false

def step (t : Nat) (s : PolicyPublisher) :
    PublisherPoint → PublisherEvent → Option (PolicyPublisher × PublisherPoint)
  | .idle, .call c error => some (s.start t c error)
  | .compile call source, .compiled program error =>
    some (s.endCompile sha256 heap compilerVersion call source program error)
  | .lock call work, .go =>
    if s.publish.isSome then none else some ({ s with publish := some t }, .recheck call work)
  | .recheck call work, .context error =>
    match error with
    | some e => some (s, .unlock call (.error (.endedContext e, none)))
    | none => some (s, .store call work)
  | .store call work, .stored answer => some (s.endStore sha256 call work answer)
  | .enter call work, .go => s.resume heap call work (s.registry.start (content heap) work.call)
  | .registry call work p, .go =>
    (Registry.step (content heap) t s.registry p .go).bind (s.resume heap call work)
  | .registry call (.load v) p, .compiled program error =>
    (Registry.step (content heap) t s.registry p (compileStored heap v program error)).bind
      (s.resume heap call (.load v))
  | .unlock call result, .go => some ({ s with publish := none }.log (.returned call result), .idle)
  | .idle, .registry e =>
    if activates e then none
    else (Registry.step (content heap) t s.registry .idle e).map s.resumeOutside
  | .outside p, .registry e =>
    if activates e then none
    else (Registry.step (content heap) t s.registry p e).map s.resumeOutside
  | _, _ => none

def new (registry : Registry) : Threads.Config PolicyPublisher PublisherPoint where
  shared := { registry }
  threads := fun _ => .idle

def run (registry : Registry) (es : List (Nat × PublisherEvent)) :
    Option (Threads.Config PolicyPublisher PublisherPoint) :=
  Threads.run (step sha256 heap compilerVersion) (new registry) es

end PolicyPublisher
end NornRune
