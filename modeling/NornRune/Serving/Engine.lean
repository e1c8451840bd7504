import NornRune.Publication.Publisher

-- The engine behind the service. It publishes policies through its publisher and keeps the durable version
-- of each in a table of its own, which evaluations read.
namespace NornRune

inductive EngineError
  | invalidPolicy
  | invalidRequest
  | policyNotFound
  | endedContext (error : Nat)
  -- No durable version is recorded for the program.
  | unversioned
  -- The other reasons for which the engine is unavailable.
  | unavailable
  deriving DecidableEq, Repr

structure ServedPolicy where
  name : List Byte
  version : List Byte
  contentHash : ContentHash
  instructions : UInt32
  requirements : UInt32
  clauses : UInt32
  deriving DecidableEq

inductive EngineCall
  | compilePolicy (ctx : Bool) (source : List Byte)
  | lookupPolicy (ctx : Bool) (hash : ContentHash)
  | evaluateBatch (ctx : Bool) (requests evidence : List Byte) (policyHash : Option ContentHash)
  deriving DecidableEq, Repr

inductive EngineEntry
  | compiled (result : Except EngineError ServedPolicy)
  | found (result : Except EngineError ServedPolicy)
  | evaluated (result : Except EngineError (Nat × Int))
  deriving DecidableEq

-- The publisher and the table of versions with its lock, which readers share. The source does not store
-- the programs that were put into the registry and are not recorded yet, each with the thread that has
-- put it there, and the calls that have returned.
structure Engine where
  publisher : PolicyPublisher := { registry := {} }
  versions : ContentHash → Int := fun _ => 0
  writer : Option Nat := none
  readers : List Nat := []
  pending : List (Nat × ContentHash) := []
  trace : List EngineEntry := []

inductive EnginePoint
  | idle
  -- CompilePolicy.
  | publish (point : PublisherPoint)
  | writeLock (compiled : Nat) (version : PolicyVersion)
  | write (compiled : Nat) (version : PolicyVersion)
  | writeUnlock (compiled : Nat)
  -- LookupPolicy.
  | lookup (hash : ContentHash)
  -- EvaluateBatch.
  | active
  | explicit (hash : ContentHash)
  | readLock (compiled : Nat)
  | read (compiled : Nat)
  | readUnlock (compiled : Nat) (version : Int)
  deriving DecidableEq

inductive EngineEvent
  -- A call, with what its context says when it is asked.
  | call (c : EngineCall) (error : Option Nat)
  | publisher (e : PublisherEvent)
  | go

section Metadata

variable (heap : Nat → FrozenProgram)

def policyMetadata (compiled : Nat) : Except EngineError ServedPolicy :=
  match (heap compiled).name, (heap compiled).version with
  | some name, some version => .ok {
      name := name
      version := version
      contentHash := (heap compiled).contentHash
      instructions := .ofNat (heap compiled).program.opcodes.length
      requirements := .ofNat (heap compiled).program.requirementIDs.length
      clauses := .ofNat (heap compiled).program.clauseAssertionRoots.length }
  | _, _ => .error .unavailable

end Metadata

def PolicyError.invalidPolicy : PolicyError → Bool
  | .endedContext e | .compilePolicy e | .persistActivePolicy e | .loadActivePolicy e
  | .loadPolicyHash e => e == 0
  | _ => false

namespace Engine

variable (sha256 : List Byte → ContentHash) (heap : Nat → FrozenProgram) (compilerVersion : List Byte)
  (maxPolicyBytes : Nat)

def log (s : Engine) (e : EngineEntry) : Engine :=
  { s with trace := s.trace ++ [e] }

-- Goes on after a turn in the publisher. A thread that is idle there has returned from it, and its answer
-- is the last one.
def resume (s : Engine) (next : PolicyPublisher × PublisherPoint) : Option (Engine × EnginePoint) :=
  let s := { s with publisher := next.1 }
  if next.2 = .idle then
    match next.1.trace.getLast? with
    | some (.returned _ (.ok (compiled, version))) => some (s, .writeLock compiled version)
    | some (.returned _ (.error (e, _))) =>
      some (s.log (.compiled (.error (if e.invalidPolicy then .invalidPolicy else .unavailable))), .idle)
    | _ => none
  else some (s, .publish next.2)

def owe (s : Engine) (t : Nat) (p : PublisherPoint) : Engine :=
  { s with pending := s.pending ++ (p.storing.map fun c => (t, (heap c).contentHash)).toList }

def start (s : Engine) (t : Nat) (error : Option Nat) : EngineCall → Option (Engine × EnginePoint)
  | .compilePolicy ctx source =>
    if !ctx || source.isEmpty || maxPolicyBytes < source.length then
      some (s.log (.compiled (.error .invalidPolicy)), .idle)
    else (PolicyPublisher.step sha256 heap compilerVersion t s.publisher .idle
      (.call (.publish true source) error)).bind s.resume
  | .lookupPolicy ctx hash =>
    if !ctx || hash == 0#256 then some (s.log (.found (.error .invalidRequest)), .idle)
    else match error with
      | some e => some (s.log (.found (.error (.endedContext e))), .idle)
      | none => some (s, .lookup hash)
  | .evaluateBatch ctx requests evidence policyHash =>
    if !ctx || requests.isEmpty || evidence.isEmpty then
      some (s.log (.evaluated (.error .invalidRequest)), .idle)
    else match error with
      | some e => some (s.log (.evaluated (.error (.endedContext e))), .idle)
      | none =>
        match policyHash with
        | none => some (s, .active)
        | some hash => some (s, .explicit hash)

def step (t : Nat) (s : Engine) : EnginePoint → EngineEvent → Option (Engine × EnginePoint)
  | .idle, .call c error => s.start sha256 heap compilerVersion maxPolicyBytes t error c
  | .publish p, .publisher e =>
    (PolicyPublisher.step sha256 heap compilerVersion t s.publisher p e).bind (s.owe heap t p).resume
  | .writeLock compiled version, .go =>
    if s.writer.isSome || !s.readers.isEmpty then none
    else some ({ s with writer := some t }, .write compiled version)
  | .write compiled version, .go =>
    some ({ s with
      versions := Function.update s.versions version.contentHash version.id
      pending := s.pending.filter (·.1 != t) }, .writeUnlock compiled)
  | .writeUnlock compiled, .go =>
    some ({ s with writer := none }.log (.compiled (policyMetadata heap compiled)), .idle)
  | .lookup hash, .go =>
    match s.publisher.registry.lookup hash with
    | none => some (s.log (.found (.error .policyNotFound)), .idle)
    | some compiled => some (s.log (.found (policyMetadata heap compiled)), .idle)
  | .active, .go =>
    match s.publisher.registry.active with
    | none => some (s.log (.evaluated (.error .unavailable)), .idle)
    | some compiled => some (s, .readLock compiled)
  | .explicit hash, .go =>
    match s.publisher.registry.lookup hash with
    | none => some (s.log (.evaluated (.error .policyNotFound)), .idle)
    | some compiled => some (s, .readLock compiled)
  | .readLock compiled, .go =>
    if s.writer.isSome then none else some ({ s with readers := t :: s.readers }, .read compiled)
  | .read compiled, .go => some (s, .readUnlock compiled (s.versions (heap compiled).contentHash))
  | .readUnlock compiled version, .go =>
    let s := { s with readers := s.readers.erase t }
    if version ≤ 0 then some (s.log (.evaluated (.error .unversioned)), .idle)
    else some (s.log (.evaluated (.ok (compiled, version))), .idle)
  | _, _ => none

-- The condition under which evaluations find versions: the version of a program is read when no thread
-- has put the program into the registry without having recorded it.
def recorded (_t : Nat) (s : Engine) : EnginePoint → EngineEvent → Bool
  | .read compiled, _ => s.pending.all (·.2 != (heap compiled).contentHash)
  | _, _ => true

def new : Threads.Config Engine EnginePoint where
  shared := {}
  threads := fun _ => .idle

end Engine
end NornRune
