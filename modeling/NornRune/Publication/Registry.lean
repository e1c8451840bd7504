import NornRune.Lib.Threads
import NornRune.Objects.Schema

-- The registry of compiled programs. Programs are found by the hash of their source, and callers that
-- ask for the same source at the same time share one compilation.
namespace NornRune

abbrev ContentHash := BitVec 256

inductive RegistryError
  | invalidRegistry
  | policyNotFound
  -- An error of a compile function, which the registry passes on.
  | compile (code : Nat)
  deriving DecidableEq, Repr

-- Programs are addresses. A frozen program keeps its content hash.
abbrev Compiled := Except RegistryError Nat

-- The programs of a snapshot. A snapshot is never changed once it is stored.
abbrev Snapshot := List (ContentHash × Nat)

def Snapshot.lookup (s : Snapshot) (hash : ContentHash) : Option Nat :=
  (s.find? (·.1 == hash)).map (·.2)

-- A compilation in flight. Its result is there once its channel is closed. The hash and the thread that
-- leads the flight are not stored in the source, where only the leader holds on to them.
structure Flight where
  hash : ContentHash
  leader : Nat
  done : Option Compiled
  deriving DecidableEq, Repr

inductive RegistryCall
  | publish (candidate : Option Nat)
  | activate (hash : ContentHash)
  -- The flag says whether there is a compile function.
  | loadOrCompile (hash : ContentHash) (compile : Bool)
  deriving DecidableEq, Repr

-- How a load came by its result: it was published already, or compiled in a flight that the caller led
-- or waited for.
inductive LoadPath
  | published
  | led (flight : Nat)
  | joined (flight : Nat)
  deriving DecidableEq, Repr

inductive Returned
  | publish (candidate : Option Nat) (result : Compiled)
  | activate (hash : ContentHash) (result : Except RegistryError Unit)
  | load (hash : ContentHash) (path : Option LoadPath) (result : Compiled)
  deriving DecidableEq

-- The registry, the flights that were ever made, and the calls that have returned, in order. Locks
-- hold the thread that has them.
structure Registry where
  snapshot : Option Snapshot := none
  active : Option Nat := none
  flights : List (ContentHash × Nat) := []
  publish : Option Nat := none
  flight : Option Nat := none
  made : List Flight := []
  returned : List Returned := []

namespace Registry

variable (r : Registry)

def lookup (hash : ContentHash) : Option Nat :=
  r.snapshot.bind (·.lookup hash)

def log (call : Returned) : Registry :=
  { r with returned := r.returned ++ [call] }

end Registry

def validRegistryHash (hash : ContentHash) : Bool :=
  hash != 0#256

-- Who waits for the result of a publication: a caller of its own, or the leader of a flight.
inductive Publisher
  | caller
  | leader (hash : ContentHash) (flight : Nat)
  deriving DecidableEq, Repr

inductive RegistryPoint
  | idle
  -- Publish.
  | publishLock (publisher : Publisher) (candidate : Nat)
  | publishLoad (publisher : Publisher) (candidate : Nat)
  | publishStore (publisher : Publisher) (candidate : Nat) (current : Option Snapshot)
  | publishUnlock (publisher : Publisher) (candidate : Nat) (result : Compiled)
  -- Activate.
  | activateLoad (hash : ContentHash)
  | activateStore (hash : ContentHash) (compiled : Nat)
  -- LoadOrCompile.
  | loadFirst (hash : ContentHash)
  | loadLock (hash : ContentHash)
  | loadAgain (hash : ContentHash)
  | foundUnlock (hash : ContentHash) (compiled : Nat)
  | join (hash : ContentHash)
  | waitUnlock (hash : ContentHash) (flight : Nat)
  | wait (hash : ContentHash) (flight : Nat)
  | leadUnlock (hash : ContentHash) (flight : Nat)
  | compile (hash : ContentHash) (flight : Nat)
  | finishLock (hash : ContentHash) (flight : Nat) (result : Compiled)
  | finish (hash : ContentHash) (flight : Nat) (result : Compiled)
  | finishUnlock (hash : ContentHash) (flight : Nat) (result : Compiled)
  deriving DecidableEq

inductive RegistryEvent
  -- A thread that does nothing else starts a call.
  | call (c : RegistryCall)
  -- The compile function that a thread has called returns.
  | compiled (program : Option Nat) (error : Option Nat)
  -- A thread goes on.
  | go

namespace Registry

variable (content : Nat → ContentHash)

def endPublish (r : Registry) (candidate : Option Nat) (result : Compiled) :
    Publisher → Registry × RegistryPoint
  | .caller => (r.log (.publish candidate result), .idle)
  | .leader hash flight => (r, .finishLock hash flight result)

def startPublish (r : Registry) (publisher : Publisher) (candidate : Option Nat) : Registry × RegistryPoint :=
  match candidate with
  | none => r.endPublish none (.error .invalidRegistry) publisher
  | some c =>
    if validRegistryHash (content c) then (r, .publishLock publisher c)
    else r.endPublish candidate (.error .invalidRegistry) publisher

def start (r : Registry) : RegistryCall → Registry × RegistryPoint
  | .publish candidate => r.startPublish content .caller candidate
  | .activate hash =>
    if validRegistryHash hash then (r, .activateLoad hash)
    else (r.log (.activate hash (.error .policyNotFound)), .idle)
  | .loadOrCompile hash compile =>
    if compile && validRegistryHash hash then (r, .loadFirst hash)
    else (r.log (.load hash none (.error .invalidRegistry)), .idle)

def endCompile (r : Registry) (hash : ContentHash) (flight : Nat) (program error : Option Nat) :
    Registry × RegistryPoint :=
  match error, program with
  | some code, _ => (r, .finishLock hash flight (.error (.compile code)))
  | none, none => (r, .finishLock hash flight (.error .invalidRegistry))
  | none, some c =>
    if content c = hash then r.startPublish content (.leader hash flight) (some c)
    else (r, .finishLock hash flight (.error .invalidRegistry))

def publishFrom (current : Option Snapshot) (publisher : Publisher) (candidate : Nat) : RegistryPoint :=
  match current with
  | none => .publishStore publisher candidate current
  | some programs =>
    match programs.lookup (content candidate) with
    | some existing => .publishUnlock publisher candidate (.ok existing)
    | none =>
      if programs.length = maxInt then
        .publishUnlock publisher candidate (.error .invalidRegistry)
      else .publishStore publisher candidate current

def step (t : Nat) (r : Registry) : RegistryPoint → RegistryEvent → Option (Registry × RegistryPoint)
  | .idle, .call c => some (r.start content c)
  | .publishLock publisher c, .go =>
    if r.publish.isSome then none else some ({ r with publish := some t }, .publishLoad publisher c)
  | .publishLoad publisher c, .go => some (r, publishFrom content r.snapshot publisher c)
  | .publishStore publisher c current, .go =>
    some ({ r with snapshot := some (current.getD [] ++ [(content c, c)]) },
      .publishUnlock publisher c (.ok c))
  | .publishUnlock publisher c result, .go =>
    some ({ r with publish := none }.endPublish (some c) result publisher)
  | .activateLoad hash, .go =>
    match r.lookup hash with
    | none => some (r.log (.activate hash (.error .policyNotFound)), .idle)
    | some c => some (r, .activateStore hash c)
  | .activateStore hash c, .go =>
    some ({ r with active := some c }.log (.activate hash (.ok ())), .idle)
  | .loadFirst hash, .go =>
    match r.lookup hash with
    | some c => some (r.log (.load hash (some .published) (.ok c)), .idle)
    | none => some (r, .loadLock hash)
  | .loadLock hash, .go =>
    if r.flight.isSome then none else some ({ r with flight := some t }, .loadAgain hash)
  | .loadAgain hash, .go =>
    match r.lookup hash with
    | some c => some (r, .foundUnlock hash c)
    | none => some (r, .join hash)
  | .foundUnlock hash c, .go =>
    some ({ r with flight := none }.log (.load hash (some .published) (.ok c)), .idle)
  | .join hash, .go =>
    match Snapshot.lookup r.flights hash with
    | some f => some (r, .waitUnlock hash f)
    | none =>
      let f := r.made.length
      some ({ r with
        flights := r.flights ++ [(hash, f)]
        made := r.made ++ [⟨hash, t, none⟩] }, .leadUnlock hash f)
  | .waitUnlock hash f, .go => some ({ r with flight := none }, .wait hash f)
  | .wait hash f, .go =>
    -- A flight that is not done blocks those who wait for it.
    ((r.made[f]?).bind (·.done)).map fun result =>
      (r.log (.load hash (some (.joined f)) result), .idle)
  | .leadUnlock hash f, .go => some ({ r with flight := none }, .compile hash f)
  | .compile hash f, .compiled program error => some (r.endCompile content hash f program error)
  | .finishLock hash f result, .go =>
    if r.flight.isSome then none else some ({ r with flight := some t }, .finish hash f result)
  | .finish hash f result, .go =>
    some ({ r with
      made := r.made.modify f fun flight => { flight with done := some result }
      flights := r.flights.filter (·.1 != hash) }, .finishUnlock hash f result)
  | .finishUnlock hash f result, .go =>
    some ({ r with flight := none }.log (.load hash (some (.led f)) result), .idle)
  | _, _ => none

def empty : Threads.Config Registry RegistryPoint where
  shared := {}
  threads := fun _ => .idle

def run (es : List (Nat × RegistryEvent)) : Option (Threads.Config Registry RegistryPoint) :=
  Threads.run (step content) empty es

end Registry
end NornRune
