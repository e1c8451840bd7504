import NornRune.Lib.Lending
import NornRune.Lib.Threads

open Ledger

-- The admission of requests. A service has a fixed number of slots, and a request that is admitted has
-- one of them until it is released.
namespace NornRune

inductive ServiceError
  | invalidService
  | invalidContext
  | serviceStopping
  | serviceBusy
  | invalidAdmission
  | admissionReleased
  -- What the cancellation context of a caller reports.
  | canceled
  deriving DecidableEq, Repr

def maxAdmissions : Nat := 4096

inductive StopOnce
  | fresh
  | running (thread : Nat)
  | done
  deriving DecidableEq, Repr

inductive AdmissionCall
  -- The cancellation context is missing, or it is canceled already or not.
  | admitCall (ctx : Option Bool)
  -- An admission that some call was given, unless it is the zero value or that of another service.
  | release (admission : Option Nat)
  | stopAdmission
  -- The flag says whether there is a cancellation context.
  | drain (ctx : Bool)
  deriving DecidableEq, Repr

inductive AdmissionReturned
  | admitCall (result : Except ServiceError Nat)
  | release (admission : Option Nat) (result : Except ServiceError Unit)
  | stopAdmission
  | drain (result : Except ServiceError Unit)

-- The service. Which thread has the lock, which calls are queued, which admissions were shown to be
-- released and by whom, and which calls have returned is not stored in the source.
structure Admissions where
  pool : Pool
  active : Int := 0
  queued : Int := 0
  accepting : Bool := true
  stopping : Bool := false
  drained : Bool := false
  drainedClosed : Bool := false
  stopOnce : StopOnce := .fresh
  mu : Option Nat := none
  waiting : List Nat := []
  shown : List (Nat × Nat) := []
  returned : List AdmissionReturned := []

-- The points of its program at which a thread can lose its turn. Between two points there is one
-- operation on a slot or on a channel, or a section that only reads and writes what the lock protects.
inductive AdmissionPoint
  | idle
  -- Admit.
  | admitEnter
  | admitSelect
  | admitLeave (slot : Option Nat) (error : Option ServiceError)
  | admitSendBack (slot : Nat) (error : ServiceError)
  | admitDrain (error : ServiceError)
  | admitGenerate (slot : Nat)
  | admitSwitch (slot generation : Nat)
  -- Release.
  | releaseLoad (admission : Nat) (grant : Grant)
  | releaseSwitch (admission : Nat) (grant : Grant)
  | releaseLock (admission : Nat) (grant : Grant)
  | releaseStore (admission : Nat) (grant : Grant)
  | releaseSend (admission : Nat) (grant : Grant)
  | releaseDrain (admission : Nat)
  -- StopAdmission, and Drain, which begins with it.
  | stopDo (drains : Bool)
  | stopLock (drains : Bool)
  | stopClose (drains : Bool)
  | stopDrain (drains : Bool)
  | drainWait
  | panicked (text : String)
  deriving DecidableEq

inductive AdmissionEvent
  -- A thread that does nothing else starts a call.
  | call (c : AdmissionCall)
  -- A thread goes on.
  | go
  -- A thread that waits gets a slot.
  | receive
  -- A thread finds its cancellation context canceled.
  | cancel
  -- A thread that waits finds the service stopping.
  | stop

namespace Admissions

variable (s : Admissions)

def log (call : AdmissionReturned) : Admissions :=
  { s with returned := s.returned ++ [call] }

def start (t : Nat) : AdmissionCall → Option (Admissions × AdmissionPoint)
  | .admitCall none => some (s.log (.admitCall (.error .invalidContext)), .idle)
  | .admitCall (some true) => some (s.log (.admitCall (.error .canceled)), .idle)
  | .admitCall (some false) => some (s, .admitEnter)
  | .release none => some (s.log (.release none (.error .invalidAdmission)), .idle)
  | .release (some n) =>
    -- Nobody has an admission that was not given.
    (s.pool.ledger.grants[n]?).map fun g => ({ s with shown := s.shown ++ [(n, t)] }, .releaseLoad n g)
  | .stopAdmission => some (s, .stopDo false)
  | .drain false => some (s.log (.drain (.error .invalidContext)), .idle)
  | .drain true => some (s, .stopDo true)

-- Closing a channel that is closed panics.
def maybeCloseDrainedLocked : Option Admissions :=
  if !s.accepting ∧ s.active = 0 ∧ s.queued = 0 ∧ !s.drainedClosed then
    if s.drained then none else some { s with drainedClosed := true, drained := true }
  else some s

def leave (k : Admissions → Admissions × AdmissionPoint) : Admissions × AdmissionPoint :=
  match s.maybeCloseDrainedLocked with
  | none => (s, .panicked "close of closed channel")
  | some s => k { s with mu := none }

def update (ledger : Ledger) : Admissions :=
  { s with pool := s.pool.update ledger }

def endStop (drains : Bool) : Admissions × AdmissionPoint :=
  if drains then (s, .drainWait) else (s.log .stopAdmission, .idle)

def afterWait (slot : Option Nat) (error : Option ServiceError) (canceled : Bool) :
    Admissions × AdmissionPoint :=
  let error := error.or
    (if canceled then some .canceled else if !s.accepting then some .serviceStopping else none)
  match error, slot with
  | some error, some i => (s, .admitSendBack i error)
  | some error, none => (s, .admitDrain error)
  | none, some i => (s, .admitGenerate i)
  | none, none => ({ s with mu := none }, .panicked "service: invalid admission slot state")

def step (t : Nat) (s : Admissions) :
    AdmissionPoint → AdmissionEvent → Option (Admissions × AdmissionPoint)
  | .idle, .call c => s.start t c
  | .admitEnter, .go =>
    if s.mu.isSome then none
    else if !s.accepting then some (s.log (.admitCall (.error .serviceStopping)), .idle)
    else if s.pool.limit ≤ s.queued then some (s.log (.admitCall (.error .serviceBusy)), .idle)
    else some ({ s with queued := s.queued + 1, waiting := s.waiting ++ [t] }, .admitSelect)
  | .admitSelect, .receive =>
    (s.pool.receive t).map fun (i, pool) => ({ s with pool }, .admitLeave (some i) none)
  | .admitSelect, .cancel => some (s, .admitLeave none (some .canceled))
  | .admitSelect, .stop =>
    if s.stopping then some (s, .admitLeave none (some .serviceStopping)) else none
  | .admitLeave slot error, .go =>
    if s.mu.isSome then none
    else some (afterWait { s with mu := some t, queued := s.queued - 1, waiting := s.waiting.erase t }
      slot error false)
  | .admitLeave slot error, .cancel =>
    if s.mu.isSome then none
    else some (afterWait { s with mu := some t, queued := s.queued - 1, waiting := s.waiting.erase t }
      slot error true)
  | .admitSendBack i error, .go =>
    (s.pool.send i).map fun pool => ({ s with pool }, .admitDrain error)
  | .admitDrain error, .go => some (s.leave fun s => (s.log (.admitCall (.error error)), .idle))
  | .admitGenerate i, .go =>
    -- A generation that has become zero is counted on once more.
    let ledger := s.pool.ledger.advance i
    let generation := (ledger.slots i).generation
    some (s.update ledger,
      if generation = 0 then .admitGenerate i else .admitSwitch i generation)
  | .admitSwitch i generation, .go =>
    match s.pool.ledger.lend i generation with
    | none => some ({ s with mu := none }, .panicked "service: invalid admission slot state")
    | some ledger => some ({ s.update ledger with active := s.active + 1, mu := none }.log
        (.admitCall (.ok s.pool.ledger.grants.length)), .idle)
  | .releaseLoad n g, .go =>
    match s.pool.ledger.check t g.slot g.generation with
    | none => some (s.log (.release (some n) (.error .admissionReleased)), .idle)
    | some ledger => some (s.update ledger, .releaseSwitch n g)
  | .releaseSwitch n g, .go =>
    let s' := s.update (s.pool.ledger.switch t g.slot).1
    if (s.pool.ledger.switch t g.slot).2 then some (s', .releaseLock n g)
    else some (s'.log (.release (some n) (.error .admissionReleased)), .idle)
  | .releaseLock n g, .go =>
    if s.mu.isSome then none
    else if s.active - 1 < 0 then
      some ({ s with active := s.active - 1 }, .panicked "service: negative active admission count")
    else
      some ({ s.update (s.pool.ledger.finish t n g.slot) with mu := some t, active := s.active - 1 },
        .releaseStore n g)
  | .releaseStore n g, .go => some (s.update (s.pool.ledger.free g.slot), .releaseSend n g)
  | .releaseSend n g, .go =>
    (s.pool.send g.slot).map fun pool => ({ s with pool }, .releaseDrain n)
  | .releaseDrain n, .go => some (s.leave fun s => (s.log (.release (some n) (.ok ())), .idle))
  | .stopDo drains, .go =>
    match s.stopOnce with
    | .fresh => some ({ s with stopOnce := .running t }, .stopLock drains)
    | .running _ => none
    | .done => some (s.endStop drains)
  | .stopLock drains, .go =>
    if s.mu.isSome then none else some ({ s with mu := some t, accepting := false }, .stopClose drains)
  | .stopClose drains, .go =>
    if s.stopping then some (s, .panicked "close of closed channel")
    else some ({ s with stopping := true }, .stopDrain drains)
  | .stopDrain drains, .go => some (s.leave fun s => { s with stopOnce := .done }.endStop drains)
  | .drainWait, .go => if s.drained then some (s.log (.drain (.ok ())), .idle) else none
  | .drainWait, .cancel => some (s.log (.drain (.error .canceled)), .idle)
  | _, _ => none

def new (limit : Int) : Except ServiceError (Threads.Config Admissions AdmissionPoint) :=
  if limit ≤ 0 ∨ maxAdmissions < limit then .error .invalidService
  else .ok {
    shared := { pool := Pool.new limit.toNat }
    threads := fun _ => .idle
  }

def releasesOnce (_ : Nat) (s : Admissions) : AdmissionPoint → AdmissionEvent → Bool
  | .idle, .call (.release (some n)) => !(s.shown.map (·.1)).contains n
  | _, _ => true

-- A slot is not counted on as long as a call that has found the generation of its admission has not
-- tried to switch the slot, and not beyond the last generation.
def advancesUnseen (_ : Nat) (s : Admissions) : AdmissionPoint → AdmissionEvent → Bool
  | .admitGenerate i, _ => s.pool.ledger.unseen i
  | _, _ => true

end Admissions
end NornRune
