import NornRune.Lib.Borrowers
import NornRune.Scheduling.Arena

open Ledger

-- Borrow and Return of an arena, one atomic operation at a time. What is in the buffers of a context is
-- left out, and so are the calls that use a lease without ending it.
namespace NornRune

inductive LeaseCall
  -- The cancellation context is missing, or it is canceled already or not.
  | borrow (ctx : Option Bool)
  -- A lease that some call was given, unless it is the zero value or that of another arena.
  | giveBack (lease : Option Nat)
  -- Someone claims the output of a context, or releases such a claim.
  | claim (context claim : Nat)
  deriving DecidableEq, Repr

inductive LeaseReturned
  | borrow (result : Except ArenaError Nat)
  | giveBack (lease : Option Nat) (result : Except ArenaError Unit)

structure Leases where
  pool : Pool
  claims : Nat → Nat := fun _ => 0
  returned : List LeaseReturned := []

inductive LeasePoint
  | idle
  -- Borrow.
  | borrowReceive
  | retireLoad (context : Nat)
  | retireSwap (context claim : Nat)
  | borrowGenerate (context : Nat)
  | borrowSwitch (context generation : Nat)
  -- Return.
  | returnLoad (lease : Nat) (grant : Grant)
  | returnSwitch (lease : Nat) (grant : Grant)
  | returnReload (lease : Nat) (grant : Grant)
  | returnClaim (lease : Nat) (grant : Grant)
  | returnRestore (lease : Nat) (grant : Grant)
  | returnReset (lease : Nat) (grant : Grant)
  | returnStore (lease : Nat) (grant : Grant)
  | returnSend (lease : Nat) (grant : Grant)
  | panicked (text : String)
  deriving DecidableEq

inductive LeaseEvent
  | call (c : LeaseCall)
  | go
  | receive
  | cancel

namespace Leases

variable (s : Leases)

def log (call : LeaseReturned) : Leases :=
  { s with returned := s.returned ++ [call] }

def update (ledger : Ledger) : Leases :=
  { s with pool := s.pool.update ledger }

def setClaim (i claim : Nat) : Leases :=
  { s with claims := Function.update s.claims i claim }

def start : LeaseCall → Option (Leases × LeasePoint)
  | .borrow none => some (s.log (.borrow (.error .invalidContext)), .idle)
  | .borrow (some true) => some (s.log (.borrow (.error .canceled)), .idle)
  | .borrow (some false) => some (s, .borrowReceive)
  | .giveBack none => some (s.log (.giveBack none (.error .invalidLease)), .idle)
  | .giveBack (some n) => (s.pool.ledger.grants[n]?).map fun g => (s, .returnLoad n g)
  | .claim i claim => some (s.setClaim i claim, .idle)

def step (t : Nat) (s : Leases) : LeasePoint → LeaseEvent → Option (Leases × LeasePoint)
  | .idle, .call c => s.start c
  | .borrowReceive, .receive => (s.pool.receive t).map fun (i, pool) => ({ s with pool }, .retireLoad i)
  | .borrowReceive, .cancel => some (s.log (.borrow (.error .canceled)), .idle)
  | .retireLoad i, .go =>
    some (s, if s.claims i % 2 = 0 then .borrowGenerate i else .retireSwap i (s.claims i))
  | .retireSwap i claim, .go =>
    if s.claims i = claim then some (s.setClaim i ((claim + 1) % 2 ^ 32), .borrowGenerate i)
    else some (s, .retireLoad i)
  | .borrowGenerate i, .go =>
    -- A generation that has become zero is counted on once more.
    let ledger := s.pool.ledger.advance i
    let generation := (ledger.slots i).generation
    some (s.update ledger, if generation = 0 then .borrowGenerate i else .borrowSwitch i generation)
  | .borrowSwitch i generation, .go =>
    match s.pool.ledger.lend i generation with
    | none => some (s, .panicked "scheduler: invalid context ownership state")
    | some ledger =>
      some ((s.update ledger).log (.borrow (.ok s.pool.ledger.grants.length)), .idle)
  | .returnLoad n g, .go =>
    match s.pool.ledger.check t g.slot g.generation with
    | none => some (s.log (.giveBack (some n) (.error .leaseExpired)), .idle)
    | some ledger => some (s.update ledger, .returnSwitch n g)
  | .returnSwitch n g, .go =>
    some (s.update (s.pool.ledger.switch t g.slot).1,
      if (s.pool.ledger.switch t g.slot).2 then .returnClaim n g else .returnReload n g)
  | .returnReload n g, .go =>
    let error := if (s.pool.ledger.slots g.slot).generation ≠ g.generation then .leaseExpired
      else .doubleReturn
    some (s.log (.giveBack (some n) (.error error)), .idle)
  | .returnClaim n g, .go =>
    if s.claims g.slot % 2 ≠ 0 then some (s, .returnRestore n g)
    else some (s.update (s.pool.ledger.finish t n g.slot), .returnReset n g)
  | .returnRestore n g, .go =>
    some ((s.update (s.pool.ledger.restore g.slot)).log (.giveBack (some n) (.error .outputEscaped)), .idle)
  | .returnReset n g, .go => some (s.setClaim g.slot 0, .returnStore n g)
  | .returnStore n g, .go => some (s.update (s.pool.ledger.free g.slot), .returnSend n g)
  | .returnSend n g, .go =>
    match s.pool.send g.slot with
    | none => some (s, .panicked "scheduler: duplicate context publication")
    | some pool => some ({ s with pool }.log (.giveBack (some n) (.ok ())), .idle)
  | _, _ => none

def new (count : Int) : Except ArenaError (Threads.Config Leases LeasePoint) :=
  if count ≤ 0 then .error .invalidArena
  else .ok {
    shared := { pool := Pool.new count.toNat }
    threads := fun _ => .idle
  }

-- A context is not counted on as long as a call that has found the generation of its lease has not
-- tried to switch the context, and not beyond the last generation.
def advancesUnseen (_ : Nat) (s : Leases) : LeasePoint → LeaseEvent → Bool
  | .borrowGenerate i, _ => s.pool.ledger.unseen i
  | _, _ => true

end Leases
end NornRune
