import NornRune.Objects.Result

-- The arena of the contexts in which requests are served. A context is lent to one caller at a time.
namespace NornRune

inductive ArenaError
  | invalidArena
  | invalidCapacity
  | invalidContext
  | invalidLease
  | leaseExpired
  | doubleReturn
  | outputClaimed
  | outputNotClaimed
  | outputEscaped
  -- What the cancellation context of a caller reports.
  | canceled
  deriving DecidableEq, Repr

inductive ContextState
  | available
  | borrowed
  | returning
  deriving DecidableEq, Repr

structure Capacity where
  inputBytes : Int
  outputBytes : Int
  rows : Nat
  deriving DecidableEq, Repr

-- A context. The decoder, the builder and the executor that it owns are not touched by the arena. The
-- capacity of its buffers is not observable.
structure Context where
  input : List Byte := []
  output : List Byte := []
  evidenceOffsets : List Nat := []
  result : ResultBatch := .empty
  generation : Nat := 0
  state : ContextState := .available
  outputClaim : Nat := 0

-- A lease names its arena by address and its context by the position in the arena. The zero value
-- names neither.
structure Lease where
  arena : Option Nat := none
  context : Option Nat := none
  generation : Nat := 0
  deriving DecidableEq, Repr

structure OutputLease where
  context : Option Nat := none
  generation : Nat := 0
  claim : Nat := 0
  deriving DecidableEq, Repr

structure Arena where
  address : Nat
  contexts : List Context
  available : List Nat
  capacity : Nat

def validateCapacity (c : Capacity) : Except ArenaError Nat :=
  let offsets := c.rows + 1
  if c.inputBytes < 0 ∨ c.outputBytes < 0 then .error .invalidCapacity
  else if maxInt < offsets ∨ maxInt / 4 < offsets then .error .invalidCapacity
  else .ok offsets

def newArena (address : Nat) (count : Int) (capacity : Capacity) : Except ArenaError Arena :=
  if count ≤ 0 then .error .invalidArena
  else do
    let _ ← validateCapacity capacity
    return {
      address
      contexts := List.replicate count.toNat {}
      available := List.range count.toNat
      capacity := count.toNat
    }

-- Generations are counted in 64 bits. Zero is skipped.
def nextGeneration (generation : Nat) : Nat :=
  let next := (generation + 1) % 2 ^ 64
  if next = 0 then 1 else next

namespace Context

variable (w : Context)

def claimed : Bool := w.outputClaim % 2 == 1

def retireFailedClaim : Context :=
  if w.claimed then { w with outputClaim := (w.outputClaim + 1) % 2 ^ 32 } else w

def reset : Except Panic Context :=
  match w.result.reset 0 with
  | none => .error "scheduler: invalid owned result batch"
  | some result => .ok { w with input := [], output := [], evidenceOffsets := [], outputClaim := 0, result }

end Context

-- How a caller waits for a context: without a cancellation context, with one that is canceled before
-- the call or while it waits, or until it gets a context.
inductive Patience
  | missing
  | canceledBefore
  | canceledWaiting
  | waits
  deriving DecidableEq, Repr

inductive Part
  | decoder
  | builder
  | executor
  | result
  deriving DecidableEq, Repr

inductive ArenaCall
  | borrow (patience : Patience)
  | giveBack (lease : Lease)
  | grow (lease : Lease) (capacity : Capacity)
  | setInput (lease : Lease) (source : List Byte)
  | inputBytes (lease : Lease)
  | appendOutput (lease : Lease) (source : List Byte)
  | resetOutput (lease : Lease)
  | part (lease : Lease) (part : Part)
  | claimOutput (lease : Lease)
  | bytes (claim : OutputLease)
  | release (claim : OutputLease)
  deriving DecidableEq, Repr

inductive Reply
  | lease (lease : Lease)
  | returned
  | done
  | bytes (bytes : List Byte)
  | part (part : Part)
  | claim (claim : OutputLease)
  | released
  | error (e : ArenaError)
  deriving DecidableEq, Repr

namespace Arena

variable (a : Arena)

def valid : Bool :=
  a.contexts.length != 0 && a.capacity == a.contexts.length

def put (i : Nat) (w : Context) : Arena :=
  { a with contexts := a.contexts.set i w }

def refuse (e : ArenaError) : Except Panic (Arena × Reply) :=
  .ok (a, .error e)

def borrow (patience : Patience) : Option (Except Panic (Arena × Reply)) :=
  if !a.valid then some (a.refuse .invalidArena)
  else match patience with
    | .missing => some (a.refuse .invalidContext)
    | .canceledBefore => some (a.refuse .canceled)
    | .canceledWaiting => some (a.refuse .canceled)
    | .waits =>
      match a.available with
      | [] => none
      | i :: available =>
        match a.contexts[i]? with
        | none => some (.error "scheduler: invalid available context")
        | some w =>
          let w := w.retireFailedClaim
          let generation := nextGeneration w.generation
          if w.state ≠ .available then some (.error "scheduler: invalid context ownership state")
          else some (.ok ({ a with available }.put i { w with generation, state := .borrowed },
            .lease ⟨some a.address, some i, generation⟩))

def leased (lease : Lease) : Option (Nat × Context) :=
  if lease.arena ≠ some a.address ∨ lease.generation = 0 then none
  else lease.context.bind fun i => (a.contexts[i]?).map (i, ·)

def giveBack (lease : Lease) : Except Panic (Arena × Reply) :=
  if !a.valid then a.refuse .invalidArena
  else match a.leased lease with
    | none => a.refuse .invalidLease
    | some (i, w) =>
      if w.generation ≠ lease.generation then a.refuse .leaseExpired
      -- Nothing happens between the two looks at the generation.
      else if w.state ≠ .borrowed then a.refuse .doubleReturn
      else if w.claimed then a.refuse .outputEscaped
      else do
        let w ← w.reset
        if a.available.length < a.capacity then
          .ok ({ a with available := a.available ++ [i] }.put i { w with state := .available },
            .returned)
        else .error "scheduler: duplicate context publication"

def active (lease : Lease) : Except ArenaError (Nat × Context) :=
  match a.leased lease with
  | none => .error .invalidLease
  | some (i, w) =>
    if w.generation ≠ lease.generation ∨ w.state ≠ .borrowed then .error .leaseExpired
    else .ok (i, w)

-- What a call does with the context of its lease. A call that writes to the output must not do so while
-- the output is claimed.
def withLease (lease : Lease) (writesOutput : Bool) (f : Context → Context) (reply : Context → Reply) :
    Except Panic (Arena × Reply) :=
  match a.active lease with
  | .error e => a.refuse e
  | .ok (i, w) =>
    if writesOutput && w.claimed then a.refuse .outputClaimed else .ok (a.put i (f w), reply w)

def grow (lease : Lease) (capacity : Capacity) : Except Panic (Arena × Reply) :=
  match a.active lease with
  | .error e => a.refuse e
  | .ok _ =>
    match validateCapacity capacity with
    | .error e => a.refuse e
    | .ok _ => a.withLease lease true id fun _ => .done

def setInput (lease : Lease) (source : List Byte) : Except Panic (Arena × Reply) :=
  a.withLease lease false (fun w => { w with input := source }) fun _ => .done

def inputBytes (lease : Lease) : Except Panic (Arena × Reply) :=
  a.withLease lease false id fun w => .bytes w.input

def appendOutput (lease : Lease) (source : List Byte) : Except Panic (Arena × Reply) :=
  a.withLease lease true (fun w => { w with output := w.output ++ source }) fun _ => .done

def resetOutput (lease : Lease) : Except Panic (Arena × Reply) :=
  a.withLease lease true (fun w => { w with output := [] }) fun _ => .done

def part (lease : Lease) (part : Part) : Except Panic (Arena × Reply) :=
  a.withLease lease false id fun _ => .part part

def claimOutput (lease : Lease) : Except Panic (Arena × Reply) :=
  match a.active lease with
  | .error e => a.refuse e
  | .ok (i, w) =>
    if w.claimed ∨ w.outputClaim = maxUint32 - 1 then a.refuse .outputClaimed
    else
      let claim := w.outputClaim + 1
      .ok (a.put i { w with outputClaim := claim }, .claim ⟨some i, lease.generation, claim⟩)

def claimedBy (claim : OutputLease) : Option (Nat × Context) :=
  if claim.generation = 0 ∨ claim.claim % 2 = 0 then none
  else claim.context.bind fun i => (a.contexts[i]?).map (i, ·)

def bytes (claim : OutputLease) : Except Panic (Arena × Reply) :=
  match a.claimedBy claim with
  | none => a.refuse .invalidLease
  | some (_, w) =>
    if w.generation ≠ claim.generation ∨ w.state ≠ .borrowed then a.refuse .leaseExpired
    else if w.outputClaim ≠ claim.claim then a.refuse .outputNotClaimed
    else .ok (a, .bytes w.output)

def release (claim : OutputLease) : Except Panic (Arena × Reply) :=
  match a.claimedBy claim with
  | none => a.refuse .invalidLease
  | some (i, w) =>
    if w.generation ≠ claim.generation then a.refuse .leaseExpired
    else if w.outputClaim ≠ claim.claim then a.refuse .outputNotClaimed
    else .ok (a.put i { w with outputClaim := (claim.claim + 1) % 2 ^ 32 }, .released)

def perform : ArenaCall → Option (Except Panic (Arena × Reply))
  | .borrow patience => a.borrow patience
  | .giveBack lease => some (a.giveBack lease)
  | .grow lease capacity => some (a.grow lease capacity)
  | .setInput lease source => some (a.setInput lease source)
  | .inputBytes lease => some (a.inputBytes lease)
  | .appendOutput lease source => some (a.appendOutput lease source)
  | .resetOutput lease => some (a.resetOutput lease)
  | .part lease part => some (a.part lease part)
  | .claimOutput lease => some (a.claimOutput lease)
  | .bytes claim => some (a.bytes claim)
  | .release claim => some (a.release claim)

end Arena

structure Served where
  call : ArenaCall
  reply : Reply

def leasesOf (served : List Served) : List Lease :=
  served.filterMap fun s => match s.reply with
    | .lease lease => some lease
    | _ => none

def claimsOf (served : List Served) : List OutputLease :=
  served.filterMap fun s => match s.reply with
    | .claim claim => some claim
    | _ => none

def ArenaCall.lease : ArenaCall → Option Lease
  | .giveBack lease | .grow lease _ | .setInput lease _ | .inputBytes lease | .appendOutput lease _
  | .resetOutput lease | .part lease _ | .claimOutput lease => some lease
  | _ => none

def ArenaCall.claim : ArenaCall → Option OutputLease
  | .bytes claim | .release claim => some claim
  | _ => none

-- Callers only have the leases and claims that they were given, also old ones and copies, and the zero
-- values. A lease of another arena can be given back to the wrong one.
structure Entitled (a : Arena) (served : List Served) (call : ArenaCall) : Prop where
  lease : ∀ lease, call.lease = some lease → lease ∈ leasesOf served ∨ lease = {} ∨
    (call = .giveBack lease ∧ lease.arena ≠ some a.address)
  claim : ∀ claim, call.claim = some claim → claim ∈ claimsOf served ∨ claim = {}

structure Service where
  arena : Arena
  served : List Served

inductive Service.Step (s : Service) : Service → Prop
  | call {call : ArenaCall} {arena : Arena} {reply : Reply} (entitled : Entitled s.arena s.served call)
    (performed : s.arena.perform call = some (.ok (arena, reply))) :
    Step s ⟨arena, s.served ++ [⟨call, reply⟩]⟩

def Service.Steps : Service → Service → Prop := Relation.ReflTransGen Service.Step

end NornRune
