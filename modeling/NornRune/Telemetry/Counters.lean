import NornRune.Lib.Threads
import NornRune.Objects.Schema

-- The counters of the service, which threads add to without locks.
namespace NornRune.Telemetry

abbrev Word := BitVec 64

inductive Decision
  | approve
  | reject
  | revise
  | escalate
  deriving DecidableEq, Repr

def Decision.all : List Decision := [.approve, .reject, .revise, .escalate]

inductive Reason
  | missing
  | stale
  | unclear
  | unverifiable
  | wrongScope
  | wrongSubject
  | wrongTiming
  | invalid
  | conflict
  deriving DecidableEq, Repr

def Reason.all : List Reason :=
  [.missing, .stale, .unclear, .unverifiable, .wrongScope, .wrongSubject, .wrongTiming, .invalid, .conflict]

inductive AuditOutcome
  | persisted
  | optionalDrop
  | requiredFailure
  deriving DecidableEq, Repr

def AuditOutcome.all : List AuditOutcome := [.persisted, .optionalDrop, .requiredFailure]

inductive ReloadOutcome
  | success
  | invalid
  | persistenceFailure
  deriving DecidableEq, Repr

def ReloadOutcome.all : List ReloadOutcome := [.success, .invalid, .persistenceFailure]

def durationBounds : List Word :=
  [10000#64, 100000#64, 1000000#64, 10000000#64, 100000000#64, 1000000000#64, 10000000000#64]

abbrev Bucket := Fin 8

def durationBucket (value : Word) : Bucket :=
  ⟨durationBounds.findIdx (value.sle ·), Nat.lt_succ_of_le List.findIdx_le_length⟩

structure BatchDelta where
  decisions : Decision → Word
  reasons : Reason → Word
  audits : AuditOutcome → Word
  reloads : ReloadOutcome → Word
  duration : Word
  queueWait : Word
  queueObserved : Bool
  batches : Word
  failures : Word
  rows : Word

inductive Counter
  | decision (row : Decision)
  | reason (row : Reason)
  | audit (row : AuditOutcome)
  | reload (row : ReloadOutcome)
  | latency (bucket : Bucket)
  | queue (bucket : Bucket)
  | failures
  | rows
  | durationNanoseconds
  | queueWaitNanoseconds
  | shutdownFailures
  | exportDrops
  deriving DecidableEq, Repr

structure Counters where
  values : Counter → Word
  activeAdmissions : Word

structure Snapshot where
  decisions : Decision → Word
  reasons : Reason → Word
  audits : AuditOutcome → Word
  reloads : ReloadOutcome → Word
  latencyBuckets : Bucket → Word
  queueBuckets : Bucket → Word
  batches : Word
  failures : Word
  rows : Word
  durationNanoseconds : Word
  queueWaitNanoseconds : Word
  queueObservations : Word
  shutdownFailures : Word
  exportDrops : Word
  activeAdmissions : Word

def saturatingSum (left right : Word) : Word :=
  if BitVec.allOnes 64 - left < right then BitVec.allOnes 64 else left + right

namespace BatchDelta

variable (delta : BatchDelta)

def decisionTotal : Option Word :=
  Decision.all.foldlM (fun total row =>
    if BitVec.allOnes 64 - total < delta.decisions row then none else some (total + delta.decisions row)) 0#64

def valid : Bool :=
  if delta.duration.slt 0#64 || delta.queueWait.slt 0#64 then false
  else match delta.decisionTotal with
  | none => false
  | some decisions =>
    if delta.batches = 0#64 then delta.failures == 0#64 && delta.rows == 0#64 && decisions == 0#64
    else if delta.batches < delta.failures then false
    else if delta.failures ≠ 0#64 then decisions ≤ delta.rows
    else delta.rows == 0#64 && decisions == 0#64 || decisions == delta.rows

def updates : List (Counter × Word) :=
  Decision.all.map (fun row => (.decision row, delta.decisions row)) ++
  Reason.all.map (fun row => (.reason row, delta.reasons row)) ++
  AuditOutcome.all.map (fun row => (.audit row, delta.audits row)) ++
  ReloadOutcome.all.map (fun row => (.reload row, delta.reloads row)) ++
  (if delta.batches ≠ 0#64 then [(.latency (durationBucket delta.duration), delta.batches)] else []) ++
  (if delta.queueObserved then
    [(.queue (durationBucket delta.queueWait), 1#64), (.queueWaitNanoseconds, delta.queueWait)] else []) ++
  [(.failures, delta.failures), (.rows, delta.rows), (.durationNanoseconds, delta.duration)]

end BatchDelta

-- Where a thread is within a call of `Add`. It adds to one counter after the other, and for each of
-- them it reads the counter and then tries to swap the value that it has read.
inductive AddPoint
  | idle
  | adding (pending : List (Counter × Word))
  | swapping (counter : Counter) (delta current : Word) (pending : List (Counter × Word))
  deriving DecidableEq

inductive AddEvent
  | add (delta : BatchDelta)
  | go

namespace Counters

def zero : Counters := ⟨fun _ => 0#64, 0#64⟩

-- A call with an invalid delta fails and changes nothing. A swap that fails starts over.
def step : Threads.Program Counters AddPoint AddEvent
  | _, counters, .idle, .add delta =>
    some (counters, if delta.valid then .adding delta.updates else .idle)
  | _, counters, .adding [], .go => some (counters, .idle)
  | _, counters, .adding ((counter, delta) :: pending), .go =>
    if delta = 0#64 then some (counters, .adding pending)
    else some (counters, .swapping counter delta (counters.values counter) pending)
  | _, counters, .swapping counter delta current pending, .go =>
    let sum := current + delta
    let next := if sum < current then BitVec.allOnes 64 else sum
    if counters.values counter = current then
      some ({ counters with values := Function.update counters.values counter next }, .adding pending)
    else some (counters, .adding ((counter, delta) :: pending))
  | _, _, _, _ => none

def snapshot (counters : Counters) : Snapshot where
  decisions row := counters.values (.decision row)
  reasons row := counters.values (.reason row)
  audits row := counters.values (.audit row)
  reloads row := counters.values (.reload row)
  latencyBuckets row := counters.values (.latency row)
  queueBuckets row := counters.values (.queue row)
  batches := ((List.finRange 8).map fun row => counters.values (.latency row)).foldl saturatingSum 0#64
  failures := counters.values .failures
  rows := counters.values .rows
  durationNanoseconds := counters.values .durationNanoseconds
  queueWaitNanoseconds := counters.values .queueWaitNanoseconds
  queueObservations := ((List.finRange 8).map fun row => counters.values (.queue row)).foldl saturatingSum 0#64
  shutdownFailures := counters.values .shutdownFailures
  exportDrops := counters.values .exportDrops
  activeAdmissions := counters.activeAdmissions

end Counters
end NornRune.Telemetry
