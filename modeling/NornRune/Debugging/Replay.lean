import NornRune.Debugging.Retained

-- A session of the debugger: an execution, and boundaries from which it can be replayed.
namespace NornRune

structure CheckpointSet where
  cursors : List Nat
  interval : Nat
  maximum : Nat

namespace CheckpointSet

variable (c : CheckpointSet)

def index (target : Nat) : Nat :=
  BinarySearch.lowerBound c.cursors target c.cursors.length 0 c.cursors.length

def found (target : Nat) : Bool := c.cursors[c.index target]? == some target

def reset : CheckpointSet := { c with cursors := [] }

def record (cursor instructionCount : Nat) : CheckpointSet :=
  if cursor = 0 ∨ cursor ≠ instructionCount ∧ cursor % c.interval ≠ 0 then c
  else if c.found cursor then c
  else if c.cursors.length < c.maximum then
    { c with cursors := c.cursors.insertIdx (c.index cursor) cursor }
  -- The first checkpoint makes room for the new one, which is put at the end.
  else { c with cursors := c.cursors.tail ++ [cursor] }

def nearest (target : Nat) : Nat :=
  if c.found target then target
  else if c.index target = 0 then 0
  else c.cursors.getD (c.index target - 1) 0

def truncate (target : Nat) : CheckpointSet :=
  let index := if c.found target then c.index target + 1 else c.index target
  { c with cursors := c.cursors.take index }

end CheckpointSet

def RetainedExecutor.instructionCount (r : RetainedExecutor) : Nat :=
  r.session.elim 0 (·.program.opcodes.length)

-- The limits on breakpoints, watches and waiting commands do not matter here.
structure DebugConfig where
  checkpointInterval : Nat
  maxCheckpoints : Nat

def maxSessionItems : Nat := 4096

def DebugConfig.valid (config : DebugConfig) : Prop :=
  0 < config.checkpointInterval ∧ 0 < config.maxCheckpoints ∧
    config.maxCheckpoints ≤ maxSessionItems

instance (config : DebugConfig) : Decidable config.valid := inferInstanceAs (Decidable (_ ∧ _))

inductive DebugError
  | invalidSession
  | execution (e : RetainedError)

structure DebugSession where
  execution : RetainedExecutor
  checkpoints : CheckpointSet

-- Stepping over one instruction or node and continuing to a breakpoint are sequences of `advance`.
inductive DebugCommand
  | advance
  | restart
  | replay (target : Nat)

namespace DebugSession

def newSession (p : Program) (batch : Batch) (config : DebugConfig) :
    Except DebugError DebugSession :=
  if config.valid then
    match RetainedExecutor.zero.begin p batch with
    | (_, .error e) => .error (.execution e)
    | (execution, .ok ()) => .ok ⟨execution, [], config.checkpointInterval, config.maxCheckpoints⟩
  else .error .invalidSession

variable (k : Kernels)

def advanceOne (d : DebugSession) : Except Panic (DebugSession × Bool) := do
  match ← d.execution.step k with
  | (execution, .error _) => return ({ d with execution }, false)
  | (execution, .ok _) =>
    return (⟨execution, d.checkpoints.record execution.cursor execution.instructionCount⟩, true)

def restart (d : DebugSession) : Except Panic DebugSession := do
  match ← d.execution.restart with
  | (execution, .error _) => return { d with execution }
  | (execution, .ok ()) => return ⟨execution, d.checkpoints.reset⟩

-- Each round executes an instruction, so that there are no more rounds than the target.
def forward (target : Nat) : (rounds : Nat) → DebugSession → Except Panic (DebugSession × Bool)
  | 0, d => return (d, true)
  | rounds + 1, d => do
    if d.execution.cursor < target then
      match ← d.advanceOne k with
      | (d, false) => return (d, false)
      | (d, true) => forward target rounds d
    else return (d, true)

def replay (d : DebugSession) (target : Nat) : Except Panic (DebugSession × Option Nat) := do
  if d.execution.instructionCount < target then return (d, none)
  else if target < d.execution.cursor then
    let origin := d.checkpoints.nearest target
    match ← d.execution.rewind origin with
    | (execution, .error _) => return ({ d with execution }, none)
    | (execution, .ok ()) =>
      let (d, done) ← forward k target target ⟨execution, d.checkpoints.truncate target⟩
      return (d, if done then some origin else none)
  else
    let origin := d.execution.cursor
    let (d, done) ← forward k target target d
    return (d, if done then some origin else none)

def perform (d : DebugSession) : DebugCommand → Except Panic DebugSession
  | .advance => do return (← d.advanceOne k).1
  | .restart => d.restart
  | .replay target => do return (← d.replay k target).1

def run (d : DebugSession) (commands : List DebugCommand) : Except Panic DebugSession :=
  commands.foldlM (perform k) d

end DebugSession
end NornRune
