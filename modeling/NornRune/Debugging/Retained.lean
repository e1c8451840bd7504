import NornRune.Execution.Execute

open Bitplane

-- Stepping through one execution, instruction by instruction, forward and back.
namespace NornRune

-- A copy of a program in which each instruction has slots of its own, so that all results stay
-- available.
def Program.retained (source : Program) : Program :=
  let n := source.opcodes.length
  { source with
    truthSlots := List.range' 1 n
    reasonSlots := List.range' 1 n
    truthSlotCount := n
    reasonSlotCount := n }

inductive RetainedError
  | invalidRetainedExecution
  | fault (f : Fault)
  deriving DecidableEq, Repr

structure RetainedSession where
  program : Program
  batch : Batch
  next : Nat
  complete : Bool

namespace RetainedSession

-- The copy of the program is a part of the retained executor. It has one and the same address in all
-- executions.
def heap (s : RetainedSession) : Heap := fun _ => s.program

def address : Nat := 0

end RetainedSession

structure RetainedExecutor where
  result : ResultBatch
  executor : Executor
  session : Option RetainedSession

namespace RetainedExecutor

def zero : RetainedExecutor where
  result := .empty
  executor := .zero
  session := none

-- Validates and prepares an execution without running the schedule. Only the binding of the executor
-- to its program is dropped.
def begin (r : RetainedExecutor) (source : Program) (batch : Batch) :
    RetainedExecutor × Except RetainedError Unit :=
  let n := source.opcodes.length
  if n = 0 ∨ maxUint32 < n then (r, .error .invalidRetainedExecution)
  else
    let program := source.retained
    match Executor.prepareExecution (fun _ => program) { r.executor with program := none } r.result
        RetainedSession.address batch .scalar with
    | (executor, result, .error f) => (⟨result, executor, none⟩, .error (.fault f))
    | (executor, result, .ok ()) =>
      (⟨result, executor, some ⟨program, batch, 0, false⟩⟩, .ok ())

def finish (r : RetainedExecutor) (s : RetainedSession) : Except Panic RetainedExecutor := do
  let (executor, result) ← Executor.finalizeResults s.heap r.executor r.result
    RetainedSession.address s.batch
  return ⟨result, executor, some { s with complete := true }⟩

def step (k : Kernels) (r : RetainedExecutor) :
    Except Panic (RetainedExecutor × Except RetainedError (Nat × Bool)) :=
  match r.session with
  | none => .ok (r, .error .invalidRetainedExecution)
  | some s =>
    if s.complete ∨ s.program.opcodes.length ≤ s.next then
      .ok (r, .error .invalidRetainedExecution)
    else do
      let _ ← fetch s.program.instructionNodes s.next
      let executor ← Executor.executeInstructionMode k s.heap r.executor RetainedSession.address
        s.batch .scalar s.next
      let s := { s with next := s.next + 1 }
      if s.next = s.program.opcodes.length then
        return (← finish { r with executor, session := some s } s, .ok (s.next, true))
      else return ({ r with executor, session := some s }, .ok (s.next, false))

-- Goes back to an instruction that was executed before. The slots of later instructions keep their
-- contents until they are executed again.
def rewind (r : RetainedExecutor) (cursor : Nat) :
    Except Panic (RetainedExecutor × Except RetainedError Unit) :=
  match r.session with
  | none => .ok (r, .error .invalidRetainedExecution)
  | some s =>
    if s.next < cursor ∨ s.program.opcodes.length < cursor then
      .ok (r, .error .invalidRetainedExecution)
    else match r.result.reset s.batch.rows with
      | none => .ok (r, .error (.fault .batchTooLarge))
      | some result =>
        let s := { s with next := cursor, complete := false }
        let r := { r with result, session := some s }
        if cursor = s.program.opcodes.length then do return (← r.finish s, .ok ())
        else .ok (r, .ok ())

def restart (r : RetainedExecutor) : Except Panic (RetainedExecutor × Except RetainedError Unit) :=
  r.rewind 0

def shows (s : RetainedSession) (instruction row : Nat) : Bool :=
  instruction != 0 && decide (instruction ≤ s.next) &&
  decide (instruction ≤ s.program.opcodes.length) && decide (row < s.batch.rows)

def instructionTruth (r : RetainedExecutor) (instruction row : Nat) : Except Panic (Option Truth) :=
  match r.session with
  | none => .ok none
  | some s =>
    if shows s instruction row then do
      return some (← r.executor.instructionTruth s.heap s.program row s.batch.rows instruction)
    else .ok none

def instructionReasons (r : RetainedExecutor) (instruction row : Nat) :
    Except Panic (Option ReasonMask) :=
  match r.session with
  | none => .ok none
  | some s =>
    if shows s instruction row then do
      return some (← r.executor.instructionReasons s.heap s.program row s.batch.rows instruction)
    else .ok none

def complete (r : RetainedExecutor) : Bool :=
  r.session.elim false (·.complete)

def resultBatch (r : RetainedExecutor) : Option ResultBatch :=
  if r.complete then some r.result else none

def cursor (r : RetainedExecutor) : Nat :=
  r.session.elim 0 (·.next)

inductive Move
  | step
  | rewind (cursor : Nat)
  | restart

def move (k : Kernels) (r : RetainedExecutor) : Move → Except Panic RetainedExecutor
  | .step => do return (← r.step k).1
  | .rewind cursor => do return (← r.rewind cursor).1
  | .restart => do return (← r.restart).1

def moves (k : Kernels) (r : RetainedExecutor) (ms : List Move) : Except Panic RetainedExecutor :=
  ms.foldlM (move k) r

inductive Call
  | begin (source : Program) (batch : Batch)
  | move (m : Move)

def call (k : Kernels) (r : RetainedExecutor) : Call → Except Panic RetainedExecutor
  | .begin source batch => .ok (r.begin source batch).1
  | .move m => r.move k m

def calls (k : Kernels) (r : RetainedExecutor) (cs : List Call) : Except Panic RetainedExecutor :=
  cs.foldlM (call k) r

-- All that a retained executor shows: how far it is, the results if there are any, and the truth and
-- the reasons of each instruction on each row.
structure View where
  cursor : Nat
  result : Option ResultBatch
  truth : Nat → Nat → Except Panic (Option Truth)
  reasons : Nat → Nat → Except Panic (Option ReasonMask)

def view (r : RetainedExecutor) : View where
  cursor := r.cursor
  result := r.resultBatch
  truth := r.instructionTruth
  reasons := r.instructionReasons

end RetainedExecutor
end NornRune
