import NornRune.Compile.Instructions

open Bitplane

-- The order of the instructions: operands come first, and instructions with the same opcode are run
-- together as far as possible.
namespace NornRune

def validateScheduleColumns (t : InstructionTable) : Except CompileError Unit :=
  if t.rows.all (·.opcode.valid) &&
      t.nodeMap.all (·.all fun id => id != 0 && decide (id ≤ t.rows.length)) then .ok ()
  else .error .invalidGeneratedProgram

def buildScheduleUsers (rows : List InstructionRow) : Except CompileError (List (List Nat)) :=
  if maxUint32 < (rows.map (·.operands.length)).sum then .error .programTooLarge
  else if !rows.all (·.operands.all fun id => id != 0 && decide (id ≤ rows.length)) then
    .error .invalidGeneratedProgram
  else .ok ((List.range rows.length).map fun dependency =>
    rows.zipIdx.flatMap fun (row, consumer) =>
      (row.operands.filter (· == dependency + 1)).map fun _ => consumer)

structure OpcodeRun where
  opcode : Opcode
  start : Nat
  count : Nat
  deriving DecidableEq, Repr

def scheduleOpcodes : List Opcode := [.equal, .notEqual, .in, .exists, .less, .lessEqual, .greater,
  .greaterEqual, .evidence, .all, .any, .not, .boolean, .defined]

-- The run that is being filled: its opcode, where it starts, and the first word that can still have a
-- ready instruction.
structure RunState where
  opcode : Opcode
  start : Nat
  cursor : Nat

-- Which instructions are ready is kept in one bitplane for each opcode.
structure Schedule where
  indegree : List Nat
  readyBits : Opcode → List Word
  readyCount : Opcode → Nat
  order : List Nat
  runs : List OpcodeRun
  current : Option RunState

namespace Schedule

variable (s : Schedule)

def setScheduleReady (opcode : Opcode) (id : Nat) : Except CompileError Schedule :=
  let bits := s.readyBits opcode
  if !opcode.valid ∨ bits.length ≤ id / 64 ∨ bit bits id then .error .invalidGeneratedProgram
  else .ok { s with
    readyBits := Function.update s.readyBits opcode (setBit bits id)
    readyCount := Function.update s.readyCount opcode (s.readyCount opcode + 1) }

def popScheduleReady (run : RunState) : Option Nat :=
  lowest (s.readyBits run.opcode) run.cursor

def releaseUser (rows : List InstructionRow) (s : Schedule) (user : Nat) :
    Except CompileError Schedule :=
  let degree := s.indegree.getD user 0
  if degree = 0 then .error .invalidGeneratedProgram
  else
    let s := { s with indegree := s.indegree.set user (degree - 1) }
    if degree - 1 = 0 then
      s.setScheduleReady ((rows[user]?.map (·.opcode)).getD .invalid) user
    else .ok s

def emit (rows : List InstructionRow) (users : List (List Nat)) (run : RunState) (id : Nat) :
    Except CompileError Schedule :=
  (users.getD id []).foldlM (releaseUser rows) { s with
    readyBits := Function.update s.readyBits run.opcode (clearBit (s.readyBits run.opcode) id)
    readyCount := Function.update s.readyCount run.opcode (s.readyCount run.opcode - 1)
    order := s.order ++ [id]
    current := some { run with cursor := id / 64 } }

def step (rows : List InstructionRow) (users : List (List Nat)) (s : Schedule) :
    Schedule ⊕ Except CompileError Schedule :=
  match s.current with
  | none =>
    if rows.length ≤ s.order.length then .inr (.ok s)
    else match scheduleOpcodes.find? fun opcode => s.readyCount opcode != 0 with
      | none => .inr (.error .invalidDocument)
      | some opcode => .inl { s with current := some ⟨opcode, s.order.length, 0⟩ }
  | some run =>
    if s.readyCount run.opcode = 0 then
      .inl { s with
        runs := s.runs ++ [⟨run.opcode, run.start, s.order.length - run.start⟩]
        current := none }
    else match s.popScheduleReady run with
      | none => .inr (.error .invalidGeneratedProgram)
      | some id =>
        if rows.length ≤ id then .inr (.error .invalidGeneratedProgram)
        else match s.emit rows users run id with
          | .error e => .inr (.error e)
          | .ok s => .inl s

def initial (rows : List InstructionRow) : Except CompileError Schedule :=
  let indegree := rows.map (·.operands.length)
  rows.zipIdx.foldlM (fun s (row, id) =>
    if row.operands.length = 0 then s.setScheduleReady row.opcode id else .ok s) {
    indegree
    readyBits := fun _ => List.replicate (wordCount rows.length) 0#64
    readyCount := fun _ => 0
    order := []
    runs := []
    current := none
  }

-- Each instruction takes one round, and so does the start and the end of each run.
def build (rows : List InstructionRow) : Except CompileError Schedule := do
  let users ← buildScheduleUsers rows
  let s ← initial rows
  Loop.run (.error .programTooLarge) (step rows users) (3 * rows.length + 2) s

end Schedule

def oldToNew (order : List Nat) (id : Nat) : Nat :=
  if id - 1 ∈ order then order.idxOf (id - 1) + 1 else 0

def scheduledOperand (n : Nat) (order : List Nat) (newRow id : Nat) : Except CompileError Nat :=
  if id = 0 ∨ n < id ∨ oldToNew order id = 0 ∨ newRow + 1 ≤ oldToNew order id then
    .error .invalidGeneratedProgram
  else .ok (oldToNew order id)

def permuteRow (rows : List InstructionRow) (order : List Nat) (newRow oldRow : Nat) :
    Except CompileError InstructionRow :=
  match rows[oldRow]? with
  | none => .error .invalidGeneratedProgram
  | some row => do
    return { row with operands := ← row.operands.mapM (scheduledOperand rows.length order newRow) }

def permuteScheduledInstructions (t : InstructionTable) (order : List Nat) :
    Except CompileError InstructionTable := do
  let rows ← order.zipIdx.mapM fun (oldRow, newRow) => permuteRow t.rows order newRow oldRow
  if !t.nodeMap.all (·.all fun id => id != 0 && decide (id ≤ t.rows.length)) then
    .error .invalidGeneratedProgram
  else .ok ⟨rows, t.nodeMap.map (·.map (oldToNew order))⟩

structure ScheduledTable extends InstructionTable where
  runs : List OpcodeRun

def scheduleInstructions (t : InstructionTable) : Except CompileError ScheduledTable :=
  if maxUint32 ≤ t.rows.length then .error .invalidGeneratedProgram
  else do
    validateScheduleColumns t
    if t.rows.length = 0 then return { t with runs := [] }
    else do
      let s ← Schedule.build t.rows
      let t ← permuteScheduledInstructions t s.order
      return { t with runs := s.runs }

end NornRune
