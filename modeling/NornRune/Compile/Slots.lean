import NornRune.Compile.Schedule

open Bitplane

-- The slots of the scratch in which the values of instructions are kept while they are needed.
namespace NornRune

def knownRootFlags : RootFlags := .applicability ||| .assertion ||| .evidence

def validateSlotRow (row : InstructionRow) (i : Nat) : Bool :=
  row.rootFlags &&& ~~~knownRootFlags == 0#8 &&
  row.operands.all fun operand => operand != 0 && decide (operand < i + 1)

def validateSlotProgram (t : InstructionTable) : Except CompileError Unit :=
  if maxUint32 < t.rows.length then .error .programTooLarge
  else do
    validateScheduleColumns t
    if t.rows.zipIdx.all (fun (row, i) => validateSlotRow row i) then .ok ()
    else .error .invalidGeneratedProgram

def operandUses (rows : List InstructionRow) : List Nat :=
  rows.zipIdx.foldl (fun uses (row, consumer) =>
    row.operands.foldl (fun uses operand => uses.set (operand - 1) consumer) uses)
    (List.range rows.length)

def computeLastUses (rows : List InstructionRow) : List Nat :=
  (operandUses rows).zipIdx.map fun (use, i) =>
    if (rows[i]?.map (·.rootFlags)).getD 0#8 != 0#8 then rows.length else use

-- Which slots are free, from which word on to look for one, and how many slots there are.
structure SlotPool where
  free : List Word
  firstFreeWord : Nat
  peak : Nat

namespace SlotPool

variable (pool : SlotPool)

def markSlotFree (slot : Nat) : Except CompileError SlotPool :=
  if slot = 0 ∨ pool.free.length ≤ (slot - 1) / 64 ∨ bit pool.free (slot - 1) then
    .error .invalidGeneratedProgram
  else .ok { pool with
    free := setBit pool.free (slot - 1)
    firstFreeWord := min ((slot - 1) / 64) pool.firstFreeWord }

def takeLowestFreeSlot : Option (SlotPool × Nat) :=
  (lowest pool.free pool.firstFreeWord).map fun i =>
    let free := clearBit pool.free i
    ({ pool with
      free
      firstFreeWord := if free.getD (i / 64) 0#64 = 0#64 then i / 64 + 1 else i / 64 }, i + 1)

def take : Except CompileError (SlotPool × Nat) :=
  match pool.takeLowestFreeSlot with
  | some (pool, slot) => .ok (pool, slot)
  | none =>
    -- The search has visited all of the words.
    if pool.peak = maxUint32 then .error .programTooLarge
    else .ok ({ pool with firstFreeWord := pool.free.length, peak := pool.peak + 1 }, pool.peak + 1)

end SlotPool

def releasedAt (lastUses : List Nat) (live : List Bool) (row : Nat) : List Nat :=
  ((List.range row).filter fun i => live.getD i false && lastUses.getD i 0 == row).reverse

def allocateSlot (lastUses : List Nat) (live : List Bool) (s : SlotPool × List Nat) (row : Nat) :
    Except CompileError (SlotPool × List Nat) := do
  let (pool, slots) := s
  let pool ← (releasedAt lastUses live row).foldlM
    (fun pool i => pool.markSlotFree (slots.getD i 0)) pool
  if !live.getD row false then .ok (pool, slots ++ [0])
  else do
    let (pool, slot) ← pool.take
    let pool ← if lastUses.getD row 0 = row then pool.markSlotFree slot else .ok pool
    return (pool, slots ++ [slot])

def allocateSlots (lastUses : List Nat) (live : List Bool) : Except CompileError (List Nat × Nat) :=
  let n := lastUses.length
  if live.length ≠ n then .error .invalidGeneratedProgram
  else if !(List.range n).all (fun i => !live.getD i false ||
      (decide (i ≤ lastUses.getD i 0) && decide (lastUses.getD i 0 ≤ n))) then
    .error .invalidGeneratedProgram
  else do
    let words := wordCount n
    let (pool, slots) ← (List.range n).foldlM (allocateSlot lastUses live)
      (⟨List.replicate words 0#64, words, 0⟩, [])
    return (slots, pool.peak)

-- The rows whose reasons a root can report: the roots and the operands of such rows.
def computeReasonLive (rows : List InstructionRow) : List Bool :=
  (List.range rows.length).reverse.foldl (fun live i =>
    match rows[i]? with
    | none => live
    | some row =>
      if live.getD i false && (row.opcode == .all || row.opcode == .any || row.opcode == .not) then
        row.operands.foldl (fun live operand => live.set (operand - 1) true) live
      else live) (rows.map (·.rootFlags != 0#8))

structure Slots where
  truthSlots : List Nat
  reasonSlots : List Nat
  truthSlotCount : Nat
  reasonSlotCount : Nat

-- Slots are used again, or every row keeps its own.
inductive SlotMode
  | reuse
  | retainAll
  deriving DecidableEq, Repr

def retainSlot (live : List Bool) (s : List Nat × Nat) (row : Nat) :
    Except CompileError (List Nat × Nat) :=
  if !live.getD row false then .ok (s.1 ++ [0], s.2)
  else if s.2 = maxUint32 then .error .programTooLarge
  else .ok (s.1 ++ [s.2 + 1], s.2 + 1)

def allocateSlotsIn (mode : SlotMode) (lastUses : List Nat) (live : List Bool) :
    Except CompileError (List Nat × Nat) :=
  match mode with
  | .reuse => allocateSlots lastUses live
  | .retainAll =>
    if live.length ≠ lastUses.length then .error .invalidGeneratedProgram
    else (List.range lastUses.length).foldlM (retainSlot live) ([], 0)

def assignSlotsIn (mode : SlotMode) (t : InstructionTable) : Except CompileError Slots := do
  validateSlotProgram t
  let lastUses := computeLastUses t.rows
  let (truthSlots, truthSlotCount) ←
    allocateSlotsIn mode lastUses (List.replicate t.rows.length true)
  let (reasonSlots, reasonSlotCount) ← allocateSlotsIn mode lastUses (computeReasonLive t.rows)
  return { truthSlots, reasonSlots, truthSlotCount, reasonSlotCount }

def assignSlots (t : InstructionTable) : Except CompileError Slots :=
  assignSlotsIn .reuse t

end NornRune
