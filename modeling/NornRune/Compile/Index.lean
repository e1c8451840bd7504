import NornRune.Compile.Tables
import NornRune.Lib.Ragged

open Bitplane

-- The indexes of a program: the columns of its fields, the selectors that rule out requirements, and
-- the symbols that are compared often.
namespace NornRune

-- A restriction of a requirement, given by its row: the field has one of the values if it is set.
structure Constraint where
  row : Nat
  field : Nat
  values : List Nat
  deriving DecidableEq, Repr

def FieldIndex.build (kinds : List ValueKind) : Except IndexError FieldIndex :=
  if h : maxUint32 < kinds.length then .error .indexTooLarge
  else if !kinds.all ValueKind.valid then .error .invalidSchema
  else .ok {
    kinds
    columns := (List.range kinds.length).map fun i => (kinds.take i).count (kinds.getD i .invalid)
    counts := fun kind => kinds.count kind
    kinds_le := Nat.le_of_not_lt h
  }

namespace Policy

def validConstraint (requirementCount : Nat) (c : Constraint) : Bool :=
  decide (c.row < requirementCount) && c.field != 0 && c.values.length != 0 && c.values.all (· != 0)

def validateConstraints (requirementCount : Nat) (cs : List Constraint) : Except IndexError Unit :=
  if maxUint32 < cs.length ∨ maxUint32 < (cs.map (·.values.length)).sum ∨ maxInt < requirementCount
  then .error .indexTooLarge
  else if !cs.all (validConstraint requirementCount) then .error .invalidPolicy
  else .ok ()

def constraintValues (cs : List Constraint) (field : Nat) : List Nat :=
  Sorted.sortUnique ((cs.filter (·.field == field)).flatMap (·.values))

def wildcardMask (allMask : List Word) (cs : List Constraint) (field : Nat) : List Word :=
  (cs.filter (·.field == field)).foldl (fun mask c => clearBit mask c.row) allMask

def valueMask (words : Nat) (cs : List Constraint) (field value : Nat) : List Word :=
  (cs.filter fun c => c.field == field && c.values.contains value).foldl
    (fun mask c => setBit mask c.row) (List.replicate words 0#64)

def build (requirementCount : Nat) (cs : List Constraint) : Except IndexError Policy := do
  validateConstraints requirementCount cs
  let fields := Sorted.sortUnique (cs.map (·.field))
  let words := Bitplane.wordCount requirementCount
  if maxInt < fields.length * words ∨ maxInt < (cs.map (·.values.length)).sum * words then
    .error .indexTooLarge
  else if !fields.all fun field => decide ((cs.filter (·.field == field)).map (·.row)).Nodup then
    .error .invalidPolicy
  else
    let values := fields.map (constraintValues cs)
    let allMask := (List.range words).map (allMaskWord requirementCount words)
    .ok {
      fieldIDs := fields
      fieldValueStarts := Ragged.starts values
      fieldValueCounts := values.map List.length
      wildcardMasks := fields.flatMap (wildcardMask allMask cs)
      values := values.flatten
      valueMasks := fields.flatMap fun field => (constraintValues cs field).flatMap fun value =>
        List.zipWith (· ||| ·) (valueMask words cs field value) (wildcardMask allMask cs field)
      allMask
      requirementCount
      wordCount := words
    }

end Policy

def compileIndexError : IndexError → CompileError
  | .indexTooLarge => .programTooLarge
  | _ => .invalidGeneratedProgram

def liftIndexError {α : Type} : Except IndexError α → Except CompileError α
  | .ok a => .ok a
  | .error e => .error (compileIndexError e)

namespace Constants

variable (c : Constants)

def programSymbolCount : Nat := c.symbols.starts.length

def selectorFieldKind (field : Nat) : Except CompileError ValueKind :=
  if field = 0 then .error .invalidGeneratedProgram
  else match c.fieldKinds[field - 1]? with
    | none => .error .invalidGeneratedProgram
    | some kind => if kind.valid then .ok kind else .error .invalidGeneratedProgram

def selectorSymbol (value : Nat) : Except CompileError Nat :=
  if value = 0 ∨ c.values.kinds[value - 1]? ≠ some .symbol ∨ c.values.refs.length < value then
    .error .invalidGeneratedProgram
  else
    let symbol := c.values.refs.getD (value - 1) 0
    if symbol = 0 ∨ c.programSymbolCount < symbol then .error .invalidGeneratedProgram
    else .ok symbol

def selectorValues (row : InstructionRow) : Except CompileError (List Nat) :=
  match row.opcode with
  | .equal => do return [← c.selectorSymbol row.value]
  | .in => row.list.mapM c.selectorSymbol
  | _ => .ok []

end Constants

-- What is known about a field on the way through the conjuncts of a requirement: nothing, that one
-- comparison restricts it, or that several do. Only a single restriction is indexed.
inductive IndexField
  | unseen
  | single (values : List Nat)
  | ambiguous
  deriving DecidableEq, Repr

structure IndexWalk where
  visited : List Bool
  fields : List IndexField
  valueLength : Nat

namespace IndexWalk

variable (w : IndexWalk)

def appendSelectorValues (c : Constants) (row : InstructionRow) : Except CompileError IndexWalk :=
  let i := row.field - 1
  match w.fields.getD i .ambiguous with
  | .unseen =>
    if maxUint32 < w.valueLength then .error .programTooLarge
    else do
      let values ← c.selectorValues row
      if values = [] then .error .invalidGeneratedProgram
      else if maxUint32 < w.valueLength + values.length then .error .programTooLarge
      else return { w with
        fields := w.fields.set i (.single values)
        valueLength := w.valueLength + values.length }
  | _ => do
    let _ ← c.selectorValues row
    return { w with fields := w.fields.set i .ambiguous }

-- Visits one instruction. Only the members of a conjunction and comparisons with symbols matter.
def visit (c : Constants) (row : InstructionRow) (i : Nat) :
    Except CompileError (IndexWalk × List Nat) :=
  let w := { w with visited := w.visited.set i true }
  match row.opcode with
  | .all => .ok (w, row.operands)
  | .equal | .in => do
    let kind ← c.selectorFieldKind row.field
    if kind ≠ .symbol then return (w, [])
    else return (← w.appendSelectorValues c row, [])
  | _ => .ok (w, [])

def step (c : Constants) (rows : List InstructionRow) :
    IndexWalk × List Nat → IndexWalk × List Nat ⊕ Except CompileError IndexWalk
  | (w, []) => .inr (.ok w)
  | (w, id :: stack) =>
    if w.visited.getD (id - 1) false then .inl (w, stack)
    else match rows[id - 1]? with
      | none => .inr (.error .invalidGeneratedProgram)
      | some row =>
        match w.visit c row (id - 1) with
        | .error e => .inr (.error e)
        | .ok (w, operands) => .inl (w, operands ++ stack)

end IndexWalk

def requirementConstraints (c : Constants) (rows : List InstructionRow) (requirementRow root : Nat) :
    Except CompileError (List Constraint) := do
  let w ← Loop.run (.error .programTooLarge) (IndexWalk.step c rows)
    ((rows.map (·.operands.length)).sum + 2)
    (⟨List.replicate rows.length false, List.replicate c.fieldKinds.length .unseen, 0⟩, [root])
  return w.fields.zipIdx.filterMap fun (field, i) =>
    match field with
    | .single values => some ⟨requirementRow, i + 1, values⟩
    | _ => none

def validateApplicabilityProgram (c : Constants) (t : InstructionTable) (roots : List Nat) :
    Except CompileError Unit := do
  validateSlotProgram t
  if maxUint32 < roots.length ∨ c.values.kinds.length ≠ c.values.refs.length ∨
      maxUint32 < c.fieldKinds.length ∨ maxUint32 < c.values.kinds.length then
    .error .invalidGeneratedProgram
  else if !roots.all (fun root => root != 0 && (t.rows[root - 1]?).any
      fun row => row.rootFlags.has .applicability) then .error .invalidGeneratedProgram
  else .ok ()

def extractApplicabilityConstraints (c : Constants) (t : InstructionTable) (roots : List Nat) :
    Except CompileError (List Constraint) := do
  validateApplicabilityProgram c t roots
  let constraints ← roots.zipIdx.mapM fun (root, row) => requirementConstraints c t.rows row root
  if maxUint32 < constraints.flatten.length ∨
      maxUint32 < (constraints.flatten.map (·.values.length)).sum then .error .programTooLarge
  else .ok constraints.flatten

def factIndexMinUses : Nat := 96

def factUses (c : Constants) (row : InstructionRow) : Except CompileError (List Nat) :=
  match row.opcode with
  | .equal | .notEqual | .in =>
    if row.field = 0 ∨ c.fieldKinds.length < row.field then .error .invalidGeneratedProgram
    else if c.fieldKinds.getD (row.field - 1) .invalid ≠ .symbol then .ok []
    else if row.opcode = .in then row.list.mapM c.selectorSymbol
    else do return [← c.selectorSymbol row.value]
  | _ => .ok []

def lowerFactIndexSpec (c : Constants) (fieldIndex : FieldIndex) (rows : List InstructionRow) :
    Except CompileError FactSpec := do
  let uses ← rows.mapM fun row => do return (row.field, ← factUses c row)
  -- All the symbols that a field is compared with, once for each comparison.
  let fieldUses (field : Nat) : List Nat := (uses.filter (·.1 == field)).flatMap (·.2)
  let fields := (List.range' 1 c.fieldKinds.length).filter fun field =>
    decide (factIndexMinUses ≤ (fieldUses field).length)
  if (List.range' 1 c.fieldKinds.length).any (fun field => decide (maxUint32 < (fieldUses field).length)) ∨
      maxUint32 < (fields.map fun field => (fieldUses field).length).sum then .error .programTooLarge
  else
    let values := fields.map fun field => Sorted.sortUnique (fieldUses field)
    let spec : FactSpec := {
      fieldIDs := fields
      columns := fields.map fun field => ((fieldIndex.lookup field).map (·.2)).getD 0
      valueStarts := Ragged.starts values
      valueCounts := values.map List.length
      useCounts := fields.map fun field => (fieldUses field).length
      values := values.flatten
    }
    if !fields.all (fun field => (fieldIndex.lookup field).any (·.1 == .symbol)) then
      .error .invalidGeneratedProgram
    else if !spec.valid fieldIndex c.programSymbolCount then .error .invalidGeneratedProgram
    else .ok spec

structure Indexes where
  fieldIndex : FieldIndex
  applicabilityIndex : Policy
  factIndexSpec : FactSpec

def lowerIndexes (c : Constants) (t : InstructionTable) (requirementRoots : List Nat) :
    Except CompileError Indexes := do
  let constraints ← extractApplicabilityConstraints c t requirementRoots
  let fieldIndex ← liftIndexError (FieldIndex.build c.fieldKinds)
  let applicabilityIndex ← liftIndexError (Policy.build requirementRoots.length constraints)
  let factIndexSpec ← lowerFactIndexSpec c fieldIndex t.rows
  return { fieldIndex, applicabilityIndex, factIndexSpec }

end NornRune
