import NornRune.Execution.Evidence

open Bitplane

namespace NornRune

-- One row mask per indexed value. The specification belongs to the program at the given address.
structure FactIndex where
  spec : Option Nat
  valueMasks : List Word
  rows : Nat
  wordCount : Nat

structure SymbolColumns where
  values : List Nat
  rows : Nat
  count : Nat
  programSymbolCount : Nat
  rowOffset : Nat
  rowStride : Nat

-- Maps a symbol to the row of its mask plus one. It is kept between builds and has to be all zero
-- whenever no field is being scanned.
structure FactBuilder where
  valueRows : Slice Nat

def factMaskLen (rows valueCount : Nat) : Option Nat :=
  let elements := valueCount * Bitplane.wordCount rows
  if maxInt / 8 < elements then none else some elements

def factColumnLen (rows columns : Nat) : Option Nat :=
  let elements := rows * columns
  if maxInt / 4 < elements then none else some elements

namespace FactBuilder

def mark (valueRows : Slice Nat) (spec : FactSpec) (valueRow : Nat) : Slice Nat :=
  valueRows.set (spec.values.getD valueRow 0) (valueRow + 1)

def unmark (valueRows : Slice Nat) (value : Nat) : Slice Nat :=
  valueRows.set value 0

def scanRow (valueRows : Slice Nat) (words : Nat) (values : List Nat) (masks : List Word)
    (row : Nat) : List Word :=
  let value := values.getD row 0
  if valueRows.len ≤ value then masks
  else
    let valueRow := valueRows.get 0 value
    if valueRow = 0 then masks
    else masks.modify ((valueRow - 1) * words + row / 64) (· ||| rowMask row)

def buildField (spec : FactSpec) (columns : SymbolColumns) (stride : Nat)
    (s : Slice Nat × List Word) (fieldRow : Nat) : Slice Nat × List Word :=
  let start := spec.valueStarts.getD fieldRow 0
  let count := spec.valueCounts.getD fieldRow 0
  let marked := (List.range' start count).foldl (mark · spec) s.1
  let values := Region.read columns.values
    (spec.columns.getD fieldRow 0 * stride + columns.rowOffset) columns.rows
  let masks := (List.range columns.rows).foldl
    (scanRow marked (Bitplane.wordCount columns.rows) values) s.2
  ((spec.fieldValues fieldRow).foldl unmark marked, masks)

-- A failed build changes neither the builder nor the index.
def build (b : FactBuilder) (heap : Heap) (addr : Nat) (columns : SymbolColumns) :
    Except IndexError (FactBuilder × FactIndex) :=
  let spec := (heap addr).factIndexSpec
  let stride := if columns.rowStride = 0 then columns.rows else columns.rowStride
  if columns.rowStride = 0 ∧ columns.rowOffset ≠ 0 then .error .invalidFactIndex
  else if stride < columns.rowOffset + columns.rows then .error .invalidFactIndex
  else match factColumnLen stride columns.count with
    | none => .error .indexTooLarge
    | some columnLen =>
      if columns.values.length ≠ columnLen ∨
          !spec.validShape columns.count columns.programSymbolCount then .error .invalidFactIndex
      else match factMaskLen columns.rows spec.values.length with
        | none => .error .indexTooLarge
        | some maskLen =>
          if maxInt / 4 < columns.programSymbolCount + 1 then .error .indexTooLarge
          else
            let valueRows := b.valueRows.resize 0 (columns.programSymbolCount + 1)
            let (valueRows, masks) := (List.range spec.columns.length).foldl
              (buildField spec columns stride) (valueRows, List.replicate maskLen 0#64)
            .ok (⟨valueRows⟩, {
              spec := some addr
              valueMasks := masks
              rows := columns.rows
              wordCount := Bitplane.wordCount columns.rows
            })

end FactBuilder

namespace FactIndex

def empty : FactIndex := ⟨none, [], 0, 0⟩

def reset (_ : FactIndex) : FactIndex := empty

-- The row mask of a value of an indexed field. An indexed field with an unknown value has no mask.
def lookup (index : FactIndex) (heap : Heap) (field value : Nat) : Option (Option (List Word)) := do
  let spec := (heap (← index.spec)).factIndexSpec
  let fieldRow ← BinarySearch.search spec.fieldIDs field
  return (BinarySearch.search (spec.fieldValues fieldRow) value).map fun relative =>
    Region.read index.valueMasks ((spec.valueStarts.getD fieldRow 0 + relative) * index.wordCount)
      index.wordCount

end FactIndex

def factIndexQuerySymbol (p : Program) (id : Nat) : Option Nat :=
  if id = 0 then none
  else match p.valueKinds[id - 1]?, p.valueRefs[id - 1]? with
    | some .symbol, some symbol =>
      if symbol = 0 ∨ p.programSymbolCount < symbol ∨ (p.symbol symbol).isNone then none
      else some symbol
    | _, _ => none

def factSpecContains (p : Program) (values : List Nat) (id : Nat) : Bool :=
  match factIndexQuerySymbol p id with
  | some symbol => (BinarySearch.search values symbol).isSome
  | none => false

-- Every value that is looked up in a selected field has a mask of its own.
def validFactIndexQueries (p : Program) : Bool :=
  let spec := p.factIndexSpec
  spec.fieldIDs.length == 0 ||
  (spec.values.all (fun symbol => (p.symbol symbol).isSome) &&
    (List.range p.opcodes.length).all fun row =>
      match BinarySearch.search spec.fieldIDs (p.fields.getD row 0) with
      | none => true
      | some fieldRow =>
        let values := spec.fieldValues fieldRow
        match p.opcodes.getD row .invalid with
        | .equal | .notEqual => factSpecContains p values (p.values.getD row 0)
        | .in =>
          p.values.getD row 0 == 0 &&
          (Region.read p.listValues (p.listStarts.getD row 0) (p.listCounts.getD row 0)).all
            (factSpecContains p values)
        | _ => true)

def orMask (k : Kernels) (mode : ExecutionMode) (words : Nat) (dst : List Word) :
    Option (List Word) → List Word
  | none => dst
  | some mask =>
    if useSIMDWords k mode words then k.orWords dst mask else List.zipWith (· ||| ·) dst mask

-- Evaluates a predicate on an indexed field from the masks of its values. Other predicates are left
-- to the other evaluators.
def evalPredicateIndex (k : Kernels) (index : FactIndex) (dst : Planes) (reasons : List Word)
    (batch : Batch) (heap : Heap) (addr instruction : Nat) (mode : ExecutionMode) :
    Except Panic (Option Leaf) := do
  let p := heap addr
  let row := instruction - 1
  let opcode := p.opcodes.getD row .invalid
  if !useFactIndex mode batch.rows then return none
  if opcode ≠ .equal ∧ opcode ≠ .notEqual ∧ opcode ≠ .in then return none
  let field := p.fields.getD row 0
  let (kind, _) ← predicateField p field
  if kind ≠ .symbol then return none
  if (index.lookup heap field 0).isNone then return none
  let operand ← predicateOperand p row opcode kind
  let leaf ← resetLeafOutputs dst reasons batch.rows
  let words := wordCount batch.rows
  let maskOf (value : PredicateValue) := (index.lookup heap field value.symbol).join
  let presence ← batch.wordColumn batch.presenceMasks (field - 1)
  let matched : Nat → Word := match operand with
    | .list values =>
      let matched := values.foldl (fun dst value => orMask k mode words dst (maskOf value))
        leaf.truth.positive
      (matched.getD · 0#64)
    | .value value => fun word =>
      let matched := ((maskOf value).getD []).getD word 0#64
      if opcode = .notEqual then ~~~matched else matched
    | .none => fun _ => 0#64
  return some (leafWords batch.rows presence opcode matched)

end NornRune
