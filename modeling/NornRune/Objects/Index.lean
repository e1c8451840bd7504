import NornRune.Lib.BinarySearch
import NornRune.Objects.Planes

open Bitplane

namespace NornRune

inductive IndexError
  | invalidSchema
  | invalidPolicy
  | invalidFactIndex
  | indexTooLarge
  deriving DecidableEq, Repr

-- Maps each field to its kind and to its column within the columns of that kind.
structure FieldIndex where
  kinds : List ValueKind
  columns : List Nat
  counts : ValueKind → Nat
  -- A schema with more fields is not indexed at all.
  kinds_le : kinds.length ≤ maxUint32

namespace FieldIndex

def lookup (s : FieldIndex) (field : Nat) : Option (ValueKind × Nat) :=
  if field = 0 then none
  else match s.kinds[field - 1]?, s.columns[field - 1]? with
    | some kind, some column => some (kind, column)
    | _, _ => none

end FieldIndex

-- Sorted selector values per field. The masks say which requirements are candidates for a value, and
-- the wildcard masks which requirements do not restrict the field.
structure Policy where
  fieldIDs : List Nat
  fieldValueStarts : List Nat
  fieldValueCounts : List Nat
  wildcardMasks : List Word
  values : List Nat
  valueMasks : List Word
  allMask : List Word
  requirementCount : Nat
  wordCount : Nat

namespace Policy

def allMaskWord (requirementCount words word : Nat) : Word :=
  if word + 1 = words ∧ requirementCount % 64 ≠ 0 then tailMask requirementCount
  else BitVec.allOnes 64

def fieldValues (p : Policy) (fieldRow : Nat) : List Nat :=
  Region.read p.values (p.fieldValueStarts.getD fieldRow 0) (p.fieldValueCounts.getD fieldRow 0)

def ascending (xs : List Nat) : Bool :=
  (List.range xs.length).all fun i => i == 0 || decide (xs.getD (i - 1) 0 < xs.getD i 0)

def validBoundField (p : Policy) (i : Nat) : Bool :=
  let field := p.fieldIDs.getD i 0
  let start := p.fieldValueStarts.getD i 0
  let count := p.fieldValueCounts.getD i 0
  field != 0 && (i == 0 || decide (p.fieldIDs.getD (i - 1) 0 < field)) &&
  count != 0 && decide (start + count ≤ p.values.length) &&
  (i != 0 || start == 0) &&
  (i == 0 || start == p.fieldValueStarts.getD (i - 1) 0 + p.fieldValueCounts.getD (i - 1) 0) &&
  (p.fieldValues i).all (· != 0) && ascending (p.fieldValues i)

def validBoundPolicy (p : Policy) : Bool :=
  let words := p.wordCount
  let fieldCount := p.fieldIDs.length
  let valueCount := p.values.length
  words == Bitplane.wordCount p.requirementCount && p.allMask.length == words &&
  p.fieldValueStarts.length == fieldCount && p.fieldValueCounts.length == fieldCount &&
  (fieldCount == 0 || decide (words ≤ maxUint64 / fieldCount)) &&
  (valueCount == 0 || decide (words ≤ maxUint64 / valueCount)) &&
  p.wildcardMasks.length == fieldCount * words && p.valueMasks.length == valueCount * words &&
  (List.range p.allMask.length).all (fun word =>
    p.allMask.getD word 0#64 == allMaskWord p.requirementCount p.allMask.length word) &&
  (List.range fieldCount).all p.validBoundField &&
  (if fieldCount = 0 then valueCount == 0
    else p.fieldValueStarts.getD (fieldCount - 1) 0 + p.fieldValueCounts.getD (fieldCount - 1) 0
      == valueCount) &&
  (List.range p.allMask.length).all fun word =>
    let allowed := p.allMask.getD word 0#64
    (List.range fieldCount).all (fun fieldRow =>
      p.wildcardMasks.getD (fieldRow * words + word) 0#64 &&& ~~~allowed == 0#64) &&
    (List.range valueCount).all (fun valueRow =>
      p.valueMasks.getD (valueRow * words + word) 0#64 &&& ~~~allowed == 0#64)

def fieldMask (p : Policy) (fieldRow value : Nat) : List Word :=
  match BinarySearch.search (p.fieldValues fieldRow) value with
  | some relative =>
    Region.read p.valueMasks ((p.fieldValueStarts.getD fieldRow 0 + relative) * p.wordCount)
      p.wordCount
  | none => Region.read p.wildcardMasks (fieldRow * p.wordCount) p.wordCount

def candidatesFrom (p : Policy) (values : List Nat) (present : List Bool) :
    List Nat → List Word → List Word
  | [], dst => dst
  | fieldRow :: fieldRows, dst =>
    if present.getD fieldRow false then
      let dst := List.zipWith (· &&& ·) dst (p.fieldMask fieldRow (values.getD fieldRow 0))
      if dst.all (· == 0#64) then dst else p.candidatesFrom values present fieldRows dst
    else p.candidatesFrom values present fieldRows dst

def candidates (p : Policy) (dst : List Word) (values : List Nat) (present : List Bool) :
    Option (List Word) :=
  if dst.length ≠ p.wordCount ∨ values.length ≠ p.fieldIDs.length ∨
      present.length ≠ p.fieldIDs.length then none
  else some (p.candidatesFrom values present (List.range p.fieldIDs.length)
    (Region.write dst 0 p.allMask))

end Policy

-- The symbol fields whose values are looked up often enough to be indexed for a batch.
structure FactSpec where
  fieldIDs : List Nat
  columns : List Nat
  valueStarts : List Nat
  valueCounts : List Nat
  useCounts : List Nat
  values : List Nat

namespace FactSpec

def fieldValues (spec : FactSpec) (fieldRow : Nat) : List Nat :=
  Region.read spec.values (spec.valueStarts.getD fieldRow 0) (spec.valueCounts.getD fieldRow 0)

def validField (spec : FactSpec) (symbolColumns programSymbolCount fieldRow : Nat) : Bool :=
  let field := spec.fieldIDs.getD fieldRow 0
  let column := spec.columns.getD fieldRow 0
  let start := spec.valueStarts.getD fieldRow 0
  let count := spec.valueCounts.getD fieldRow 0
  field != 0 && decide (column < symbolColumns) && spec.useCounts.getD fieldRow 0 != 0 &&
  (fieldRow == 0 || (decide (spec.fieldIDs.getD (fieldRow - 1) 0 < field) &&
    decide (spec.columns.getD (fieldRow - 1) 0 < column))) &&
  count != 0 && decide (start + count ≤ spec.values.length) &&
  (fieldRow != 0 || start == 0) &&
  (fieldRow == 0 ||
    start == spec.valueStarts.getD (fieldRow - 1) 0 + spec.valueCounts.getD (fieldRow - 1) 0) &&
  (spec.fieldValues fieldRow).all (fun value =>
    value != 0 && decide (value ≤ programSymbolCount)) &&
  Policy.ascending (spec.fieldValues fieldRow)

def validShape (spec : FactSpec) (symbolColumns programSymbolCount : Nat) : Bool :=
  let n := spec.fieldIDs.length
  spec.columns.length == n && spec.valueStarts.length == n && spec.valueCounts.length == n &&
  spec.useCounts.length == n && decide (n ≤ maxUint32) && decide (spec.values.length ≤ maxUint32) &&
  if n = 0 then spec.values.length == 0
  else (List.range n).all (spec.validField symbolColumns programSymbolCount) &&
    spec.valueStarts.getD (n - 1) 0 + spec.valueCounts.getD (n - 1) 0 == spec.values.length

def valid (spec : FactSpec) (fields : FieldIndex) (programSymbolCount : Nat) : Bool :=
  fields.kinds.length == fields.columns.length &&
  spec.validShape (fields.counts .symbol) programSymbolCount &&
  (List.range spec.fieldIDs.length).all fun row =>
    fields.lookup (spec.fieldIDs.getD row 0) == some (.symbol, spec.columns.getD row 0)

end FactSpec
end NornRune
