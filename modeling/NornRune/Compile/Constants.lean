import NornRune.Compile.Graph
import NornRune.Lib.Probe

-- The first stage of lowering: symbols and literals are interned, and the names of fields, evidence
-- and the policy are translated.
namespace NornRune

inductive CompileError
  | invalidDocument
  | invalidSymbols
  | emptyPolicy
  | programTooLarge
  | invalidGeneratedProgram
  deriving DecidableEq, Repr

def slotSizeFrom : Nat → Nat → Nat → Nat
  | 0, _, _ => 0
  | fuel + 1, size, n =>
    if size < 2 * n then if maxInt / 2 < size then 0 else slotSizeFrom fuel (size * 2) n
    else size

def slotSize (n : Nat) : Nat := slotSizeFrom 64 4 n

def maxInt32 : Nat := 2 ^ 31 - 1

def addCounts (a b : Nat) : Except CompileError Nat :=
  if maxUint32 ≤ a + b ∨ maxInt32 / 4 < a + b then .error .programTooLarge else .ok (a + b)

structure SymbolTable where
  bytes : List Byte
  starts : List Nat
  lengths : List Nat
  slots : List (Option Nat)

namespace SymbolTable

def symbol (t : SymbolTable) (id : Nat) : Option (List Byte) :=
  if id = 0 then none
  else match t.starts[id - 1]?, t.lengths[id - 1]? with
    | some start, some length =>
      if t.bytes.length < start + length then none else some (Region.read t.bytes start length)
    | _, _ => none

-- Every ID in a slot has its bytes, so that only equal bytes are looked for.
def intern (t : SymbolTable) (b : List Byte) : Except CompileError (SymbolTable × Nat) :=
  if t.slots.length = 0 then .error .programTooLarge
  else match Probe.find t.slots (fun id => t.symbol id == some b) (hashSymbol b).toNat with
    | .full => .error .programTooLarge
    | .entry id => .ok (t, id)
    | .vacant slot =>
      if maxUint32 ≤ t.starts.length ∨ maxUint32 < t.bytes.length + b.length then
        .error .programTooLarge
      else
        let id := t.starts.length + 1
        .ok ({
          bytes := t.bytes ++ b
          starts := t.starts ++ [t.bytes.length]
          lengths := t.lengths ++ [b.length]
          slots := t.slots.set slot (some id)
        }, id)

end SymbolTable

inductive Payload
  | symbol (id : Nat)
  | integer (i : Int)
  | boolean (b : Bool)
  | timestamp (t : Int)
  deriving DecidableEq, Repr

namespace Payload

def kind : Payload → ValueKind
  | symbol _ => .symbol
  | integer _ => .integer
  | boolean _ => .boolean
  | timestamp _ => .timestamp

end Payload

def kindCode : ValueKind → BitVec 64
  | .invalid => 0
  | .symbol => 1
  | .integer => 2
  | .boolean => 3
  | .timestamp => 4
  | .presence => 5

def mixKindPayload (kind payload : BitVec 64) : BitVec 64 :=
  let h := kind * 0x9E3779B97F4A7C15#64 ^^^ payload
  let h := h ^^^ (h >>> 30)
  let h := h * 0xBF58476D1CE4E5B9#64
  let h := h ^^^ (h >>> 27)
  let h := h * 0x94D049BB133111EB#64
  h ^^^ (h >>> 31)

def valueHash (payload : Payload) (text : List Byte) : BitVec 64 :=
  mixKindPayload (kindCode payload.kind) (match payload with
    | .symbol _ => hashSymbol text
    | .integer i => BitVec.ofInt 64 i
    | .boolean b => if b then 1 else 0
    | .timestamp t => BitVec.ofInt 64 t)

structure ValueSlot where
  kind : ValueKind
  ref : Nat
  id : Nat
  deriving DecidableEq, Repr

-- The literals of a program. The reference of a symbol is its ID, the one of another literal its
-- one-based row in the column of its kind.
structure ValueTable where
  kinds : List ValueKind
  refs : List Nat
  integers : List Int
  booleans : List Nat
  timestamps : List Int
  slots : List (Option ValueSlot)

namespace ValueTable

def valueEqual (t : ValueTable) (stored : ValueKind) (ref : Nat) (payload : Payload) : Bool :=
  stored == payload.kind && match payload with
    | .symbol id => ref == id
    | .integer i => ref != 0 && t.integers[ref - 1]? == some i
    | .boolean b => ref != 0 && t.booleans[ref - 1]? == some b.toNat
    | .timestamp s => ref != 0 && t.timestamps[ref - 1]? == some s

def appendValuePayload (t : ValueTable) (payload : Payload) : Except CompileError (ValueTable × Nat) :=
  match payload with
  | .symbol id =>
    if id = 0 then .error .invalidDocument else .ok (t, id)
  | .integer i =>
    if maxUint32 ≤ t.integers.length then .error .programTooLarge
    else .ok ({ t with integers := t.integers ++ [i] }, t.integers.length + 1)
  | .boolean b =>
    if maxUint32 ≤ t.booleans.length then .error .programTooLarge
    else .ok ({ t with booleans := t.booleans ++ [b.toNat] }, t.booleans.length + 1)
  | .timestamp s =>
    if maxUint32 ≤ t.timestamps.length then .error .programTooLarge
    else .ok ({ t with timestamps := t.timestamps ++ [s] }, t.timestamps.length + 1)

def intern (t : ValueTable) (hash : BitVec 64) (payload : Payload) :
    Except CompileError (ValueTable × Nat) :=
  if t.slots.length = 0 then .error .programTooLarge
  else match Probe.find t.slots (fun s => t.valueEqual s.kind s.ref payload) hash.toNat with
    | .full => .error .programTooLarge
    | .entry s => .ok (t, s.id)
    | .vacant slot =>
      if maxUint32 ≤ t.kinds.length then .error .programTooLarge
      else do
        let (t, ref) ← t.appendValuePayload payload
        let id := t.kinds.length + 1
        return ({ t with
          kinds := t.kinds ++ [payload.kind]
          refs := t.refs ++ [ref]
          slots := t.slots.set slot (some ⟨payload.kind, ref, id⟩)
        }, id)

end ValueTable

-- The interner of the schema, as far as it is used: the bytes of its symbols.
abbrev Interner := Nat → Option (List Byte)

def lowerField (fields : Schema) (symbols : Interner) (s : SymbolTable × List Nat) (i : Nat) :
    Except CompileError (SymbolTable × List Nat) :=
  match fields.name (i + 1) with
  | none => .error .invalidDocument
  | some name =>
    match symbols name with
    | none => .error .invalidSymbols
    | some b =>
      if b = [] then .error .invalidSymbols
      else do
        let (table, id) ← s.1.intern b
        return (table, s.2 ++ [id])

def lowerFieldSchema (t : SymbolTable) (fields : Schema) (symbols : Interner) :
    Except CompileError (SymbolTable × List Nat) :=
  (List.range fields.len).foldlM (lowerField fields symbols) (t, [])

-- The tables while the literals are walked. The remaps take the literals that were visited to the
-- values and symbols of the program.
structure ValueWalk where
  symbols : SymbolTable
  values : ValueTable
  valueRemap : List Nat
  symbolRemap : List Nat

namespace ValueWalk

def payload (doc : Document) (t : SymbolTable) (i : Nat) :
    Except CompileError (SymbolTable × Payload × List Byte) :=
  let id := i + 1
  match doc.valueKinds.getD i .invalid with
  | .symbol =>
    match doc.symbolValue id with
    | none => .error .invalidDocument
    | some b => do
      let (t, symbol) ← t.intern b
      return (t, .symbol symbol, b)
  | .integer =>
    match doc.integerValue id with
    | none => .error .invalidDocument
    | some v => .ok (t, .integer v, [])
  | .boolean =>
    match doc.booleanValue id with
    | none => .error .invalidDocument
    | some v => .ok (t, .boolean v, [])
  | .timestamp =>
    match doc.timestampValue id with
    | none => .error .invalidDocument
    | some v => .ok (t, .timestamp v, [])
  | _ => .error .invalidDocument

def step (doc : Document) (w : ValueWalk) (i : Nat) : Except CompileError ValueWalk := do
  let (symbols, payload, text) ← payload doc w.symbols i
  let (values, id) ← w.values.intern (valueHash payload text) payload
  return {
    symbols
    values
    valueRemap := w.valueRemap ++ [id]
    symbolRemap := w.symbolRemap ++ [match payload with | .symbol id => id | _ => 0]
  }

end ValueWalk

def canonicalizeValues (doc : Document) (symbols : SymbolTable) (values : ValueTable) :
    Except CompileError ValueWalk :=
  (List.range doc.valueKinds.length).foldlM (ValueWalk.step doc) ⟨symbols, values, [], []⟩

namespace ValueWalk

def symbolForValue (w : ValueWalk) (id : Nat) : Except CompileError Nat :=
  if id = 0 ∨ w.valueRemap.length < id then .error .invalidDocument
  else
    let value := w.valueRemap.getD (id - 1) 0
    if value = 0 ∨ w.values.kinds[value - 1]? ≠ some .symbol ∨ w.values.refs.length ≤ value - 1 then
      .error .invalidDocument
    else
      let symbol := w.values.refs.getD (value - 1) 0
      if symbol ≠ w.symbolRemap.getD (id - 1) 0 then .error .invalidDocument else .ok symbol

def optionalSymbolForValue (w : ValueWalk) (id : Nat) : Except CompileError Nat :=
  if id = 0 then .ok 0 else w.symbolForValue id

def canonicalValue (w : ValueWalk) (id : Nat) : Except CompileError Nat :=
  if id = 0 ∨ w.valueRemap.length < id then .error .invalidDocument
  else
    let canonical := w.valueRemap.getD (id - 1) 0
    if canonical = 0 then .error .invalidDocument else .ok canonical

def translateCatalogNames (w : ValueWalk) (names starts stops : List Nat) :
    Except CompileError (List Nat) :=
  if starts.length ≠ names.length ∨ stops.length ≠ names.length then .error .invalidDocument
  else if maxUint32 ≤ names.length then .error .programTooLarge
  else names.mapM w.symbolForValue

end ValueWalk

structure FrozenSlot where
  hash : BitVec 64
  id : Nat
  deriving DecidableEq, Repr

def freezeSymbol (t : SymbolTable) (slots : List (Option FrozenSlot)) (id : Nat) :
    Except CompileError (List (Option FrozenSlot)) :=
  match t.symbol id with
  | none => .error .invalidDocument
  | some b =>
    let hash := hashSymbol b
    match Probe.find slots (fun _ => false) hash.toNat with
    | .vacant slot => .ok (slots.set slot (some ⟨hash, id⟩))
    | _ => .error .programTooLarge

def freezeSymbolSlots (t : SymbolTable) : Except CompileError (List (Option FrozenSlot)) :=
  let count := t.starts.length
  if slotSize count = 0 then .error .programTooLarge
  else (List.range' 1 count).foldlM (freezeSymbol t) (List.replicate (slotSize count) none)

structure Constants extends ValueWalk where
  fieldNames : List Nat
  fieldKinds : List ValueKind
  fieldGroups : List FieldGroup
  evidenceKindNames : List Nat
  evidenceStateNames : List Nat
  policyName : Nat
  policyVersion : Nat
  symbolHashes : List (BitVec 64)
  symbolIDs : List Nat
  -- Symbols are counted in 32 bits.
  symbols_lt : symbols.starts.length < maxUint32

def lowerConstants (doc : Document) (fields : Schema) (symbols : Interner) :
    Except CompileError Constants :=
  let valueCount := doc.valueKinds.length
  if doc.valueRefs.length ≠ valueCount then .error .invalidDocument
  else do
    let symCap ← addCounts fields.len valueCount
    if slotSize symCap = 0 ∨ slotSize valueCount = 0 then .error .programTooLarge
    else do
      let (table, fieldNames) ← lowerFieldSchema
        ⟨[], [], [], List.replicate (slotSize symCap) none⟩ fields symbols
      let w ← canonicalizeValues doc table
        ⟨[], [], [], [], [], List.replicate (slotSize valueCount) none⟩
      let evidenceKindNames ← w.translateCatalogNames doc.evidenceKindNames
        doc.evidenceKindSourceStarts doc.evidenceKindSourceEnds
      let evidenceStateNames ← w.translateCatalogNames doc.evidenceStateNames
        doc.evidenceStateSourceStarts doc.evidenceStateSourceEnds
      match doc.policyMetadata with
      | none => .error .invalidDocument
      | some metadata => do
        let policyName ← w.symbolForValue metadata.name
        let policyVersion ← w.symbolForValue metadata.version
        if h : maxUint32 ≤ w.symbols.starts.length then .error .programTooLarge
        else do
          let frozen ← freezeSymbolSlots w.symbols
          return {
            w with
            fieldNames
            fieldKinds := fields.kinds
            fieldGroups := fields.groups
            evidenceKindNames
            evidenceStateNames
            policyName
            policyVersion
            symbolHashes := frozen.map fun slot => (slot.map (·.hash)).getD 0
            symbolIDs := frozen.map fun slot => (slot.map (·.id)).getD 0
            symbols_lt := Nat.lt_of_not_le h
          }

end NornRune
