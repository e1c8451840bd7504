import NornRune.Execution.Kernels

open Bitplane

namespace NornRune

structure PredicateValue where
  integer : Int := 0
  timestamp : Int := 0
  symbol : Nat := 0
  boolean : Bool := false

def programPredicateValue (p : Program) (id : Nat) (want : ValueKind) :
    Except Panic PredicateValue :=
  let invalid : Except Panic PredicateValue := .error "eval: invalid predicate value"
  if id = 0 then invalid
  else match p.valueKinds[id - 1]?, p.valueRefs[id - 1]? with
    | some kind, some ref =>
      if kind ≠ want ∨ ref = 0 then invalid
      else match want with
        | .symbol =>
          if p.programSymbolCount < ref ∨ (p.symbol ref).isNone then invalid
          else .ok { symbol := ref }
        | .integer =>
          match p.integerValues[ref - 1]? with
          | some v => .ok { integer := v }
          | none => invalid
        | .boolean =>
          match p.booleanValues[ref - 1]? with
          | some v => if 1 < v then invalid else .ok { boolean := v != 0 }
          | none => invalid
        | .timestamp =>
          match p.timestampValues[ref - 1]? with
          | some v => .ok { timestamp := v }
          | none => invalid
        | _ => .error "eval: invalid predicate value kind"
    | _, _ => invalid

def requireColumnLength (length columns width : Nat) : Except Panic Unit :=
  require (length == columns * width) "eval: invalid batch column"

def predicateField (p : Program) (field : Nat) : Except Panic (ValueKind × Nat) :=
  match p.fieldIndex.lookup field with
  | none => .error "eval: invalid predicate field"
  | some (kind, column) =>
    if !kind.valid then .error "eval: invalid predicate field"
    else if p.fieldIndex.counts kind ≤ column then .error "eval: invalid predicate column"
    else .ok (kind, column)

inductive Operand
  | none
  | value (v : PredicateValue)
  | list (vs : List PredicateValue)

def predicateOperand (p : Program) (row : Nat) (opcode : Opcode) (kind : ValueKind) :
    Except Panic Operand :=
  let value := p.values.getD row 0
  match opcode with
  | .exists | .defined => do
    require (value == 0) "eval: invalid value-free predicate value"
    return .none
  | .in => do
    let start := p.listStarts.getD row 0
    let count := p.listCounts.getD row 0
    require (value == 0 && decide (row < p.listStarts.length) && decide (row < p.listCounts.length) &&
      decide (start + count ≤ p.listValues.length)) "eval: invalid in predicate"
    return .list (← (Region.read p.listValues start count).mapM (programPredicateValue p · kind))
  | _ => return .value (← programPredicateValue p value kind)

def requirePredicateKind (opcode : Opcode) (kind : ValueKind) : Except Panic Unit := do
  require (kind != .presence || opcode == .exists || opcode == .defined)
    "eval: presence field requires exists or defined"
  require (!opcode.ordered || kind == .integer || kind == .timestamp)
    "eval: ordered predicate requires numeric field"

def compareInt64 (opcode : Opcode) (left right : Int) : Bool :=
  match opcode with
  | .equal => left == right
  | .notEqual => left != right
  | .less => left < right
  | .lessEqual => left ≤ right
  | .greater => right < left
  | .greaterEqual => right ≤ left
  | _ => false

structure Leaf where
  truth : Planes
  reasons : List Word

def resetLeafOutputs (dst : Planes) (reasons : List Word) (rows : Nat) : Except Panic Leaf := do
  let words := wordCount rows
  require (dst.positive.length == words && dst.negative.length == words &&
    reasons.length == reasonCount * words) "eval: invalid leaf output shape"
  return ⟨⟨List.replicate words 0#64, List.replicate words 0#64⟩,
    List.replicate (reasonCount * words) 0#64⟩

def fillInMatches (batch : Batch) (kind : ValueKind) (column : Nat) (dst : List Word)
    (value : PredicateValue) : Except Panic (List Word) :=
  match kind with
  | .symbol => do
    let values ← batch.rowColumn batch.symbolValues column
    return setWhere (fun request => values.getD request 0 == value.symbol) batch.rows dst
  | .integer => do
    let values ← batch.rowColumn batch.integerValues column
    return setWhere (fun request => values.getD request 0 == value.integer) batch.rows dst
  | .boolean => do
    let values ← batch.wordColumn batch.booleanValues column
    return List.zipWith (fun d got => d ||| if value.boolean then got else ~~~got) dst values
  | .timestamp => do
    let values ← batch.rowColumn batch.timestampValues column
    return setWhere (fun request => values.getD request 0 == value.timestamp) batch.rows dst
  | _ => .error "eval: invalid in predicate kind"

def wordMatches (batch : Batch) (opcode : Opcode) (kind : ValueKind) (column : Nat)
    (value : PredicateValue) (word : Nat) : Except Panic Word :=
  match kind with
  | .symbol => do
    let values ← batch.rowColumn batch.symbolValues column
    return matchWord (fun request =>
      (values.getD request 0 == value.symbol) == (opcode == .equal)) word batch.rows
  | .integer => do
    let values ← batch.rowColumn batch.integerValues column
    return matchWord (fun request => compareInt64 opcode (values.getD request 0) value.integer)
      word batch.rows
  | .boolean => do
    let values ← batch.wordColumn batch.booleanValues column
    let set := values.getD word 0#64
    let set := if value.boolean then set else ~~~set
    return if opcode = .notEqual then ~~~set else set
  | .timestamp => do
    let values ← batch.rowColumn batch.timestampValues column
    return matchWord (fun request => compareInt64 opcode (values.getD request 0) value.timestamp)
      word batch.rows
  | _ => return 0#64

def requireValueColumn (batch : Batch) (p : Program) (kind : ValueKind) : Except Panic Unit :=
  let count := p.fieldIndex.counts kind
  match kind with
  | .symbol => requireColumnLength batch.symbolValues.length count batch.sourceRows
  | .integer => requireColumnLength batch.integerValues.length count batch.sourceRows
  | .boolean => requireColumnLength batch.booleanValues.length count batch.sourceWords
  | .timestamp => requireColumnLength batch.timestampValues.length count batch.sourceRows
  | _ => .ok ()

section Words

variable (rows : Nat) (presence : List Word)

def presentWord (word : Nat) : Word :=
  presence.getD word 0#64 &&& wordMask word (wordCount rows) rows

def absentWords : List Word :=
  (List.range (wordCount rows)).map fun word =>
    wordMask word (wordCount rows) rows &&& ~~~presentWord rows presence word

def missingReasons : List Word :=
  ReasonPlanes.setPlane (List.replicate (reasonCount * wordCount rows) 0#64) reasonMissing
    (wordCount rows) (absentWords rows presence)

def definedLeaf : Leaf where
  truth := ⟨(List.range (wordCount rows)).map (presentWord rows presence), absentWords rows presence⟩
  reasons := List.replicate (reasonCount * wordCount rows) 0#64

def existsLeaf : Leaf where
  truth := ⟨(List.range (wordCount rows)).map (presentWord rows presence),
    List.replicate (wordCount rows) 0#64⟩
  reasons := missingReasons rows presence

def comparedLeaf (matched : Nat → Word) : Leaf where
  truth := {
    positive := (List.range (wordCount rows)).map fun word =>
      presentWord rows presence word &&& matched word
    negative := (List.range (wordCount rows)).map fun word =>
      presentWord rows presence word &&& ~~~matched word
  }
  reasons := missingReasons rows presence

-- The words of a leaf, computed one by one. A row without the fact is neither positive nor negative
-- and misses it, except for the opcode that asks whether the fact is there.
def leafWords (opcode : Opcode) (matched : Nat → Word) : Leaf :=
  match opcode with
  | .defined => definedLeaf rows presence
  | .exists => existsLeaf rows presence
  | _ => comparedLeaf rows presence matched

end Words

def operandMatches (batch : Batch) (opcode : Opcode) (kind : ValueKind) (column : Nat)
    (dst : List Word) : Operand → Except Panic (List Word)
  | .none => .ok dst
  | .value v => (List.range (wordCount batch.rows)).mapM (wordMatches batch opcode kind column v)
  | .list vs => vs.foldlM (fillInMatches batch kind column) dst

def evalPredicate (dst : Planes) (reasons : List Word) (batch : Batch) (p : Program)
    (instruction : Nat) : Except Panic Leaf := do
  let row := instruction - 1
  require (instruction != 0 && decide (row < p.opcodes.length) && decide (row < p.fields.length) &&
    decide (row < p.values.length)) "eval: invalid predicate instruction"
  let opcode := p.opcodes.getD row .invalid
  require opcode.isPredicate "eval: unsupported predicate opcode"
  let field := p.fields.getD row 0
  let (kind, column) ← predicateField p field
  requireColumnLength batch.presenceMasks.length p.fieldIndex.kinds.length batch.sourceWords
  let operand ← predicateOperand p row opcode kind
  requirePredicateKind opcode kind
  if opcode ≠ .defined then requireValueColumn batch p kind
  let leaf ← resetLeafOutputs dst reasons batch.rows
  let presence ← batch.wordColumn batch.presenceMasks (field - 1)
  let matched ← operandMatches batch opcode kind column leaf.truth.positive operand
  return leafWords batch.rows presence opcode (matched.getD · 0#64)

end NornRune
