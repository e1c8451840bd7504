import NornRune.Execution.Execute

open Bitplane Checked

-- What a program means for one request, without batches, planes and slots.
namespace NornRune

-- The facts and the evidence of one request. Values are found by the column of their field.
structure Row where
  present : Nat → Bool
  symbol : Nat → Nat
  integer : Nat → Int
  timestamp : Nat → Int
  boolean : Nat → Bool
  evidence : List EvidenceRecord

namespace Batch

def row (b : Batch) (r : Nat) : Row where
  present field := (b.presenceMasks.getD ((field - 1) * b.sourceWords + b.wordBase + r / 64)
    0#64).getLsbD (r % 64)
  symbol column := b.symbolValues.getD (column * b.sourceRows + b.rowBase + r) 0
  integer column := b.integerValues.getD (column * b.sourceRows + b.rowBase + r) 0
  timestamp column := b.timestampValues.getD (column * b.sourceRows + b.rowBase + r) 0
  boolean column := (b.booleanValues.getD (column * b.sourceWords + b.wordBase + r / 64)
    0#64).getLsbD (r % 64)
  evidence := b.rowEvidence r

end Batch

namespace Lane

def not (a : Lane) : Lane := ⟨a.truth.not, a.reasons⟩
def and (a b : Lane) : Lane := ⟨a.truth.and b.truth, a.reasons ||| b.reasons⟩
def or (a b : Lane) : Lane := ⟨a.truth.or b.truth, a.reasons ||| b.reasons⟩

def all (lanes : List Lane) : Lane := lanes.foldl and ⟨.top, 0#16⟩
def any (lanes : List Lane) : Lane := lanes.foldl or ⟨.bottom, 0#16⟩

end Lane

-- What a predicate evaluates to, given whether its fact is there and whether the value matches. A
-- fact that is not there is neither for nor against the predicate and is reported as missing.
def leafLane (opcode : Opcode) (present matched : Bool) : Lane :=
  let missing := if present then 0#16 else ReasonMask.reasonBit reasonMissing
  match opcode with
  | .defined => ⟨.ofBool present, 0#16⟩
  | .exists => ⟨⟨present, false⟩, missing⟩
  | _ => ⟨⟨present && matched, present && !matched⟩, missing⟩

structure Predicate where
  opcode : Opcode
  field : Nat
  kind : ValueKind
  column : Nat
  operand : Operand

namespace Predicate

def equals (kind : ValueKind) (column : Nat) (row : Row) (value : PredicateValue) : Bool :=
  match kind with
  | .symbol => row.symbol column == value.symbol
  | .integer => row.integer column == value.integer
  | .boolean => row.boolean column == value.boolean
  | .timestamp => row.timestamp column == value.timestamp
  | _ => false

def compares (opcode : Opcode) (kind : ValueKind) (column : Nat) (row : Row)
    (value : PredicateValue) : Bool :=
  match kind with
  | .symbol => (row.symbol column == value.symbol) == (opcode == .equal)
  | .integer => compareInt64 opcode (row.integer column) value.integer
  | .boolean => (row.boolean column == value.boolean) == (opcode != .notEqual)
  | .timestamp => compareInt64 opcode (row.timestamp column) value.timestamp
  | _ => false

def holds (q : Predicate) (row : Row) : Bool :=
  match q.operand with
  | .none => false
  | .value v => compares q.opcode q.kind q.column row v
  | .list vs => vs.any (equals q.kind q.column row)

def lane (q : Predicate) (row : Row) : Lane :=
  leafLane q.opcode (row.present q.field) (q.holds row)

end Predicate

def resolvePredicate (p : Program) (row : Nat) : Except Panic Predicate := do
  let opcode := p.opcodes.getD row .invalid
  let field := p.fields.getD row 0
  let (kind, column) ← predicateField p field
  let operand ← predicateOperand p row opcode kind
  requirePredicateKind opcode kind
  return ⟨opcode, field, kind, column, operand⟩

namespace EvidencePredicate

def classify (q : EvidencePredicate) (stateReasons : List Nat) (record : EvidenceRecord) :
    EvidenceRecordClassification :=
  classifyEvidenceRecord record (stateReasons.getD (record.state - 1) 0) q

def step (q : EvidencePredicate) (stateReasons : List Nat) (s : EvidenceScan)
    (record : EvidenceRecord) : EvidenceScan :=
  if record.kind ≠ q.kind then s
  else
    let c := q.classify stateReasons record
    ⟨true, s.positive || c.positive, s.negative || c.negative, s.reasons ||| c.reasons⟩

def lane (q : EvidencePredicate) (stateReasons : List Nat) (records : List EvidenceRecord) : Lane :=
  (records.foldl (q.step stateReasons) ⟨false, false, false, 0#16⟩).lane

end EvidencePredicate

-- An instruction whose literals and fields were found. Operands are instruction IDs.
inductive Instr
  | constant (b : Bool)
  | predicate (q : Predicate)
  | evidence (q : EvidencePredicate)
  | all (operands : List Nat)
  | any (operands : List Nat)
  | not (operand : Nat)

namespace Instr

def operands : Instr → List Nat
  | all operands | any operands => operands
  | not operand => [operand]
  | _ => []

def lane (stateReasons : List Nat) (row : Row) (value : Nat → Lane) : Instr → Lane
  | constant b => ⟨.ofBool b, 0#16⟩
  | predicate q => q.lane row
  | evidence q => q.lane stateReasons row.evidence
  | all operands => Lane.all (operands.map value)
  | any operands => Lane.any (operands.map value)
  | not operand => (value operand).not

end Instr

-- Finds the literals and the fields of an instruction, given by its row. The evidence predicate is
-- checked against the number of evidence states that were classified.
def resolveInstr (p : Program) (row : Nat) : Except Panic Instr :=
  match p.opcodes.getD row .invalid with
  | .boolean => do
    return .constant (← programPredicateValue p (p.values.getD row 0) .boolean).boolean
  | .evidence => do
    let q := p.evidencePredicate row
    require (q.kind != 0 && decide (q.kind ≤ p.evidenceKindNames.length) &&
      q.state != 0 && decide (q.state ≤ p.evidenceStateNames.length)) "eval: invalid evidence predicate"
    return .evidence q
  | .all => return .all (p.operandsOf row)
  | .any => return .any (p.operandsOf row)
  | .not => return .not ((p.operandsOf row).headD 0)
  | .invalid => .error "eval: invalid execution opcode"
  | _ => return .predicate (← resolvePredicate p row)

-- The scratch of an evaluator as seen on one row: what each slot holds.
@[ext]
structure Lanes where
  truth : Nat → Truth
  reasons : Nat → ReasonMask

namespace Lanes

def value (p : Program) (s : Lanes) (instruction : Nat) : Lane :=
  ⟨s.truth (p.truthSlotOf instruction), s.reasons (p.reasonSlotOf instruction)⟩

def setTruth (s : Lanes) (slot : Nat) (t : Truth) : Lanes :=
  { s with truth := Function.update s.truth slot t }

def setReasons (s : Lanes) (slot : Nat) (mask : ReasonMask) : Lanes :=
  { s with reasons := Function.update s.reasons slot mask }

def set (p : Program) (s : Lanes) (row : Nat) (lane : Lane) : Lanes :=
  (s.setTruth (p.truthSlots.getD row 0) lane.truth).setReasons (p.reasonSlots.getD row 0) lane.reasons

def step (p : Program) (stateReasons : List Nat) (facts : Row) (s : Lanes) (row : Nat)
    (instr : Instr) : Lanes :=
  s.set p row (instr.lane stateReasons facts (s.value p))

def run (p : Program) (stateReasons : List Nat) (facts : Row) (start : Nat) :
    List Instr → Lanes → Lanes
  | [], s => s
  | instr :: code, s => run p stateReasons facts (start + 1) code (s.step p stateReasons facts start instr)

end Lanes
end NornRune
