import NornRune.Objects.Index
import NornRune.Objects.Template

namespace NornRune

inductive Opcode
  | invalid
  | equal
  | notEqual
  | in
  | exists
  | less
  | lessEqual
  | greater
  | greaterEqual
  | evidence
  | all
  | any
  | not
  | boolean
  | defined
  deriving DecidableEq, Repr

namespace Opcode

def valid : Opcode → Bool
  | invalid => false
  | _ => true

def isGroup : Opcode → Bool
  | all | any => true
  | _ => false

def ordered : Opcode → Bool
  | less | lessEqual | greater | greaterEqual => true
  | _ => false

def isPredicate : Opcode → Bool
  | equal | notEqual | «in» | «exists» | less | lessEqual | greater | greaterEqual | defined => true
  | _ => false

end Opcode

abbrev RootFlags := BitVec 8

namespace RootFlags

def applicability : RootFlags := 1#8
def assertion : RootFlags := 2#8
def evidence : RootFlags := 4#8

def has (f flag : RootFlags) : Bool :=
  f &&& flag == flag

end RootFlags

-- A compiled policy. Instruction `n` has its row at offset `n - 1` of the instruction columns, and
-- refers to its operands by their instruction IDs.
structure Program where
  opcodes : List Opcode
  fields : List Nat
  values : List Nat
  listStarts : List Nat
  listCounts : List Nat
  operandStarts : List Nat
  operandCounts : List Nat
  evidenceKinds : List Nat
  evidenceStates : List Nat
  evidenceSubjects : List Nat
  evidenceScopes : List Nat
  evidenceTimings : List Nat
  rootFlags : List RootFlags
  truthSlots : List Nat
  reasonSlots : List Nat
  instructionNodes : List Nat
  instructionSourceStarts : List Nat
  instructionSourceEnds : List Nat
  listValues : List Nat
  operands : List Nat
  opcodeRunOpcodes : List Opcode
  opcodeRunStarts : List Nat
  opcodeRunCounts : List Nat
  nodeInstructionStarts : List Nat
  nodeInstructionCounts : List Nat
  nodeInstructionIDs : List Nat
  symbolBytes : List Byte
  symbolStarts : List Nat
  symbolLengths : List Nat
  symbolHashes : List (BitVec 64)
  symbolIDs : List Nat
  valueKinds : List ValueKind
  valueRefs : List Nat
  integerValues : List Int
  booleanValues : List Nat
  timestampValues : List Int
  fieldNames : List Nat
  fieldKinds : List ValueKind
  fieldGroups : List FieldGroup
  evidenceKindNames : List Nat
  evidenceStateNames : List Nat
  requirementIDs : List Nat
  requirementRoots : List Nat
  requirementSourceNodeIDs : List Nat
  requirementClauseStarts : List Nat
  requirementClauseCounts : List Nat
  requirementClauseIDs : List Nat
  clauseAssertionRoots : List Nat
  clauseAssertionSourceNodeIDs : List Nat
  clauseEvidenceStarts : List Nat
  clauseEvidenceCounts : List Nat
  clauseEvidenceIDs : List Nat
  clauseEvidenceSourceNodeIDs : List Nat
  clauseOnSatisfied : List Nat
  clauseOnFalse : List Nat
  clauseExplanationIDs : List Nat
  clauseRemediationStarts : List Nat
  clauseRemediationCounts : List Nat
  clauseRemediationIDs : List Nat
  templates : TemplateTable
  explanations : ExplanationTable
  evidenceIssueNodeIDs : List Nat
  evidenceIssueTemplateIDs : List Nat
  outcomes : OutcomeTable
  remediations : RemediationTable
  resolutions : ResolutionTable
  resolver : Resolver
  applicabilityIndex : Policy
  factIndexSpec : FactSpec
  fieldIndex : FieldIndex
  policyName : Nat
  policyVersion : Nat
  programSymbolCount : Nat
  truthSlotCount : Nat
  reasonSlotCount : Nat
  -- Symbols are counted in 32 bits.
  programSymbolCount_le : programSymbolCount ≤ maxUint32
  -- The resolver is only ever set by validating the tables of the program.
  resolver_eq : resolver = .zero ∨
    Resolver.new outcomes remediations resolutions = .ok resolver

namespace Program

def symbol (p : Program) (id : Nat) : Option (List Byte) :=
  if id = 0 then none
  else match p.symbolStarts[id - 1]?, p.symbolLengths[id - 1]? with
    | some start, some length =>
      if p.symbolBytes.length < start + length then none
      else some (Region.read p.symbolBytes start length)
    | _, _ => none

def probe (p : Program) (value : List Byte) (hash : BitVec 64) : (probes slot : Nat) → Option Nat
  | 0, _ => none
  | probes + 1, slot =>
    let id := p.symbolIDs.getD slot 0
    if id = 0 then none
    else if p.symbolHashes.getD slot 0 = hash ∧ p.symbol id = some value then some id
    else p.probe value hash probes ((slot + 1) &&& (p.symbolHashes.length - 1))

def lookupSymbol (p : Program) (value : List Byte) : Option Nat :=
  let n := p.symbolHashes.length
  if n = 0 ∨ n ≠ p.symbolIDs.length ∨ n &&& (n - 1) ≠ 0 then none
  else
    let hash := hashSymbol value
    p.probe value hash n (hash.toNat &&& (n - 1))

def usesEvidence (p : Program) : Bool :=
  p.opcodes.any (· == .evidence)

def operandsOf (p : Program) (row : Nat) : List Nat :=
  Region.read p.operands (p.operandStarts.getD row 0) (p.operandCounts.getD row 0)

def truthSlotOf (p : Program) (instruction : Nat) : Nat :=
  p.truthSlots.getD (instruction - 1) 0

def reasonSlotOf (p : Program) (instruction : Nat) : Nat :=
  p.reasonSlots.getD (instruction - 1) 0

end Program
end NornRune
