import NornRune.Execution.Execute

-- The fuel that an evaluation is charged, computed from the program and the lengths of the input before
-- anything is evaluated. All numbers are unsigned and have 64 bits.
namespace NornRune

structure EvaluationFuelProfile where
  instructions : Nat
  evidenceInstructions : Nat
  listItems : Nat
  operandEdges : Nat
  requirements : Nat
  requirementClauses : Nat
  maxRemediations : Nat
  deriving DecidableEq, Repr

namespace EvaluationFuelProfile

def zero : EvaluationFuelProfile := ⟨0, 0, 0, 0, 0, 0, 0⟩

-- These sums are not checked, so they could wrap around.
def count (counts : List Nat) : Nat :=
  counts.foldl (fun total count => (total + count) % 2 ^ 64) 0

end EvaluationFuelProfile

open EvaluationFuelProfile in
def newEvaluationFuelProfile (compiled : Program) : EvaluationFuelProfile where
  instructions := compiled.opcodes.length
  requirements := compiled.requirementIDs.length
  requirementClauses := compiled.requirementClauseIDs.length
  evidenceInstructions := count (compiled.opcodes.map fun opcode => if opcode = .evidence then 1 else 0)
  listItems := count compiled.listCounts
  operandEdges := count compiled.operandCounts
  maxRemediations := compiled.resolutions.remediationCounts.foldl max
    (compiled.clauseRemediationCounts.foldl max 0)

def addFuel (total value : Nat) : Option Nat :=
  if maxUint64 - total < value then none else some ((total + value) % 2 ^ 64)

def addFuelProduct (total : Nat) (product : Nat × Nat) : Option Nat :=
  if product.1 ≠ 0 ∧ maxUint64 / product.1 < product.2 then none
  else addFuel total (product.1 * product.2 % 2 ^ 64)

def fuelTerms (input : Batch) : List Nat := [
  input.symbolValues.length, input.integerValues.length, input.timestampValues.length,
  input.booleanValues.length, input.presenceMasks.length, input.requestIDs.length,
  input.evidenceOffsets.length, input.evidenceRefs.length]

-- The work on each row and each piece of evidence, and the lengths of the columns of the result.
def fuelProducts (profile : EvaluationFuelProfile) (input : Batch) : List (Nat × Nat) :=
  let rows := input.rows
  let workRows := max rows 1
  let evidenceRows := input.evidence.ids.length
  let evidenceRefs := input.evidenceRefs.length
  [(workRows, profile.instructions),
    (workRows, profile.operandEdges),
    (rows, profile.listItems),
    (evidenceRows, 8),
    (evidenceRefs, profile.evidenceInstructions),
    (rows, profile.requirements),
    (rows, profile.requirementClauses),
    (rows + 1, 5),
    (rows, 6),
    (rows, profile.requirements),
    (rows, reasonCount * 4),
    (rows, profile.maxRemediations)]

def evaluationFuelCost (profile : EvaluationFuelProfile) (input : Batch) : Option Nat := do
  let cost ← (fuelTerms input).foldlM addFuel 1
  let cost ← (fuelProducts profile input).foldlM addFuelProduct cost
  addFuel cost input.evidenceRefs.length

end NornRune
