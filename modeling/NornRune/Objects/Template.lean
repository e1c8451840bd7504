import NornRune.Objects.Result

namespace NornRune

-- One step of rendering a text. Policies and compiled programs use the same operations.
inductive TemplateOp
  | invalid
  | literal
  | policyName
  | policyVersion
  | requestID
  | outcome
  | requirementID
  | clauseID
  | nodeID
  | reason
  | evidenceKind
  | evidenceState
  | requiredEvidenceState
  | evidenceID
  deriving DecidableEq, Repr

def TemplateOp.valid : TemplateOp → Bool
  | invalid => false
  | _ => true

def maxTemplateOperations : Nat := 32
def maxRenderedTemplateBytes : Nat := 1024
def maxAssumptionTemplates : Nat := 8
def maxRenderedExplanationBytes : Nat := 4096

structure TemplateTable where
  literalBytes : List Byte
  opStarts : List Nat
  opCounts : List Nat
  literalStarts : List Nat
  maxBytes : List Nat
  ops : List TemplateOp
  args : List Nat

namespace TemplateTable

def empty : TemplateTable := ⟨[], [], [], [], [], [], []⟩

-- The number of literal bytes that a range of operations consumes. A literal has at least one byte,
-- and nothing else takes an argument.
def literalLength (t : TemplateTable) : List Nat → Option Nat
  | [] => some 0
  | i :: rest =>
    let op := t.ops.getD i .invalid
    let arg := t.args.getD i 0
    if !op.valid then none
    else if op = .literal then
      if arg = 0 then none else (literalLength t rest).map (arg + ·)
    else if arg ≠ 0 then none else literalLength t rest

structure Cursor where
  op : Nat
  literal : Nat

def validateRow (t : TemplateTable) (c : Cursor) (row : Nat) : Except TableError Cursor :=
  let start := t.opStarts.getD row 0
  let count := t.opCounts.getD row 0
  if maxTemplateOperations < count ∨ start ≠ c.op ∨ t.ops.length < start + count then
    .error .invalidTemplateTable
  else if t.literalStarts.getD row 0 ≠ c.literal ∨
      maxRenderedTemplateBytes < t.maxBytes.getD row 0 then .error .invalidTemplateTable
  else match t.literalLength (List.range' start count) with
    | none => .error .invalidTemplateTable
    | some literalBytes =>
      if t.literalBytes.length < c.literal + literalBytes ∨ t.maxBytes.getD row 0 < literalBytes then
        .error .invalidTemplateTable
      else .ok ⟨start + count, c.literal + literalBytes⟩

def validate (t : TemplateTable) : Except TableError Unit :=
  let rows := t.opStarts.length
  if t.opCounts.length ≠ rows ∨ t.literalStarts.length ≠ rows ∨ t.maxBytes.length ≠ rows ∨
      t.ops.length ≠ t.args.length then .error .invalidTemplateTable
  else do
    let c ← (List.range rows).foldlM t.validateRow ⟨0, 0⟩
    if c.op ≠ t.ops.length ∨ c.literal ≠ t.literalBytes.length then .error .invalidTemplateTable
    else .ok ()

structure Template where
  literalBytes : List Byte
  ops : List TemplateOp
  args : List Nat
  maxBytes : Nat

def lookup (t : TemplateTable) (id : Nat) : Option Template :=
  let row := id - 1
  if id = 0 ∨ t.opStarts.length ≤ row ∨ t.opCounts.length ≤ row ∨ t.literalStarts.length ≤ row ∨
      t.maxBytes.length ≤ row then none
  else
    let start := t.opStarts.getD row 0
    let count := t.opCounts.getD row 0
    if maxTemplateOperations < count ∨ t.ops.length < start + count ∨ t.args.length < start + count ∨
        maxRenderedTemplateBytes < t.maxBytes.getD row 0 then none
    else match t.literalLength (List.range' start count) with
      | none => none
      | some literalBytes =>
        let literalStart := t.literalStarts.getD row 0
        if t.literalBytes.length < literalStart + literalBytes ∨
            t.maxBytes.getD row 0 < literalBytes then none
        else some {
          literalBytes := Region.read t.literalBytes literalStart literalBytes
          ops := Region.read t.ops start count
          args := Region.read t.args start count
          maxBytes := t.maxBytes.getD row 0
        }

end TemplateTable

namespace ExplanationTable

def empty : ExplanationTable := ⟨[], [], [], [], []⟩

def templateMaximum (templates : TemplateTable) (id : Nat) : Option Nat :=
  if id = 0 ∨ templates.maxBytes.length < id then none else some (templates.maxBytes.getD (id - 1) 0)

def addTemplate (templates : TemplateTable) (total id : Nat) : Except TableError Nat :=
  match templateMaximum templates id with
  | none => .error .invalidTemplateReference
  | some maximum =>
    if maxRenderedExplanationBytes < total + maximum then .error .invalidExplanationTable
    else .ok (total + maximum)

-- The rationale alone is not held against the bound.
def validateRow (t : ExplanationTable) (templates : TemplateTable) (assumptionBytes cursor row : Nat) :
    Except TableError Nat :=
  let start := t.uncertaintyStarts.getD row 0
  let count := t.uncertaintyCounts.getD row 0
  if maxUncertaintyTemplates < count ∨ start ≠ cursor ∨
      t.uncertaintyTemplateIDs.length < start + count then .error .invalidExplanationTable
  else match templateMaximum templates (t.rationaleTemplateIDs.getD row 0) with
    | none => .error .invalidTemplateReference
    | some maximum => do
      let _ ← (Region.read t.uncertaintyTemplateIDs start count).foldlM (addTemplate templates)
        (assumptionBytes + maximum)
      return start + count

def validate (t : ExplanationTable) (templates : TemplateTable) : Except TableError Unit :=
  let rows := t.rationaleTemplateIDs.length
  match templates.validate with
  | .error _ => .error .invalidTemplateTable
  | .ok _ =>
    if rows = 0 ∨ t.uncertaintyStarts.length ≠ rows ∨ t.uncertaintyCounts.length ≠ rows ∨
        maxAssumptionTemplates < t.assumptionTemplateIDs.length then .error .invalidExplanationTable
    else do
      let assumptionBytes ← t.assumptionTemplateIDs.foldlM (addTemplate templates) 0
      let cursor ← (List.range rows).foldlM (t.validateRow templates assumptionBytes) 0
      if cursor ≠ t.uncertaintyTemplateIDs.length then .error .invalidExplanationTable else .ok ()

end ExplanationTable
end NornRune
