import NornRune.Objects.Document

namespace NornRune

inductive DiagnosticCode
  | invalidDocument
  | columnLength
  | invalidSourceSpan
  | invalidNodeKind
  | invalidPayloadRef
  | invalidCSRRange
  | invalidNodeReference
  | invalidField
  | invalidValue
  | typeMismatch
  | invalidArity
  | invalidEvidence
  | invalidOutcome
  | missingResolution
  | invalidRemediation
  | duplicateID
  | duplicateName
  | cycle
  | unreachableNode
  | invalidID
  | invalidTemplate
  | invalidExplanation
  | missingExplanation
  deriving DecidableEq, Repr

inductive TableKind
  | invalid
  | document
  | node
  | compare
  | group
  | not
  | evidenceNode
  | value
  | evidenceKind
  | evidenceState
  | outcome
  | remediation
  | clause
  | requirement
  | template
  | explanation
  deriving DecidableEq, Repr

inductive MemberKind
  | invalid
  | id
  | name
  | recordKind
  | payload
  | span
  | field
  | operation
  | value
  | values
  | children
  | child
  | evidenceKind
  | evidenceState
  | assertion
  | evidence
  | remediations
  | remediation
  | applicability
  | clauses
  | clause
  | outcomeSatisfied
  | outcomeFalse
  | outcomeMissing
  | outcomeStale
  | outcomeUnclear
  | outcomeUnverifiable
  | outcomeConflict
  | metadataName
  | metadataVersion
  | context
  | template
  | rationale
  | uncertainty
  | assumptions
  | explanationSatisfied
  | explanationFalse
  | explanationMissing
  | explanationStale
  | explanationUnclear
  | explanationUnverifiable
  | explanationConflict
  deriving DecidableEq, Repr

-- A defect of a document: what is wrong, in which table, row and member, and which IDs it is about.
structure Diagnostic where
  code : DiagnosticCode
  table : TableKind
  member : MemberKind := .invalid
  row : Nat := 0
  span : SourceSpan := .zero
  node : Nat := 0
  clause : Nat := 0
  requirement : Nat := 0
  field : Nat := 0
  value : Nat := 0
  outcome : Nat := 0
  remediation : Nat := 0
  evidenceKind : Nat := 0
  evidenceState : Nat := 0
  deriving DecidableEq, Repr

namespace Diagnostic

def when (defect : Bool) (d : Diagnostic) : List Diagnostic :=
  if defect then [d] else []

@[simp]
theorem when_eq_nil_iff {defect : Bool} {d : Diagnostic} : when defect d = [] ↔ defect = false := by
  cases defect <;> simp [when]

def rows (n : Nat) (check : Nat → List Diagnostic) : List Diagnostic :=
  (List.range n).flatMap check

@[simp]
theorem rows_eq_nil_iff {n : Nat} {check : Nat → List Diagnostic} :
    rows n check = [] ↔ ∀ i < n, check i = [] := by
  simp [rows]

def each (ids : List Nat) (check : Nat → List Diagnostic) : List Diagnostic :=
  ids.flatMap check

@[simp]
theorem each_eq_nil_iff {ids : List Nat} {check : Nat → List Diagnostic} :
    each ids check = [] ↔ ∀ id ∈ ids, check id = [] := by
  simp [each]

end Diagnostic

def safeMin : List Nat → Nat
  | [] => 0
  | n :: ns => ns.foldl min n

def validRange (start count total : Nat) : Bool :=
  decide (start ≤ total) && decide (count ≤ total - start)

theorem validRange_eq_true_iff {start count total : Nat} :
    validRange start count total = true ↔ start + count ≤ total := by
  simp only [validRange, Bool.and_eq_true, decide_eq_true_eq]
  omega

def validOwnerSpan (start stop inputBytes : Nat) : Option SourceSpan :=
  if SourceSpan.valid ⟨start, stop⟩ inputBytes then some ⟨start, stop⟩ else none

namespace Document

variable (d : Document)

def nodeInRange (id : Nat) : Bool := id != 0 && decide (id ≤ d.nodeKinds.length)

def validNodeSpan (i : Nat) : SourceSpan :=
  match d.sourceStarts[i]?, d.sourceEnds[i]? with
  | some start, some stop => (validOwnerSpan start stop d.inputBytes.length).getD .zero
  | _, _ => .zero

def literalKind : ValueKind → Bool
  | .symbol | .integer | .boolean | .timestamp => true
  | _ => false

def orderedKind : ValueKind → Bool
  | .integer | .timestamp => true
  | _ => false

def literalValueKind (id : Nat) : Option ValueKind := do
  let i ← d.valueIndex id
  let kind ← d.valueKinds[i]?
  if literalKind kind then some kind else none

def valueRefValid (kind : ValueKind) (ref : Nat) : Bool :=
  match kind with
  | .symbol => decide (ref < d.symbolStarts.length) && decide (ref < d.symbolLengths.length) &&
    validRange (d.symbolStarts.getD ref 0) (d.symbolLengths.getD ref 0) d.symbolBytes.length
  | .integer => decide (ref < d.integerValues.length)
  | .boolean => decide (ref < d.booleanValues.length) && decide (d.booleanValues.getD ref 0 ≤ 1)
  | .timestamp => decide (ref < d.timestampValues.length)
  | _ => false

def structuralLiteralKind (id : Nat) : Option ValueKind := do
  let kind ← d.literalValueKind id
  if d.valueRefValid kind (d.valueRefs.getD (id - 1) 0) then some kind else none

def nodeRefValid (kind : NodeKind) (ref : Nat) : Bool :=
  match kind with
  | .boolean => ref != 0 && decide (ref ≤ d.valueKinds.length) && decide (ref ≤ d.valueRefs.length)
  | .compare => decide (ref < safeMin [d.compareFields.length, d.compareOps.length,
    d.compareValues.length, d.compareListStarts.length, d.compareListCounts.length])
  | .all | .any => decide (ref < min d.groupChildStarts.length d.groupChildCounts.length)
  | .not => decide (ref < d.notChildren.length)
  | .evidence => decide (ref < min d.evidenceKinds.length d.evidenceStates.length)
  | .invalid => false

end Document
end NornRune
