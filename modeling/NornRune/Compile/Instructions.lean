import NornRune.Compile.Constants
import NornRune.Lib.Sorted

-- The second stage of lowering: the expressions are flattened, equal instructions are shared and
-- those that nothing needs are dropped.
namespace NornRune

-- An instruction that is not yet part of a program. Operands are IDs of earlier candidates.
structure Candidate where
  opcode : Opcode
  field : Nat := 0
  value : Nat := 0
  list : List Nat := []
  operands : List Nat := []
  evidenceKind : Nat := 0
  evidenceState : Nat := 0
  evidenceSubject : Nat := 0
  evidenceScope : Nat := 0
  evidenceTiming : Nat := 0
  deriving DecidableEq, Repr

-- A row of the table of instructions: a candidate, the roles that it plays, and the first node that
-- it was made for.
structure InstructionRow extends Candidate where
  rootFlags : RootFlags
  node : Nat
  span : SourceSpan
  deriving DecidableEq, Repr

def Opcode.code : Opcode → Nat
  | .invalid => 0
  | .equal => 1
  | .notEqual => 2
  | .in => 3
  | .exists => 4
  | .less => 5
  | .lessEqual => 6
  | .greater => 7
  | .greaterEqual => 8
  | .evidence => 9
  | .all => 10
  | .any => 11
  | .not => 12
  | .boolean => 13
  | .defined => 14

def mixInstructionHash (hash value : BitVec 64) : BitVec 64 :=
  let hash := hash ^^^ (value + 0x9e3779b97f4a7c15#64 + (hash <<< 6) + (hash >>> 2))
  let hash := hash ^^^ (hash >>> 30)
  let hash := hash * 0xbf58476d1ce4e5b9#64
  hash ^^^ (hash >>> 27)

def Candidate.hash (c : Candidate) : BitVec 64 :=
  ([c.opcode.code, c.field, c.value, c.evidenceKind, c.evidenceState, c.evidenceSubject,
    c.evidenceScope, c.evidenceTiming, c.list.length] ++ c.list ++ [c.operands.length] ++
    c.operands).foldl (fun hash value => mixInstructionHash hash (BitVec.ofNat 64 value))
    0x6a09e667f3bcc909#64

structure CandidateSlot where
  hash : BitVec 64
  id : Nat
  deriving DecidableEq, Repr

-- The state of the traversal. Lists of literals and operands are kept with their instruction; of the
-- columns that hold them in the source only the lengths matter.
structure Lowering where
  nodeCanon : List Nat
  nodeState : List Document.Color
  nodeFlat : List (List Nat)
  rows : List InstructionRow
  slots : List (Option CandidateSlot)
  listLength : Nat
  operandLength : Nat

namespace Lowering

variable (l : Lowering)

-- Shares an equal candidate or appends a new one. The roles of the node are added to it.
def appendCandidate (flags : RootFlags) (node : Nat) (span : SourceSpan) (c : Candidate) :
    Except CompileError (Lowering × Nat) :=
  if l.slots.length = 0 ∨ maxUint32 ≤ l.rows.length then .error .programTooLarge
  else
    let same (slot : CandidateSlot) : Bool := slot.hash == c.hash &&
      (l.rows[slot.id - 1]?).any (fun row => slot.id != 0 && row.toCandidate == c)
    match Probe.find l.slots same c.hash.toNat with
    | .full => .error .programTooLarge
    | .entry slot => .ok ({ l with
        rows := l.rows.modify (slot.id - 1) fun row => { row with rootFlags := row.rootFlags ||| flags }
      }, slot.id)
    | .vacant slot =>
      let id := l.rows.length + 1
      .ok ({ l with
        rows := l.rows ++ [{ c with rootFlags := flags, node, span }]
        slots := l.slots.set slot (some ⟨c.hash, id⟩)
      }, id)

def appendCanonicalList (w : ValueWalk) (doc : Document) (node : Nat) :
    Except CompileError (Lowering × List Nat) :=
  match doc.inValues node with
  | none => .error .invalidDocument
  | some values =>
    if maxUint16 < values.length ∨ maxUint32 < l.listLength + values.length then
      .error .programTooLarge
    else do
      let list ← values.mapM w.canonicalValue
      return ({ l with listLength := l.listLength + values.length }, list)

-- The operands that a child of a group contributes: those of the child if it is a group of the same
-- kind, and otherwise the child itself.
def childOperands (doc : Document) (kind : NodeKind) (child : Nat) : Except CompileError (List Nat) :=
  match doc.kind child with
  | none => .error .invalidDocument
  | some childKind =>
    if childKind = kind then
      let flat := l.nodeFlat.getD (child - 1) []
      if flat = [] then .error .invalidDocument else .ok flat
    else
      let canonical := l.nodeCanon.getD (child - 1) 0
      if canonical = 0 then .error .invalidDocument else .ok [canonical]

def appendOperands (doc : Document) (kind : NodeKind) (operands : List Nat) (child : Nat) :
    Except CompileError (List Nat) := do
  let more ← l.childOperands doc kind child
  if maxUint16 < operands.length + more.length ∨
      maxUint32 < l.operandLength + operands.length + more.length then .error .programTooLarge
  else .ok (operands ++ more)

def appendGroupOperands (doc : Document) (kind : NodeKind) (node : Nat) :
    Except CompileError (List Nat) :=
  match doc.groupChildren node with
  | none => .error .invalidDocument
  | some children =>
    if children = [] then .error .invalidDocument
    else if maxUint32 < l.operandLength then .error .programTooLarge
    else children.foldlM (l.appendOperands doc kind) []

def compareOpcode : CompareOp → Option Opcode
  | .equal => some .equal
  | .notEqual => some .notEqual
  | .in => some .in
  | .exists => some .exists
  | .less => some .less
  | .lessEqual => some .lessEqual
  | .greater => some .greater
  | .greaterEqual => some .greaterEqual
  | .defined => some .defined
  | .invalid => none

def candidate (w : ValueWalk) (doc : Document) (node : Nat) (kind : NodeKind) :
    Except CompileError (Lowering × Candidate) :=
  match kind with
  | .boolean =>
    match doc.boolean node with
    | none => .error .invalidDocument
    | some value => do return (l, { opcode := .boolean, value := ← w.canonicalValue value })
  | .compare =>
    match doc.compare node with
    | none => .error .invalidDocument
    | some (field, op, value) =>
      match compareOpcode op with
      | none => .error .invalidDocument
      | some opcode =>
        if op = .in then do
          let (l, list) ← l.appendCanonicalList w doc node
          return (l, { opcode, field, list })
        else if value ≠ 0 then do return (l, { opcode, field, value := ← w.canonicalValue value })
        else .ok (l, { opcode, field })
  | .all | .any => do
    let operands ← l.appendGroupOperands doc kind node
    return ({ l with
        operandLength := l.operandLength + operands.length
        nodeFlat := l.nodeFlat.set (node - 1) operands
      }, { opcode := if kind = .all then .all else .any, operands })
  | .not =>
    match doc.notChild node with
    | none => .error .invalidDocument
    | some child =>
      if maxUint32 < l.operandLength + 1 then .error .programTooLarge
      else
        let operand := l.nodeCanon.getD (child - 1) 0
        if operand = 0 then .error .invalidDocument
        else .ok ({ l with operandLength := l.operandLength + 1 }, { opcode := .not, operands := [operand] })
  | .evidence =>
    match doc.evidenceMatch node with
    | none => .error .invalidDocument
    | some m => do
      return (l, {
        opcode := .evidence
        evidenceKind := m.kind
        evidenceState := m.state
        evidenceSubject := ← w.optionalSymbolForValue m.subject
        evidenceScope := ← w.optionalSymbolForValue m.scope
        evidenceTiming := ← w.optionalSymbolForValue m.timing
      })
  | .invalid => .error .invalidDocument

def internInstructionCandidate (w : ValueWalk) (doc : Document) (nodeRoots : List RootFlags)
    (node : Nat) : Except CompileError Lowering :=
  match doc.kind node, doc.span node with
  | some kind, some span => do
    let (l, c) ← l.candidate w doc node kind
    let (l, id) ← l.appendCandidate (nodeRoots.getD (node - 1) 0) node span c
    return { l with nodeCanon := l.nodeCanon.set (node - 1) id }
  | _, _ => .error .invalidDocument

end Lowering

def edgeCount (doc : Document) (node : Nat) : Except CompileError Nat :=
  match doc.kind node with
  | none => .error .invalidDocument
  | some .not => .ok 1
  | some .all | some .any =>
    match doc.groupRange node with
    | none => .error .invalidDocument
    | some (_, count) => .ok count
  | some _ => .ok 0

def childAt (doc : Document) (node j : Nat) : Except CompileError Nat :=
  let some' (child : Option Nat) : Except CompileError Nat :=
    match child with
    | none => .error .invalidDocument
    | some child => .ok child
  match doc.kind node with
  | some .not => some' (doc.notChild node)
  | some .all | some .any => some' ((doc.groupChildren node).bind (·[j]?))
  | _ => .error .invalidDocument

-- Follows one edge of the node on top of the stack, or makes its instruction.
def lowerStep (w : ValueWalk) (doc : Document) (nodeRoots : List RootFlags) :
    Lowering × List Document.VisitFrame →
      Lowering × List Document.VisitFrame ⊕ Except CompileError Lowering
  | (l, []) => .inr (.ok l)
  | (l, frame :: stack) =>
    let node := frame.node
    match edgeCount doc node with
    | .error e => .inr (.error e)
    | .ok count =>
      if frame.next < count then
        match childAt doc node frame.next with
        | .error e => .inr (.error e)
        | .ok child =>
          let stack := { frame with next := frame.next + 1 } :: stack
          -- Children exist in a valid document. A gray one would be part of a cycle.
          match l.nodeState.getD (child - 1) .gray with
          | .gray => .inr (.error .invalidDocument)
          | .black => .inl (l, stack)
          | .white => .inl ({ l with nodeState := l.nodeState.set (child - 1) .gray },
                        ⟨child, 0⟩ :: stack)
      else match l.internInstructionCandidate w doc nodeRoots node with
        | .error e => .inr (.error e)
        | .ok l => .inl ({ l with nodeState := l.nodeState.set (node - 1) .black }, stack)

def lowerRoot (w : ValueWalk) (doc : Document) (nodeRoots : List RootFlags) (l : Lowering)
    (root : Nat) : Except CompileError Lowering :=
  if l.nodeState.getD (root - 1) .white = .black then .ok l
  else Loop.run (.error .programTooLarge) (lowerStep w doc nodeRoots) (doc.walkRounds + 1)
    ({ l with nodeState := l.nodeState.set (root - 1) .gray }, [⟨root, 0⟩])

def markRoot (flag : RootFlags) (nodeRoots : List RootFlags) (root : Nat) :
    Except CompileError (List RootFlags) :=
  if root = 0 ∨ nodeRoots.length < root then .error .invalidDocument
  else .ok (nodeRoots.modify (root - 1) (· ||| flag))

def markRootFlags (doc : Document) (nodeCount : Nat) : Except CompileError (List RootFlags) := do
  let flags ← doc.requirementApplicabilityRoots.foldlM (markRoot .applicability)
    (List.replicate nodeCount 0#8)
  let flags ← doc.clauseAssertionRoots.foldlM (markRoot .assertion) flags
  doc.clauseEvidenceNodeIDs.foldlM (markRoot .evidence) flags

def collectRoots (doc : Document) : List Nat :=
  Sorted.sortUnique (doc.requirementApplicabilityRoots ++ doc.clauseAssertionRoots ++
    doc.clauseEvidenceNodeIDs)

def markOperand (count : Nat) (live : List Bool) (operand : Nat) : Except CompileError (List Bool) :=
  if operand = 0 ∨ count < operand then .error .invalidDocument
  else .ok (live.set (operand - 1) true)

def markLiveCandidates (rows : List InstructionRow) : Except CompileError (List Bool) :=
  (List.range rows.length).reverse.foldlM (fun live i =>
    if live.getD i false then
      ((rows[i]?.map (·.operands)).getD []).foldlM (markOperand rows.length) live
    else .ok live) (rows.map (·.rootFlags != 0#8))

def toFinal (live : List Bool) (id : Nat) : Nat :=
  if live.getD (id - 1) false then ((live.take id).filter (·)).length else 0

def finalOperand (live : List Bool) (id : Nat) : Except CompileError Nat :=
  if id = 0 ∨ live.length < id ∨ toFinal live id = 0 then .error .invalidDocument
  else .ok (toFinal live id)

def compactRow (live : List Bool) (row : InstructionRow) : Except CompileError InstructionRow := do
  return { row with operands := ← row.operands.mapM (finalOperand live) }

-- The instructions of a node: its own, or those of its operands if the node was flattened away.
def nodeInstructions (live : List Bool) (canonical : Nat) (flat : List Nat) :
    Except CompileError (List Nat) :=
  if canonical = 0 ∨ live.length < canonical then .error .invalidDocument
  else if toFinal live canonical ≠ 0 then .ok [toFinal live canonical]
  else if flat = [] then .error .invalidDocument
  else flat.mapM (finalOperand live)

-- The instructions of a program in some order in which operands come first, and the instructions of
-- each node of the document.
structure InstructionTable where
  rows : List InstructionRow
  nodeMap : List (List Nat)

def compactInstructions (doc : Document) (l : Lowering) : Except CompileError InstructionTable := do
  let live ← markLiveCandidates l.rows
  let kept := (l.rows.zip live).filterMap fun (row, live) => if live then some row else none
  if maxUint32 < (kept.map (·.list.length)).sum ∨ maxUint32 < (kept.map (·.operands.length)).sum then
    .error .programTooLarge
  else do
    let rows ← kept.mapM (compactRow live)
    let nodeMap ← (List.range doc.len).mapM fun i =>
      nodeInstructions live (l.nodeCanon.getD i 0) (l.nodeFlat.getD i [])
    if maxUint32 < (nodeMap.map List.length).sum then .error .programTooLarge
    else return ⟨rows, nodeMap⟩

def candidates (w : ValueWalk) (doc : Document) : Except CompileError Lowering :=
  let nodeCount := doc.len
  if maxUint32 ≤ nodeCount ∨ maxUint32 ≤ doc.listValueIDs.length ∨
      maxUint32 ≤ doc.childNodeIDs.length + doc.notChildren.length then .error .programTooLarge
  else do
    let nodeRoots ← markRootFlags doc nodeCount
    (collectRoots doc).foldlM (lowerRoot w doc nodeRoots) {
      nodeCanon := List.replicate nodeCount 0
      nodeState := List.replicate nodeCount .white
      nodeFlat := List.replicate nodeCount []
      rows := []
      slots := List.replicate (slotSize nodeCount) none
      listLength := 0
      operandLength := 0
    }

def lowerCandidates (w : ValueWalk) (doc : Document) : Except CompileError InstructionTable :=
  candidates w doc >>= compactInstructions doc

end NornRune
