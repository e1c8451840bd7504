import NornRune.Compile.Instructions
import NornRune.Execution.Row

-- What the expressions of a document say about a request, read off the document itself: without
-- instructions, slots and schedules.
namespace NornRune.Document

variable (d : Document) (fields : FieldIndex) (symbolID : List Byte → Option Nat)

def predicateValue (id : Nat) : Option PredicateValue :=
  match d.literalValueKind id with
  | some .symbol => do return { symbol := ← symbolID (← d.symbolValue id) }
  | some .integer => do return { integer := ← d.integerValue id }
  | some .boolean => do return { boolean := ← d.booleanValue id }
  | some .timestamp => do return { timestamp := ← d.timestampValue id }
  | _ => none

def compareOperand (node : Nat) (op : CompareOp) (value : Nat) : Option Operand :=
  match op with
  | .exists | .defined => some .none
  | .in => do return .list (← (← d.inValues node).mapM (d.predicateValue symbolID))
  | _ => do return .value (← d.predicateValue symbolID value)

def comparePredicate (node : Nat) : Option Predicate := do
  let (field, op, value) ← d.compare node
  let opcode ← Lowering.compareOpcode op
  let (kind, column) ← fields.lookup field
  return ⟨opcode, field, kind, column, ← d.compareOperand symbolID node op value⟩

def qualifierID (value : Nat) : Option Nat :=
  if value = 0 then some 0 else do symbolID (← d.symbolValue value)

def evidencePredicate (node : Nat) : Option EvidencePredicate := do
  let m ← d.evidenceMatch node
  return ⟨m.kind, m.state, ← d.qualifierID symbolID m.subject, ← d.qualifierID symbolID m.scope,
    ← d.qualifierID symbolID m.timing⟩

def leaf (node : Nat) : Option Instr :=
  match d.kind node with
  | some .boolean => do return .constant (← d.booleanValue (← d.boolean node))
  | some .compare => do return .predicate (← d.comparePredicate fields symbolID node)
  | some .evidence => do return .evidence (← d.evidencePredicate symbolID node)
  | _ => none

-- The truth and the reasons of a node on a request. A tree is never deeper than the document is long.
def lane (stateReasons : List Nat) (facts : Row) : (depth : Nat) → (node : Nat) → Option Lane
  | 0, _ => none
  | depth + 1, node =>
    match d.kind node with
    | some .all => do return Lane.all (← (← d.groupChildren node).mapM (lane stateReasons facts depth))
    | some .any => do return Lane.any (← (← d.groupChildren node).mapM (lane stateReasons facts depth))
    | some .not => do return (← lane stateReasons facts depth (← d.notChild node)).not
    | _ => do
      return (← d.leaf fields symbolID node).lane stateReasons facts fun _ => ⟨.bottom, 0#16⟩

end NornRune.Document

namespace NornRune

-- A policy of one requirement with one clause. Its first node asks whether the field `flag` exists,
-- the clause asserts that, and the requirement applies if the node `root` holds.
def flagPolicy (nodeKinds : List NodeKind) (nodeRefs groupChildStarts groupChildCounts childNodeIDs
    notChildren : List Nat) (root : Nat) : Document where
  nodeKinds := nodeKinds
  nodeRefs := nodeRefs
  templateBytes := []
  templateOpStarts := [0, 0]
  templateOpCounts := [0, 0]
  templateLiteralStarts := [0, 0]
  templateMaxBytes := [0, 0]
  templateContexts := [.decision, .unresolved]
  templateOps := []
  templateArgs := []
  assumptionTemplateIDs := []
  assumptionsSet := [1]
  explanationRationaleIDs := [1, 2]
  explanationUncertaintyStarts := [0, 0]
  explanationUncertaintyCounts := [0, 0]
  explanationUncertaintyIDs := []
  compareFields := [1]
  compareOps := [.exists]
  compareValues := [0]
  compareListStarts := [0]
  compareListCounts := [0]
  listValueIDs := []
  groupChildStarts := groupChildStarts
  groupChildCounts := groupChildCounts
  childNodeIDs := childNodeIDs
  notChildren := notChildren
  evidenceKinds := []
  evidenceStates := []
  evidenceSubjects := []
  evidenceScopes := []
  evidenceTimings := []
  evidenceIssueTemplateIDs := []
  sourceStarts := nodeKinds.map fun _ => 0
  sourceEnds := nodeKinds.map fun _ => 0
  inputBytes := []
  valueKinds := [.symbol, .symbol, .symbol]
  valueRefs := [0, 1, 2]
  symbolStarts := [0, 1, 2]
  symbolLengths := [1, 1, 6]
  symbolBytes := bytes "p1permit"
  integerValues := []
  booleanValues := []
  timestampValues := []
  evidenceKindNames := []
  evidenceKindSourceStarts := []
  evidenceKindSourceEnds := []
  evidenceStateNames := []
  evidenceStateSourceStarts := []
  evidenceStateSourceEnds := []
  outcomeNames := [3]
  outcomePrecedence := [1]
  outcomeTerminal := [true]
  outcomeSourceStarts := [0]
  outcomeSourceEnds := [0]
  remediationKinds := []
  remediationFields := []
  remediationValues := []
  remediationEvidenceKinds := []
  remediationSourceStarts := []
  remediationSourceEnds := []
  clauseAssertionRoots := [1]
  clauseEvidenceStarts := [0]
  clauseEvidenceCounts := [0]
  clauseEvidenceNodeIDs := []
  clauseRemediationStarts := [0]
  clauseRemediationCounts := [0]
  clauseRemediationIDs := []
  clauseOnSatisfied := [1]
  clauseOnFalse := [1]
  clauseOnMissing := [1]
  clauseOnStale := [1]
  clauseOnUnclear := [1]
  clauseOnUnverifiable := [1]
  clauseOnConflict := [1]
  clauseExplanationIDs := [1, 1, 2, 2, 2, 2, 2]
  clauseSourceStarts := [0]
  clauseSourceEnds := [0]
  requirementIDs := [7]
  requirementApplicabilityRoots := [root]
  requirementClauseStarts := [0]
  requirementClauseCounts := [1]
  requirementClauseIDs := [1]
  requirementSourceStarts := [0]
  requirementSourceEnds := [0]
  metadata := ⟨1, 2, true⟩

def flagSchema : Schema := ⟨[1], [.boolean], [.subject], rfl, rfl, by decide, by decide⟩

def flagSymbols : Interner := fun name => if name = 1 then some (bytes "flag") else none

def nestedPolicy : Document :=
  flagPolicy [.compare, .not, .any, .all, .all] [0, 0, 0, 1, 2] [0, 2, 4] [2, 2, 2] [1, 2, 3, 1, 4, 3] [1] 5

end NornRune
