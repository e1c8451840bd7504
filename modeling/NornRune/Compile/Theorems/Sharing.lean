import NornRune.Compile.Theorems.Literals
import NornRune.Compile.Theorems.Trace

open Checked

-- Nodes that share an instruction say the same, a group says what its flat operands say, and what is
-- dropped later on is what no root needs.
namespace NornRune

def Literal.predicateValue (symbolID : List Byte → Nat) : Literal → PredicateValue
  | symbol b => { symbol := symbolID b }
  | integer i => { integer := i }
  | boolean b => { boolean := b }
  | timestamp t => { timestamp := t }

namespace ValueWalk

variable (w : ValueWalk) (symbolID : List Byte → Nat)

def predicateValue (v : Nat) : PredicateValue :=
  ((w.literalOf v).map (Literal.predicateValue symbolID)).getD {}

def qualifierID (s : Nat) : Nat :=
  if s = 0 then 0 else ((w.symbols.symbol s).map symbolID).getD 0

end ValueWalk

namespace Candidate

variable (w : ValueWalk) (index : FieldIndex) (symbolID : List Byte → Nat) (c : Candidate)

def comparesWith : Operand :=
  match c.opcode with
  | .exists | .defined => .none
  | .in => .list (c.list.map (w.predicateValue symbolID))
  | _ => .value (w.predicateValue symbolID c.value)

def comparePredicate : Predicate :=
  let (kind, column) := (index.lookup c.field).getD (.invalid, 0)
  ⟨c.opcode, c.field, kind, column, c.comparesWith w symbolID⟩

def evidencePredicate : EvidencePredicate :=
  ⟨c.evidenceKind, c.evidenceState, w.qualifierID symbolID c.evidenceSubject,
    w.qualifierID symbolID c.evidenceScope, w.qualifierID symbolID c.evidenceTiming⟩

-- What a candidate without operands asks for. This is read off the candidate and the constants, and
-- does not depend on the nodes that share the candidate.
def leaf : Instr :=
  match c.opcode with
  | .boolean => .constant (w.predicateValue symbolID c.value).boolean
  | .evidence => .evidence (c.evidencePredicate w symbolID)
  | _ => .predicate (c.comparePredicate w index symbolID)

end Candidate

section Leaf

variable {doc : Document} {fields : Schema} {w : ValueWalk} {names : List (List Byte)} {n : Nat}
  {index : FieldIndex} (symbolID : List Byte → Nat)

theorem Document.predicateValue_eq (doc : Document) (id : Nat) :
    doc.predicateValue (some ∘ symbolID) id = (doc.literalOf id).map (Literal.predicateValue symbolID) := by
  unfold Document.predicateValue Document.literalOf
  cases doc.literalValueKind id
  case none => rfl
  case some kind =>
    cases kind
    case symbol => cases doc.symbolValue id <;> rfl
    case integer => cases doc.integerValue id <;> rfl
    case boolean => cases doc.booleanValue id <;> rfl
    case timestamp => cases doc.timestampValue id <;> rfl
    all_goals rfl

namespace ValueWalk.Sound

variable (h : w.Sound doc names n)
include h

theorem predicateValue_eq {id v : Nat} (hv : w.canonicalValue id = .ok v) :
    doc.predicateValue (some ∘ symbolID) id = some (w.predicateValue symbolID v) := by
  have ⟨payload, hp, hs⟩ := h.canonicalValue_eq_ok hv
  have ⟨x, hx, hpx⟩ := hp.literalOf
  have hw : w.literalOf v = some x := (hs.literalOf h.symbols).trans hpx
  rw [doc.predicateValue_eq, ValueWalk.predicateValue, hx, hw, Option.map_some, Option.getD_some]

theorem qualifierID_eq {id s : Nat} (hs : w.optionalSymbolForValue id = .ok s) :
    doc.qualifierID (some ∘ symbolID) id = some (w.qualifierID symbolID s) := by
  unfold ValueWalk.optionalSymbolForValue at hs
  split at hs
  case isTrue h0 =>
    cases hs
    rw [Document.qualifierID, if_pos h0]
    rfl
  case isFalse h0 =>
    obtain ⟨hs0, b, hb, hn⟩ := h.symbolForValue_eq_ok hs
    simp [Document.qualifierID, ValueWalk.qualifierID, h0, hs0, hb, h.symbols.symbol_eq hs0, hn]

theorem predicateValues_eq {ids vs : List Nat} (hv : ids.mapM w.canonicalValue = .ok vs) :
    ids.mapM (doc.predicateValue (some ∘ symbolID)) = some (vs.map (w.predicateValue symbolID)) := by
  replace hv := forall₂_of_mapM_eq_ok hv
  induction hv
  case nil => rfl
  case cons id v ids vs hv _ ih =>
    rw [List.mapM_cons, h.predicateValue_eq symbolID hv, ih]
    rfl

end ValueWalk.Sound

theorem Made.leaf_eq (valid : doc.Validated fields) (h : w.Sound doc names n)
    (hi : FieldIndex.build fields.kinds = .ok index) {canon : Nat → Nat} {flat : Nat → List Nat}
    {node : Nat} {cand : Candidate} (made : Made w doc canon flat node cand)
    (hleaf : ¬cand.opcode.Composite) :
    doc.leaf index (some ∘ symbolID) node = some (cand.leaf w index symbolID) := by
  have lookup : ∀ {field op value}, doc.kind node = some .compare →
      doc.compare node = some (field, op, value) →
      ∃ kind column, index.lookup field = some (kind, column) ∧
        doc.CompareNode node op value kind := by
    intro field op value hk hc
    obtain ⟨kind, hkind, cn⟩ := valid.compareNode hk hc
    simp only [Schema.kind, Option.ite_none_left_eq_some] at hkind
    obtain ⟨column, hl, _⟩ := FieldIndex.lookup_of_build hi hkind.1 hkind.2
    exact ⟨kind, column, hl, cn⟩
  cases made
  case group kind children _ _ _ _ => exact absurd (NodeKind.composite_group kind) hleaf
  case not => exact absurd (.inr (.inr rfl)) hleaf
  case boolean value v hk hb hc =>
    obtain ⟨b, hvalue⟩ := doc.booleanValue_of_boolean hb
    have hp : doc.HasPayload names value (.boolean b) := hvalue
    have hw := h.predicateValue_eq symbolID hc
    simp only [Document.predicateValue, hp.kind, Payload.kind, hvalue] at hw
    simp [Document.leaf, hk, hb, hvalue, Candidate.leaf, ← Option.some.inj hw]
  case listed field value values list hk hc hv hl =>
    obtain ⟨kind, column, hlookup, _⟩ := lookup hk hc
    simp [Document.leaf, hk, Document.comparePredicate, hc, Lowering.compareOpcode, Candidate.leaf,
      Document.compareOperand, hv, Candidate.comparePredicate, Candidate.comparesWith, hlookup,
      h.predicateValues_eq symbolID hl]
  case single field value v op opcode hk hc ho hn hg hv =>
    obtain ⟨kind, column, hlookup, _⟩ := lookup hk hc
    cases op
    case «in» => exact absurd rfl hn
    case invalid => cases ho
    all_goals
      cases ho
      simp [Document.leaf, hk, Document.comparePredicate, hc, Lowering.compareOpcode, Candidate.leaf,
        Document.compareOperand, Candidate.comparePredicate, Candidate.comparesWith, hlookup,
        h.predicateValue_eq symbolID hv]
  case bare field op opcode hk hc ho hn =>
    obtain ⟨kind, column, hlookup, cn⟩ := lookup hk hc
    cases op
    case «exists» | defined =>
      cases ho
      simp [Document.leaf, hk, Document.comparePredicate, hc, Lowering.compareOpcode, Candidate.leaf,
        Document.compareOperand, Candidate.comparePredicate, Candidate.comparesWith, hlookup]
    case «in» => exact absurd rfl hn
    case invalid => cases ho
    all_goals exact absurd rfl (cn.single rfl).1
  case evidence m subject scope timing hk hm hs hc ht =>
    simp [Document.leaf, hk, Document.evidencePredicate, hm, Candidate.leaf,
      Candidate.evidencePredicate, h.qualifierID_eq symbolID hs, h.qualifierID_eq symbolID hc,
      h.qualifierID_eq symbolID ht]

def Candidate.leafLane (w : ValueWalk) (index : FieldIndex) (symbolID : List Byte → Nat)
    (stateReasons : List Nat) (facts : Row) (c : Candidate) : Lane :=
  (c.leaf w index symbolID).lane stateReasons facts fun _ => ⟨.bottom, 0#16⟩

theorem leavesAgree_of_constants (valid : doc.Validated fields) (h : w.Sound doc names n)
    (hi : FieldIndex.build fields.kinds = .ok index) (canon : Nat → Nat) (flat : Nat → List Nat)
    (stateReasons : List Nat) (facts : Row) :
    LeavesAgree doc w canon flat index (some ∘ symbolID) stateReasons facts
      (Candidate.leafLane w index symbolID stateReasons facts) :=
  fun _ _ made hleaf => ⟨_, made.leaf_eq symbolID valid h hi hleaf, rfl⟩

end Leaf

theorem exists_fieldIndex {doc : Document} {fields : Schema} {symbols : Interner} {c : Constants}
    (h : lowerConstants doc fields symbols = .ok c) :
    ∃ index, FieldIndex.build fields.kinds = .ok index := by
  simp only [lowerConstants] at h
  obtain ⟨_, h⟩ := of_guard h
  obtain ⟨symCap, hcap, _⟩ := of_bind h
  obtain ⟨hle, _⟩ := of_guard hcap
  have hkinds := fields.length_kinds
  have hlen : ¬maxUint32 < fields.kinds.length := by
    simp only [not_or, Schema.len] at hle
    omega
  have hall : fields.kinds.all ValueKind.valid := List.all_eq_true.mpr fields.kinds_valid
  simp [FieldIndex.build, hlen, hall]

section Compaction

variable {doc : Document} {w : ValueWalk} {nodeRoots : List RootFlags} {l : Lowering}
  {order : List Nat} {live : List Bool}

inductive Reachable (doc : Document) (l : Lowering) : Nat → Prop
  | root {node : Nat} (mem : node ∈ collectRoots doc) : Reachable doc l (l.canon node)
  | operand {i o : Nat} {row : InstructionRow} (user : Reachable doc l (i + 1))
      (get : l.rows[i]? = some row) (mem : o ∈ row.operands) : Reachable doc l o

theorem exists_getLsbD_iff {flags : RootFlags} : (∃ b, flags.getLsbD b) ↔ flags ≠ 0#8 := by
  rw [← not_iff_not, not_exists, not_not]
  constructor
  case mp =>
    intro h
    exact BitVec.eq_of_getLsbD_eq fun i _ => by simpa using h i
  case mpr =>
    rintro rfl b
    simp

theorem exists_role_iff (h : markRootFlags doc doc.len = .ok nodeRoots) {n : Nat}
    (hn : doc.nodeInRange n) :
    (∃ b, (nodeRoots.getD (n - 1) 0#8).getLsbD b) ↔ n ∈ collectRoots doc := by
  have ⟨h0, hlt⟩ := Lowering.nodeInRange_iff.mp hn
  have ⟨_, _, hflags⟩ := markRootFlags_eq_ok h
  rw [exists_getLsbD_iff, hflags _ hlt, Nat.sub_add_cancel (Nat.pos_of_ne_zero h0), collectRoots,
    Sorted.mem_sortUnique, List.mem_append, List.mem_append]
  by_cases h₁ : n ∈ doc.requirementApplicabilityRoots <;>
    by_cases h₂ : n ∈ doc.clauseAssertionRoots <;>
      by_cases h₃ : n ∈ doc.clauseEvidenceNodeIDs <;>
        simp [h₁, h₂, h₃, RootFlags.applicability, RootFlags.assertion, RootFlags.evidence]

theorem Lowering.Sound.rootFlags_ne_zero_iff (sound : Sound w doc nodeRoots l order)
    (h : markRootFlags doc doc.len = .ok nodeRoots) {i : Nat} {row : InstructionRow}
    (hi : l.rows[i]? = some row) :
    row.rootFlags ≠ 0#8 ↔ ∃ n ∈ order, l.canon n = i + 1 ∧ n ∈ collectRoots doc := by
  rw [← exists_getLsbD_iff]
  constructor
  case mp =>
    intro ⟨b, hb⟩
    have ⟨n, hn, hc, hr⟩ := (sound.flags i row hi b).mp hb
    exact ⟨n, hn, hc, (exists_role_iff h (sound.inRange n hn)).mp ⟨b, hr⟩⟩
  case mpr =>
    intro ⟨n, hn, hc, hm⟩
    have ⟨b, hb⟩ := (exists_role_iff h (sound.inRange n hn)).mpr hm
    exact ⟨b, (sound.flags i row hi b).mpr ⟨n, hn, hc, hb⟩⟩

theorem LiveFrom.reachable (marked : LiveFrom l.rows 0 live) (sound : Lowering.Sound w doc nodeRoots l order)
    (h : markRootFlags doc doc.len = .ok nodeRoots) {i : Nat} (hi : i < l.rows.length)
    (hl : live.getD i false) : Reachable doc l (i + 1) := by
  -- A user of a row comes after it, so that this is an induction from the last row.
  induction hk : l.rows.length - i using Nat.strong_induction_on generalizing i
  case h k ih =>
    have hrow : l.rows[i]? = some l.rows[i] := List.getElem?_eq_getElem hi
    rcases marked.used i _ hrow hl with hroot | ⟨c, user, hu, hc, hm⟩
    case inl =>
      have ⟨n, _, hn, hm⟩ := (sound.rootFlags_ne_zero_iff h hrow).mp hroot
      exact hn ▸ .root hm
    case inr =>
      have hlt := (List.getElem?_eq_some_iff.mp hu).1
      have := sound.ordered c user hu (i + 1) hm
      exact .operand (ih (l.rows.length - c) (by omega) hlt hc rfl) hu hm

theorem LiveFrom.of_reachable (marked : LiveFrom l.rows 0 live)
    (sound : Lowering.Sound w doc nodeRoots l order) (h : markRootFlags doc doc.len = .ok nodeRoots)
    (hroots : ∀ root ∈ collectRoots doc, root ∈ order) {id : Nat} (hid : Reachable doc l id) :
    live.getD (id - 1) false := by
  induction hid
  case root n hn =>
    have ⟨row, h0, hrow, _⟩ := sound.made n (hroots n hn)
    refine marked.root _ row hrow ((sound.rootFlags_ne_zero_iff h hrow).mpr ⟨n, hroots n hn, ?_, hn⟩)
    omega
  case operand i o row user get mem ih => exact marked.operand i row (Nat.zero_le _) get ih o mem

theorem Reachable.bounds (sound : Lowering.Sound w doc nodeRoots l order)
    (hroots : ∀ root ∈ collectRoots doc, root ∈ order) {id : Nat} (h : Reachable doc l id) :
    id ≠ 0 ∧ id ≤ l.rows.length := by
  cases h
  case root n hn => exact sound.canon_le (hroots n hn)
  case operand i row user get mem =>
    have hlt := (List.getElem?_eq_some_iff.mp get).1
    have := sound.ordered i row get id mem
    omega

theorem operands_of_nodeInstructions {canonical : Nat} {flat ids : List Nat}
    (h : nodeInstructions live canonical flat = .ok ids) (hdead : ¬live.getD (canonical - 1) false) :
    ∀ o ∈ flat, o ≠ 0 ∧ o ≤ live.length ∧ toFinal live o ≠ 0 := by
  have ⟨_, h⟩ := of_guard h
  have hzero : toFinal live canonical = 0 := if_neg hdead
  rw [if_neg (not_not.mpr hzero)] at h
  have ⟨_, h⟩ := of_guard h
  intro o ho
  have ⟨i, hi⟩ := List.mem_iff_getElem?.mp ho
  have ⟨o', _, ho'⟩ := getElem?_of_mapM_eq_ok h hi
  exact (finalOperand_eq_ok ho').2

theorem toFinal_lt {i j : Nat} (hi : live.getD i false) (hj : live.getD j false) (hij : i < j) :
    toFinal live (i + 1) < toFinal live (j + 1) := by
  rw [toFinal_succ hi, toFinal_succ hj]
  have hlt : i < live.length := by
    by_contra hge
    rw [List.getD_eq_default _ _ (Nat.not_lt.mp hge)] at hi
    cases hi
  have htake : live.take (i + 1) <+: live.take j := List.take_prefix_take_left hij
  have hle := (htake.sublist.filter (·)).length_le
  rw [List.getD_eq_getElem _ _ hlt] at hi
  rw [List.take_succ_eq_append_getElem hlt, List.filter_append, hi, List.length_append] at hle
  simp only [List.filter_cons_of_pos, List.filter_nil, List.length_singleton] at hle
  omega

-- The candidates that are reachable from the roots are kept, in order and under new IDs, and the
-- nodes refer to them.
structure Renumbered (doc : Document) (l : Lowering) (t : InstructionTable) (f : Nat → Nat) : Prop where
  image : Image l.rows t.rows (Reachable doc l) f
  ordered : ∀ id id', Reachable doc l id → Reachable doc l id' → id < id' → f id < f id'
  node : ∀ n, doc.nodeInRange n → Reachable doc l (l.canon n) →
    t.nodeMap[n - 1]? = some [f (l.canon n)]
  dissolved : ∀ n, doc.nodeInRange n → ¬Reachable doc l (l.canon n) →
    t.nodeMap[n - 1]? = some ((l.flat n).map f) ∧ ∀ o ∈ l.flat n, Reachable doc l o

theorem compactInstructions_renumbered {t : InstructionTable} (sound : Lowering.Sound w doc nodeRoots l order)
    (h : markRootFlags doc doc.len = .ok nodeRoots) (hroots : ∀ root ∈ collectRoots doc, root ∈ order)
    (ht : compactInstructions doc l = .ok t) : ∃ f, Renumbered doc l t f := by
  have ⟨live, compacted, _, hnodes⟩ := compactInstructions_eq_ok sound.ordered ht
  have marked := compacted.marked
  have hlive : ∀ id, Reachable doc l id → live.getD (id - 1) false :=
    fun id hid => marked.of_reachable sound h hroots hid
  have hkept : ∀ i < l.rows.length, live.getD i false → Reachable doc l (i + 1) :=
    fun i hi hl => marked.reachable sound h hi hl
  have hnode : ∀ n, doc.nodeInRange n → l.canon n ≠ 0 ∧
      ∃ ids, t.nodeMap[n - 1]? = some ids ∧ nodeInstructions live (l.canon n) (l.flat n) = .ok ids := by
    intro n hn
    have ⟨ids, hids, hok⟩ := hnodes (n - 1) (Lowering.nodeInRange_iff.mp hn).2
    exact ⟨(nodeInstructions_eq_ok hok).1, ids, hids, hok⟩
  refine ⟨toFinal live, ⟨fun i row hi hr => compacted.row i row hi (hlive _ hr), fun j row' hj => ?_,
    fun i row hi hr o ho => .operand hr hi ho⟩, fun id id' hid hid' hlt => ?_, fun n hn hr => ?_,
    fun n hn hr => ?_⟩
  case refine_1 =>
    have ⟨i, row, hi, hl, hf, he⟩ := compacted.origin j row' hj
    exact ⟨i, row, hi, hkept i (List.getElem?_eq_some_iff.mp hi).1 hl, hf, he⟩
  case refine_2 =>
    have hl := hlive id hid
    have hl' := hlive id' hid'
    have h0 := (hid.bounds sound hroots).1
    have := toFinal_lt hl hl' (by omega)
    rwa [Nat.sub_add_cancel (by omega), Nat.sub_add_cancel (by omega)] at this
  case refine_3 =>
    have ⟨_, ids, hids, hok⟩ := hnode n hn
    rw [hids, (nodeInstructions_eq_ok hok).2, if_pos (hlive _ hr)]
  case refine_4 =>
    have ⟨h0, ids, hids, hok⟩ := hnode n hn
    have hn' : n ∈ order := by_contra fun hno => h0 (sound.unmade n hn hno)
    have hdead : ¬live.getD (l.canon n - 1) false := by
      intro hl
      have := hkept (l.canon n - 1) (by have := sound.canon_le hn'; omega) hl
      rw [Nat.sub_add_cancel (Nat.pos_of_ne_zero h0)] at this
      exact hr this
    refine ⟨by rw [hids, (nodeInstructions_eq_ok hok).2, if_neg hdead], fun o ho => ?_⟩
    have ⟨ho0, hle, hfinal⟩ := operands_of_nodeInstructions hok hdead o ho
    have := hkept (o - 1) (by rw [marked.length] at hle; omega) (live_of_toFinal hfinal)
    rwa [Nat.sub_add_cancel (Nat.pos_of_ne_zero ho0)] at this

end Compaction

section Sharing

variable {doc : Document} {fields : Schema} {symbols : Interner} {c : Constants} {l : Lowering}

-- The flat operands of a group are those that its members contribute, in order: the flat operands of
-- a member that is a group of the same kind, and the instruction of any other member.
structure Flattened (doc : Document) (l : Lowering) (n : Nat) (kind : NodeKind) : Prop where
  operands : ∃ children, doc.groupChildren n = some children ∧
    l.flat n = children.flatMap (contribution doc l.canon l.flat kind)
  row : ∃ row, l.rows[l.canon n - 1]? = some row ∧ row.operands = l.flat n ∧
    row.opcode = if kind = .all then .all else .any

theorem Lowering.Sound.flattened {w : ValueWalk} {nodeRoots : List RootFlags} {order : List Nat}
    (sound : Sound w doc nodeRoots l order) {n : Nat} (hn : n ∈ order) {kind : NodeKind}
    (hk : doc.kind n = some kind) (hg : kind.group) : Flattened doc l n kind := by
  have ⟨row, _, hrow, made, hflat⟩ := sound.made n hn
  have ⟨children, hch, _, he⟩ := made.of_group hk hg
  have hoperands : row.operands = children.flatMap (contribution doc l.canon l.flat kind) :=
    congrArg (·.operands) he
  exact ⟨⟨children, hch, (hflat kind hk hg).trans hoperands⟩, row, hrow, (hflat kind hk hg).symm,
    congrArg (·.opcode) he⟩

-- The values of the candidates are those of the nodes, and a group has the value of its flat operands.
structure Denotes (doc : Document) (l : Lowering) (lane : Nat → Option Lane) (v : Nat → Lane) : Prop where
  node : ∀ n, doc.nodeInRange n → l.canon n ≠ 0 → lane n = some (v (l.canon n))
  group : ∀ n kind, doc.nodeInRange n → l.canon n ≠ 0 → doc.kind n = some kind → kind.group →
    Flattened doc l n kind ∧ lane n = some (Lane.group kind ((l.flat n).map v))

theorem Lowering.Sound.denotes {names : List (List Byte)} {w : ValueWalk} {nodeRoots : List RootFlags}
    {order : List Nat} {index : FieldIndex} (sound : Sound w doc nodeRoots l order)
    (valid : doc.Validated fields) (literals : w.Sound doc names doc.valueKinds.length)
    (hi : FieldIndex.build fields.kinds = .ok index) (symbolID : List Byte → Nat)
    (stateReasons : List Nat) (facts : Row) :
    ∃ v, Denotes doc l (doc.lane index (some ∘ symbolID) stateReasons facts doc.len) v := by
  have agree := leavesAgree_of_constants symbolID valid literals hi l.canon l.flat stateReasons facts
  have ordered : Dataflow.Ordered (rowSemantics (Candidate.leafLane w index symbolID
      stateReasons facts)) l.rows := sound.ordered
  have solves := ordered.solves fun _ => ⟨.bottom, 0#16⟩
  have hmem : ∀ n, doc.nodeInRange n → l.canon n ≠ 0 → n ∈ order :=
    fun n hn h0 => by_contra fun hno => h0 (sound.unmade n hn hno)
  refine ⟨_, fun n hn h0 => sound.lane_of_solves agree solves (hmem n hn h0),
    fun n kind hn h0 hk hg => ⟨sound.flattened (hmem n hn h0) hk hg, ?_⟩⟩
  rw [sound.lane_of_solves agree solves (hmem n hn h0), sound.group_value solves (hmem n hn h0) hk hg]

-- Nodes that share a candidate have the same truth and the same reasons on every request, whatever IDs
-- its texts have. A group has those of its flat operands. What the roots need is kept.
theorem candidates_sound (hv : doc.validate fields = [])
    (hc : lowerConstants doc fields symbols = .ok c) (hl : candidates c.toValueWalk doc = .ok l) :
    ∃ index, FieldIndex.build fields.kinds = .ok index ∧
      (∀ (symbolID : List Byte → Nat) (stateReasons : List Nat) (facts : Row),
        (∀ n n', doc.nodeInRange n → doc.nodeInRange n' → l.canon n ≠ 0 → l.canon n = l.canon n' →
          doc.lane index (some ∘ symbolID) stateReasons facts doc.len n =
            doc.lane index (some ∘ symbolID) stateReasons facts doc.len n') ∧
        ∃ v, Denotes doc l (doc.lane index (some ∘ symbolID) stateReasons facts doc.len) v) ∧
      ∀ t, compactInstructions doc l = .ok t →
        (∀ n, doc.nodeInRange n → l.canon n ≠ 0) ∧ ∃ f, Renumbered doc l t f := by
  have valid := Document.validated hv
  have ⟨names, parts⟩ := lowerConstants_eq_ok hc
  have ⟨index, hi⟩ := exists_fieldIndex hc
  have ⟨nodeRoots, order, hflags, sound, hroots⟩ := candidates_eq_ok valid hl
  refine ⟨index, hi, fun symbolID stateReasons facts => ?_, fun t ht => ?_⟩
  case refine_1 =>
    have ⟨v, denotes⟩ := sound.denotes valid parts.literals hi symbolID stateReasons facts
    refine ⟨fun n n' hn hn' h0 he => ?_, v, denotes⟩
    rw [denotes.node n hn h0, denotes.node n' hn' (he ▸ h0), he]
  case refine_2 =>
    have ⟨_, _, _, hnodes⟩ := compactInstructions_eq_ok sound.ordered ht
    refine ⟨fun n hn => ?_, compactInstructions_renumbered sound hflags hroots ht⟩
    have ⟨_, _, hok⟩ := hnodes (n - 1) (Lowering.nodeInRange_iff.mp hn).2
    exact (nodeInstructions_eq_ok hok).1

end Sharing

-- The flag is asked for and negated twice, and the negations are in a group within another one.
def twicePolicy : Document :=
  flagPolicy [.compare, .compare, .not, .not, .all, .all] [0, 0, 0, 1, 0, 1] [0, 2] [2, 2] [3, 4, 5, 4]
    [1, 2] 6

def twiceConstants : Constants :=
  (lowerConstants twicePolicy flagSchema flagSymbols).toOption.get (by decide +kernel)

def twiceLowering : Lowering :=
  (candidates twiceConstants.toValueWalk twicePolicy).toOption.get (by decide +kernel)

theorem candidates_sound_twice : twiceLowering.nodeCanon = [1, 1, 2, 2, 3, 4] ∧
    twiceLowering.flat 6 = [2, 2, 2] ∧
    ∃ index, ∀ symbolID stateReasons facts, ∃ v : Nat → Lane,
      twicePolicy.lane index (some ∘ symbolID) stateReasons facts 6 6 =
        some (Lane.all [v 2, v 2, v 2]) := by
  refine ⟨by decide +kernel, by decide +kernel, ?_⟩
  have ⟨index, _, denotes, _⟩ := @candidates_sound twicePolicy flagSchema flagSymbols twiceConstants
    twiceLowering (by decide +kernel) (eq_ok_of_toOption _) (eq_ok_of_toOption _)
  refine ⟨index, fun symbolID stateReasons facts => ?_⟩
  have ⟨_, v, h⟩ := denotes symbolID stateReasons facts
  refine ⟨v, ?_⟩
  have hflat : twiceLowering.flat 6 = [2, 2, 2] := by decide +kernel
  have := (h.group 6 .all (by decide) (by decide +kernel) (by decide) rfl).2
  rwa [hflat] at this

end NornRune
