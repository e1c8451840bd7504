import NornRune.Compile.Theorems.Compact
import NornRune.Compile.Theorems.Lower

open Checked

-- What a program reads from its columns is what the document says.
namespace NornRune

theorem read_rangeStarts {ranges : List (List Nat)} {i : Nat} {range : List Nat}
    (h : ranges[i]? = some range) :
    (rangeStarts ranges).getD i 0 + range.length ≤ ranges.flatten.length ∧
      Region.read ranges.flatten ((rangeStarts ranges).getD i 0) range.length = range := by
  have hlt := (List.getElem?_eq_some_iff.mp h).1
  have hstart : (rangeStarts ranges).getD i 0 =
      if range = [] then 0 else (ranges.take i).flatten.length := by
    simp [rangeStarts, List.getElem?_zipWith, Ragged.getElem?_starts hlt, h]
  rw [hstart]
  split
  case isTrue hnil =>
    subst hnil
    exact ⟨Nat.zero_le _, rfl⟩
  case isFalse => exact ⟨Ragged.le_length_flatten h, Ragged.take_drop_flatten h⟩

structure Program.HasRow (p : Program) (i : Nat) (c : Candidate) : Prop where
  opcode : p.opcodes.getD i .invalid = c.opcode
  field : p.fields.getD i 0 = c.field
  value : p.values.getD i 0 = c.value
  listStarts : i < p.listStarts.length
  listCounts : i < p.listCounts.length
  listRange : p.listStarts.getD i 0 + p.listCounts.getD i 0 ≤ p.listValues.length
  list : Region.read p.listValues (p.listStarts.getD i 0) (p.listCounts.getD i 0) = c.list
  operandRange : p.operandStarts.getD i 0 + p.operandCounts.getD i 0 ≤ p.operands.length
  operands : p.operandsOf i = c.operands
  evidence : p.evidencePredicate i =
    ⟨c.evidenceKind, c.evidenceState, c.evidenceSubject, c.evidenceScope, c.evidenceTiming⟩

section HasRow

variable {c : Constants} {t : ScheduledTable} {s : Semantics} {slots : Slots} {indexes : Indexes}
  {p : Program} {i : Nat} {row : InstructionRow} {rows : List InstructionRow}

theorem getD_map_rows {α : Type} (h : rows[i]? = some row) (f : InstructionRow → α) (d : α) :
    (rows.map f).getD i d = f row := by
  rw [List.getD_eq_getElem?_getD, List.getElem?_map, h, Option.map_some, Option.getD_some]

theorem evidenceQualifier_map (h : rows[i]? = some row) (f : InstructionRow → Nat) :
    evidenceQualifier (rows.map f) i = f row := by
  have hlt := (List.getElem?_eq_some_iff.mp h).1
  rw [evidenceQualifier, if_neg (by rw [List.length_map]; omega), getD_map_rows h]

theorem Assembled.hasRow (a : Assembled c t s slots indexes p) (h : t.rows[i]? = some row) :
    p.HasRow i row.toCandidate := by
  have hlt := (List.getElem?_eq_some_iff.mp h).1
  have hlist : (t.rows.map (·.list))[i]? = some row.list := by rw [List.getElem?_map, h]; rfl
  have hoperands : (t.rows.map (·.operands))[i]? = some row.operands := by
    rw [List.getElem?_map, h]; rfl
  replace hlist := read_rangeStarts hlist
  replace hoperands := read_rangeStarts hoperands
  rw [← List.flatMap_def, ← a.listValues, ← a.listStarts] at hlist
  rw [← List.flatMap_def, ← a.operands, ← a.operandStarts] at hoperands
  have hcounts : p.listCounts.getD i 0 = row.list.length := by rw [a.listCounts, getD_map_rows h]
  have hcounts' : p.operandCounts.getD i 0 = row.operands.length := by
    rw [a.operandCounts, getD_map_rows h]
  refine {
    opcode := by rw [a.opcodes, getD_map_rows h]
    field := by rw [a.fields, getD_map_rows h]
    value := by rw [a.values, getD_map_rows h]
    listStarts := by simpa [a.listStarts, rangeStarts] using hlt
    listCounts := by rwa [a.listCounts, List.length_map]
    listRange := by rw [hcounts]; exact hlist.1
    list := by rw [hcounts]; exact hlist.2
    operandRange := by rw [hcounts']; exact hoperands.1
    operands := by rw [Program.operandsOf, hcounts']; exact hoperands.2
    evidence := ?_ }
  rw [Program.evidencePredicate, a.evidenceKinds, a.evidenceStates, a.evidenceSubjects, a.evidenceScopes,
    a.evidenceTimings, getD_map_rows h, getD_map_rows h, evidenceQualifier_map h,
    evidenceQualifier_map h, evidenceQualifier_map h]

end HasRow

namespace Candidate

variable (p : Program) (c : Candidate)

def operand (kind : ValueKind) : Except Panic Operand :=
  match c.opcode with
  | .exists | .defined => do
    require (c.value == 0) "eval: invalid value-free predicate value"
    return .none
  | .in => do
    require (c.value == 0) "eval: invalid in predicate"
    return .list (← c.list.mapM (programPredicateValue p · kind))
  | _ => return .value (← programPredicateValue p c.value kind)

def predicate : Except Panic Predicate := do
  let (kind, column) ← predicateField p c.field
  let operand ← c.operand p kind
  requirePredicateKind c.opcode kind
  return ⟨c.opcode, c.field, kind, column, operand⟩

def instr : Except Panic Instr :=
  match c.opcode with
  | .boolean => do return .constant (← programPredicateValue p c.value .boolean).boolean
  | .evidence => do
    require (c.evidenceKind != 0 && decide (c.evidenceKind ≤ p.evidenceKindNames.length) &&
      c.evidenceState != 0 && decide (c.evidenceState ≤ p.evidenceStateNames.length))
      "eval: invalid evidence predicate"
    return .evidence ⟨c.evidenceKind, c.evidenceState, c.evidenceSubject, c.evidenceScope,
      c.evidenceTiming⟩
  | .all => return .all c.operands
  | .any => return .any c.operands
  | .not => return .not (c.operands.headD 0)
  | .invalid => .error "eval: invalid execution opcode"
  | _ => return .predicate (← c.predicate p)

variable {p c} {i : Nat}

theorem predicateOperand_eq (h : p.HasRow i c) (kind : ValueKind) :
    predicateOperand p i c.opcode kind = c.operand p kind := by
  cases hop : c.opcode <;> simp only [predicateOperand, operand, hop, h.value, h.list, h.listRange,
    h.listStarts, h.listCounts, decide_true, Bool.and_true]

theorem resolveInstr_eq (h : p.HasRow i c) : resolveInstr p i = c.instr p := by
  have hpredicate : resolvePredicate p i = c.predicate p := by
    simp only [resolvePredicate, predicate, h.opcode, h.field, predicateOperand_eq h]
  cases hop : c.opcode <;> simp only [resolveInstr, instr, h.opcode, hop, h.value, h.operands,
    h.evidence, hpredicate]

end Candidate

namespace FieldIndex

variable {kinds : List ValueKind} {index : FieldIndex} {kind : ValueKind}

theorem lookup_of_build (h : build kinds = .ok index) {field : Nat} (h0 : field ≠ 0)
    (hk : kinds[field - 1]? = some kind) :
    ∃ column, index.lookup field = some (kind, column) ∧ kind.valid ∧ column < index.counts kind := by
  unfold build at h
  split at h
  case isTrue => cases h
  case isFalse =>
    have ⟨hv, h⟩ := of_guard h
    cases h
    rw [Bool.not_eq_true', Bool.not_eq_false, List.all_eq_true] at hv
    have ⟨hlt, hget⟩ := List.getElem?_eq_some_iff.mp hk
    refine ⟨(kinds.take (field - 1)).count kind, ?_, hv kind (List.mem_of_getElem? hk), ?_⟩
    case refine_1 => simp [lookup, h0, hlt, hget]
    case refine_2 =>
      have hsplit : kinds.count kind = (kinds.take (field - 1)).count kind +
          (kinds.drop (field - 1)).count kind := by
        rw [← List.count_append, List.take_append_drop]
      simp only [hsplit, List.drop_eq_getElem_cons hlt, hget, List.count_cons_self]
      omega

theorem kind_of_lookup (h : build kinds = .ok index) {field : Nat}
    (hl : (index.lookup field).any (·.1 == kind)) : kinds.getD (field - 1) .invalid = kind := by
  unfold build at h
  split at h
  case isTrue => cases h
  case isFalse =>
    have ⟨_, h⟩ := of_guard h
    cases h
    simp only [lookup] at hl
    split at hl
    case isTrue => cases hl
    case isFalse =>
      split at hl
      case h_1 hk _ =>
        rw [List.getD_eq_getElem?_getD, hk, Option.getD_some]
        simpa using hl
      case h_2 => cases hl

end FieldIndex

def Payload.value : Payload → PredicateValue
  | symbol id => { symbol := id }
  | integer i => { integer := i }
  | boolean b => { boolean := b }
  | timestamp t => { timestamp := t }

namespace Document

variable {doc : Document} {id : Nat}

theorem HasPayload.predicateValue {names : List (List Byte)} {payload : Payload} {p : Program}
    (named : p.Named names) (h : doc.HasPayload names id payload) :
    doc.predicateValue p.lookupSymbol id = some payload.value := by
  have hk := h.kind
  cases payload
  case symbol s =>
    have ⟨h0, b, hb, hs⟩ := h
    have hl := named.lookupSymbol_eq_some.mpr ⟨h0, hs⟩
    simp only [Payload.kind] at hk
    simp [Document.predicateValue, hk, hb, hl, Payload.value]
  case integer | boolean | timestamp =>
    simp only [HasPayload] at h
    simp only [Payload.kind] at hk
    simp [Document.predicateValue, hk, h, Payload.value]

theorem booleanValue_of_boolean (doc : Document) {node value : Nat} (h : doc.boolean node = some value) :
    ∃ b, doc.booleanValue value = some b := by
  simp only [boolean, Option.bind_eq_bind, Option.bind_eq_some_iff, Option.pure_def,
    Option.some.injEq] at h
  obtain ⟨_, _, b, hb, rfl⟩ := h
  exact ⟨b, hb⟩

end Document

section Leaf

variable {doc : Document} {fields : Schema} {symbols : Interner} {c : Constants}
  {t₀ : InstructionTable} {t : ScheduledTable} {s : Semantics} {slots : Slots} {indexes : Indexes}
  {p : Program} {names : List (List Byte)} {id : Nat} {kind : ValueKind}

theorem programPredicateValue_of_stored (a : Assembled c t s slots indexes p)
    (named : p.Named names) {v : Nat} {payload : Payload} (hp : doc.HasPayload names id payload)
    (h : c.values.Stored v payload) :
    programPredicateValue p v payload.kind = .ok payload.value := by
  obtain ⟨ref, hr, he⟩ := h.ref
  have hk := h.kind
  rw [← a.valueKinds] at hk
  rw [← a.valueRefs] at hr
  unfold programPredicateValue
  rw [if_neg h.ne_zero, hk, hr]
  simp only [ValueTable.valueEqual, Bool.and_eq_true, beq_iff_eq, true_and] at he
  cases payload
  case symbol id =>
    simp only [beq_iff_eq] at he
    subst he
    obtain ⟨h0, b, _, hs⟩ := hp
    have hlt := (List.getElem?_eq_some_iff.mp hs).1
    have hle : ¬p.programSymbolCount < ref := by rw [named.count]; omega
    simp [Payload.kind, Payload.value, h0, named.symbol_eq h0, hs, hle]
  case integer i =>
    simp only [Bool.and_eq_true, bne_iff_ne, beq_iff_eq] at he
    simp [Payload.kind, Payload.value, he.1, a.integerValues, he.2]
  case timestamp i =>
    simp only [Bool.and_eq_true, bne_iff_ne, beq_iff_eq] at he
    simp [Payload.kind, Payload.value, he.1, a.timestampValues, he.2]
  case boolean b =>
    simp only [Bool.and_eq_true, bne_iff_ne, beq_iff_eq] at he
    cases b <;> simp [Payload.kind, Payload.value, he.1, a.booleanValues, he.2]

structure LiteralValue (p : Program) (doc : Document) (id v : Nat) (payload : Payload) : Prop where
  kind : doc.literalValueKind id = some payload.kind
  read : programPredicateValue p v payload.kind = .ok payload.value
  value : doc.predicateValue p.lookupSymbol id = some payload.value

theorem literalValue_of_canonical (a : Assembled c t s slots indexes p) (named : p.Named names)
    (parts : ConstantParts doc fields c names) {v : Nat} (h : c.canonicalValue id = .ok v) :
    ∃ payload, doc.HasPayload names id payload ∧ LiteralValue p doc id v payload := by
  have ⟨payload, hp, hs⟩ := parts.literals.canonicalValue_eq_ok h
  exact ⟨payload, hp, hp.kind, programPredicateValue_of_stored a named hp hs, hp.predicateValue named⟩

theorem symbolForValue_eq_ok (named : p.Named names) (parts : ConstantParts doc fields c names)
    {symbol : Nat} (h : c.symbolForValue id = .ok symbol) :
    ∃ b, doc.symbolValue id = some b ∧ p.lookupSymbol b = some symbol := by
  have ⟨h0, b, hb, hn⟩ := parts.literals.symbolForValue_eq_ok h
  exact ⟨b, hb, named.lookupSymbol_eq_some.mpr ⟨h0, hn⟩⟩

theorem qualifierID_eq_some (named : p.Named names) (parts : ConstantParts doc fields c names)
    {symbol : Nat} (h : c.optionalSymbolForValue id = .ok symbol) :
    doc.qualifierID p.lookupSymbol id = some symbol := by
  unfold ValueWalk.optionalSymbolForValue at h
  split at h
  case isTrue h0 =>
    cases h
    rw [Document.qualifierID, if_pos h0]
  case isFalse h0 =>
    have ⟨b, hb, hl⟩ := symbolForValue_eq_ok named parts h
    simp [Document.qualifierID, h0, hb, hl]

theorem length_of_translateCatalogNames {w : ValueWalk} {ids starts stops ids' : List Nat}
    (h : w.translateCatalogNames ids starts stops = .ok ids') : ids'.length = ids.length := by
  have ⟨_, h⟩ := of_guard h
  have ⟨_, h⟩ := of_guard h
  exact length_of_mapM_eq_ok h

theorem Lowered.field (low : Lowered doc fields symbols c t₀ t s slots indexes p)
    (parts : ConstantParts doc fields c names) {field : Nat} (h : fields.kind field = some kind) :
    ∃ column, p.fieldIndex.lookup field = some (kind, column) ∧
      predicateField p field = .ok (kind, column) := by
  obtain ⟨_, index⟩ := lowerIndexes_eq_ok low.indexes
  have hb := index.fields
  rw [parts.fieldKinds] at hb
  simp only [Schema.kind, Option.ite_none_left_eq_some] at h
  obtain ⟨column, hl, hv, hlt⟩ := FieldIndex.lookup_of_build hb h.1 h.2
  rw [← low.columns.fieldIndex] at hl hlt
  refine ⟨column, hl, ?_⟩
  rw [predicateField, hl]
  simp only [hv, Bool.not_true, Bool.false_eq_true, if_false, if_neg (Nat.not_le.mpr hlt)]

theorem literals_of_canonical (a : Assembled c t s slots indexes p) (named : p.Named names)
    (parts : ConstantParts doc fields c names) {ids vs : List Nat}
    (hk : ∀ id ∈ ids, ∀ k, doc.literalValueKind id = some k → k = kind)
    (h : ids.mapM c.canonicalValue = .ok vs) : ∃ values,
      vs.mapM (programPredicateValue p · kind) = .ok values ∧
      ids.mapM (doc.predicateValue p.lookupSymbol) = some values := by
  replace h := forall₂_of_mapM_eq_ok h
  induction h
  case nil => exact ⟨[], rfl, rfl⟩
  case cons id v ids vs hv _ ih =>
    have ⟨hid, hk⟩ := List.forall_mem_cons.mp hk
    have ⟨values, hread, hvalue⟩ := ih hk
    have ⟨payload, _, l⟩ := literalValue_of_canonical a named parts hv
    obtain rfl := hid _ l.kind
    refine ⟨payload.value :: values, ?_, ?_⟩
    · simp [l.read, hread]
    · simp [l.value, hvalue]

theorem not_composite_of_compareOpcode {op : CompareOp} {opcode : Opcode}
    (h : Lowering.compareOpcode op = some opcode) : ¬opcode.Composite := by
  cases op <;> cases h <;> simp [Opcode.Composite]

theorem NodeKind.composite_group (kind : NodeKind) :
    (if kind = .all then Opcode.all else .any).Composite := by
  by_cases ha : kind = .all
  · exact .inl (if_pos ha)
  · exact .inr (.inl (if_neg ha))

section Made

variable {w : ValueWalk} {canon : Nat → Nat} {flat : Nat → List Nat} {node : Nat} {cand : Candidate}

theorem Made.of_composite (h : Made w doc canon flat node cand) (hc : cand.opcode.Composite) :
    (∃ kind children, doc.kind node = some kind ∧ kind.group ∧
      doc.groupChildren node = some children ∧ cand = {
        opcode := if kind = .all then .all else .any
        operands := children.flatMap (contribution doc canon flat kind) }) ∨
    ∃ child, doc.kind node = some .not ∧ doc.notChild node = some child ∧
      cand = { opcode := .not, operands := [canon child] } := by
  cases h
  case group kind children hk hg hch _ => exact .inl ⟨kind, children, hk, hg, hch, rfl⟩
  case not child hk hch => exact .inr ⟨child, hk, hch, rfl⟩
  case single _ _ ho _ _ _ => exact absurd hc (not_composite_of_compareOpcode ho)
  case bare _ _ ho _ => exact absurd hc (not_composite_of_compareOpcode ho)
  all_goals exact absurd hc (by simp [Opcode.Composite])

theorem Made.operands_of_leaf (h : Made w doc canon flat node cand) (hleaf : ¬cand.opcode.Composite) :
    cand.operands = [] := by
  cases h
  case group kind _ _ _ _ _ => exact absurd (NodeKind.composite_group kind) hleaf
  case not => exact absurd (.inr (.inr rfl)) hleaf
  all_goals rfl

end Made

theorem Made.leaf (low : Lowered doc fields symbols c t₀ t s slots indexes p) (named : p.Named names)
    (parts : ConstantParts doc fields c names) {canon : Nat → Nat} {flat : Nat → List Nat} {node : Nat}
    {cand : Candidate} (made : Made c.toValueWalk doc canon flat node cand)
    (hleaf : ¬cand.opcode.Composite) :
    ∃ instr, cand.instr p = .ok instr ∧
      doc.leaf p.fieldIndex p.lookupSymbol node = some instr := by
  have valid := Document.validated low.valid
  cases made
  case group kind _ _ _ _ _ => exact absurd (NodeKind.composite_group kind) hleaf
  case not => exact absurd (.inr (.inr rfl)) hleaf
  case boolean value v hk hb hc =>
    obtain ⟨payload, hp, l⟩ := literalValue_of_canonical low.columns named parts hc
    obtain ⟨b, hvalue⟩ := doc.booleanValue_of_boolean hb
    have hkind : doc.literalValueKind value = some .boolean := by
      simp only [Document.booleanValue, Option.bind_eq_bind, Option.bind_eq_some_iff] at hvalue
      obtain ⟨r, hr, _⟩ := hvalue
      exact Document.literal_eq_some hr rfl
    have hread := l.read
    have hpk := l.kind
    rw [hkind, Option.some.injEq] at hpk
    cases payload
    case boolean b' =>
      cases hvalue.symm.trans hp
      refine ⟨.constant b, ?_, ?_⟩
      · simp only [Candidate.instr]
        rw [hpk, hread]
        rfl
      · simp [Document.leaf, hk, hb, hvalue]
    all_goals cases hpk
  case listed field value values list hk hc hv hl =>
    obtain ⟨kind, hkind, cn⟩ := valid.compareNode hk hc
    obtain ⟨column, hlookup, hfield⟩ := low.field parts hkind
    obtain ⟨_, hne, hlist⟩ := cn.listed rfl
    obtain ⟨literals, hread, hvalue⟩ :=
      literals_of_canonical low.columns named parts (hlist values hv).2 hl
    refine ⟨.predicate ⟨.in, field, kind, column, .list literals⟩, ?_, ?_⟩
    case refine_1 =>
      simp [Candidate.instr, Candidate.predicate, Candidate.operand, hfield, hread, requirePredicateKind,
        require, hne, Opcode.ordered]
    case refine_2 =>
      simp [Document.leaf, hk, Document.comparePredicate, hc, Lowering.compareOpcode, hlookup,
        Document.compareOperand, hv, hvalue]
  case single field value v op opcode hk hc ho hn hg hv =>
    obtain ⟨kind, hkind, cn⟩ := valid.compareNode hk hc
    obtain ⟨column, hlookup, hfield⟩ := low.field parts hkind
    obtain ⟨payload, _, l⟩ := literalValue_of_canonical low.columns named parts hv
    have hsingle : Document.singleOp op := by
      cases op
      case «exists» => exact absurd (cn.bare (.inl rfl)) hg
      case defined => exact absurd (cn.bare (.inr rfl)) hg
      case «in» => exact absurd rfl hn
      case invalid => cases ho
      all_goals rfl
    obtain rfl := (cn.single hsingle).2 _ l.kind
    have hordered := cn.ordered
    refine ⟨.predicate ⟨opcode, field, payload.kind, column, .value payload.value⟩, ?_, ?_⟩
    case refine_1 =>
      have hread := l.read
      cases op <;> cases hsingle <;> cases ho <;> cases payload <;>
        simp_all [Candidate.instr, Candidate.predicate, Candidate.operand, requirePredicateKind,
          require, Opcode.ordered, CompareOp.ordered, Document.orderedKind, Payload.kind]
    case refine_2 =>
      have hvalue := l.value
      cases op <;> cases hsingle <;> cases ho <;>
        simp [Document.leaf, hk, Document.comparePredicate, hc, Lowering.compareOpcode, hlookup,
          Document.compareOperand, hvalue]
  case bare field op opcode hk hc ho hn =>
    obtain ⟨kind, hkind, cn⟩ := valid.compareNode hk hc
    obtain ⟨column, hlookup, hfield⟩ := low.field parts hkind
    have hbare : op = .exists ∨ op = .defined := by
      cases op
      case «exists» => exact .inl rfl
      case defined => exact .inr rfl
      case «in» => exact absurd rfl hn
      case invalid => cases ho
      all_goals exact absurd rfl (cn.single rfl).1
    refine ⟨.predicate ⟨opcode, field, kind, column, .none⟩, ?_, ?_⟩
    case refine_1 =>
      rcases hbare with rfl | rfl <;> cases ho <;>
        simp [Candidate.instr, Candidate.predicate, Candidate.operand, hfield, requirePredicateKind,
          require, Opcode.ordered]
    case refine_2 =>
      rcases hbare with rfl | rfl <;> cases ho <;>
        simp [Document.leaf, hk, Document.comparePredicate, hc, Lowering.compareOpcode, hlookup,
          Document.compareOperand]
  case evidence m subject scope timing hk hm hs hc ht =>
    obtain ⟨hk0, hkle, hs0, hsle⟩ := valid.evidenceNode hm
    have hkinds := length_of_translateCatalogNames parts.evidenceKindNames
    have hstates := length_of_translateCatalogNames parts.evidenceStateNames
    refine ⟨.evidence ⟨m.kind, m.state, subject, scope, timing⟩, ?_, ?_⟩
    case refine_1 =>
      simp [Candidate.instr, require, hk0, hs0, low.columns.evidenceKindNames, hkinds, hkle,
        low.columns.evidenceStateNames, hstates, hsle]
    case refine_2 =>
      simp [Document.leaf, hk, Document.evidencePredicate, hm, qualifierID_eq_some named parts hs,
        qualifierID_eq_some named parts hc, qualifierID_eq_some named parts ht]

end Leaf
end NornRune
