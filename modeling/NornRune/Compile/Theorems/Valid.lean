import NornRune.Compile.Graph

open NornRune.Diagnostic

-- What a document without defects looks like.
namespace NornRune.Document

structure Validated (d : Document) (fields : Schema) : Prop where
  columns : d.checkColumnLengths = []
  templates : d.checkTemplateRows = []
  explanations : d.checkExplanationRows = []
  values : d.checkValueRows = []
  compares : d.checkCompareRows fields = []
  groups : d.checkGroupRows = []
  nots : d.checkNotRows = []
  evidence : d.checkEvidenceRows = []
  nodes : d.checkNodeRows = []
  evidenceKinds : d.checkEvidenceKindRows = []
  evidenceStates : d.checkEvidenceStateRows = []
  outcomes : d.checkOutcomeRows = []
  remediations : d.checkRemediationRows fields = []
  clauses : d.checkClauseRows = []
  requirements : d.checkRequirementRows = []
  explained : d.checkExplanationSemantics = []
  expressions : d.checkExpressionSemantics fields = []
  identity : d.checkPolicyIdentitySemantics = []
  evidenceKindNames : d.checkEvidenceKindNameSemantics = []
  evidenceStateNames : d.checkEvidenceStateNameSemantics = []
  outcomeNames : d.checkOutcomeNameSemantics = []
  remediationShapes : d.checkRemediationSemantics fields = []
  clauseResolutions : d.checkClauseSemantics = []
  requirementShapes : d.checkRequirementSemantics = []
  graph : d.validateGraph = []

variable {d : Document} {fields : Schema}

theorem validated (h : d.validate fields = []) : d.Validated fields := by
  simp only [validate, validateStructure, validateSemantics, List.append_eq_nil_iff] at h
  obtain ⟨⟨hstructure, hsemantics⟩, graph⟩ := h
  obtain ⟨⟨⟨⟨⟨⟨⟨⟨⟨⟨⟨⟨⟨⟨h₁, h₂⟩, h₃⟩, h₄⟩, h₅⟩, h₆⟩, h₇⟩, h₈⟩, h₉⟩, h₁₀⟩, h₁₁⟩, h₁₂⟩, h₁₃⟩, h₁₄⟩, h₁₅⟩ := hstructure
  obtain ⟨⟨⟨⟨⟨⟨⟨⟨g₁, g₂⟩, g₃⟩, g₄⟩, g₅⟩, g₆⟩, g₇⟩, g₈⟩, g₉⟩ := hsemantics
  exact ⟨h₁, h₂, h₃, h₄, h₅, h₆, h₇, h₈, h₉, h₁₀, h₁₁, h₁₂, h₁₃, h₁₄, h₁₅,
    g₁, g₂, g₃, g₄, g₅, g₆, g₇, g₈, g₉, graph⟩

structure Columns (d : Document) : Prop where
  nodeRefs : d.nodeRefs.length = d.nodeKinds.length
  sourceStarts : d.sourceStarts.length = d.nodeKinds.length
  sourceEnds : d.sourceEnds.length = d.nodeKinds.length
  compareOps : d.compareOps.length = d.compareFields.length
  compareValues : d.compareValues.length = d.compareFields.length
  compareListStarts : d.compareListStarts.length = d.compareFields.length
  compareListCounts : d.compareListCounts.length = d.compareFields.length
  groupChildCounts : d.groupChildCounts.length = d.groupChildStarts.length
  evidenceStates : d.evidenceStates.length = d.evidenceKinds.length
  evidenceSubjects : d.evidenceSubjects.length = 0 ∨ d.evidenceSubjects.length = d.evidenceKinds.length
  evidenceScopes : d.evidenceScopes.length = 0 ∨ d.evidenceScopes.length = d.evidenceKinds.length
  evidenceTimings : d.evidenceTimings.length = 0 ∨ d.evidenceTimings.length = d.evidenceKinds.length
  valueRefs : d.valueRefs.length = d.valueKinds.length

theorem Validated.toColumns (h : d.Validated fields) : d.Columns := by
  have h := h.columns
  simp only [checkColumnLengths, List.append_eq_nil_iff, when_eq_nil_iff, Bool.or_eq_false_iff,
    bne_eq_false_iff_eq, Bool.and_eq_false_iff] at h
  obtain ⟨⟨⟨⟨⟨⟨⟨⟨⟨⟨⟨⟨nodes, compares⟩, groups⟩, evidence⟩, values⟩, _⟩, _⟩, _⟩, _⟩, _⟩, _⟩, _⟩, _⟩ := h
  exact {
    nodeRefs := nodes.1.1
    sourceStarts := nodes.1.2
    sourceEnds := nodes.2
    compareOps := compares.1.1.1
    compareValues := compares.1.1.2
    compareListStarts := compares.1.2
    compareListCounts := compares.2
    groupChildCounts := groups.symm
    evidenceStates := evidence.1.1.1.1.symm
    evidenceSubjects := evidence.1.1.1.2.imp_right Eq.symm
    evidenceScopes := evidence.1.1.2.imp_right Eq.symm
    evidenceTimings := evidence.1.2.imp_right Eq.symm
    valueRefs := values.1.symm
  }

structure NodeRow (d : Document) (i : Nat) : Prop where
  kind : (d.nodeKinds.getD i .invalid).valid
  ref : d.nodeRefValid (d.nodeKinds.getD i .invalid) (d.nodeRefs.getD i 0)
  span : SourceSpan.valid ⟨d.sourceStarts.getD i 0, d.sourceEnds.getD i 0⟩ d.inputBytes.length

variable {i node : Nat} {kind : NodeKind}

theorem Validated.nodeRow (h : d.Validated fields) (hi : i < d.nodeKinds.length) :
    d.NodeRow i := by
  have hrow := rows_eq_nil_iff.mp h.nodes i hi
  have columns := h.toColumns
  simp only [checkNodeRow, List.append_eq_nil_iff, when_eq_nil_iff] at hrow
  obtain ⟨hspan, hrow⟩ := hrow
  rw [columns.sourceStarts, columns.sourceEnds, decide_eq_true hi, Bool.true_and, Bool.true_and,
    Bool.not_eq_false'] at hspan
  obtain ⟨hkind, hrow⟩ := Checked.ite_eq_of_ne hrow (by rintro ⟨⟩)
  rw [when_eq_nil_iff, columns.nodeRefs, decide_eq_true hi, Bool.true_and, Bool.not_eq_false'] at hrow
  exact ⟨by simpa using hkind, hrow, hspan⟩

theorem nodeIndex_eq_some (columns : d.Columns) :
    d.nodeIndex node = some i ↔ node ≠ 0 ∧ i = node - 1 ∧ i < d.nodeKinds.length := by
  rw [nodeIndex, columns.nodeRefs, Option.ite_none_left_eq_some, Option.some.injEq]
  omega

theorem kind_eq_some (columns : d.Columns) :
    d.kind node = some kind ↔ d.nodeInRange node ∧ d.nodeKinds.getD (node - 1) .invalid = kind := by
  simp only [Document.kind, nodeInRange, Bool.and_eq_true, bne_iff_ne, decide_eq_true_eq,
    Option.bind_eq_bind, Option.bind_eq_some_iff, nodeIndex_eq_some columns]
  constructor
  case mp =>
    rintro ⟨i, ⟨h0, rfl, hlt⟩, hk⟩
    exact ⟨⟨h0, by omega⟩, by rw [List.getD_eq_getElem?_getD, hk, Option.getD_some]⟩
  case mpr =>
    rintro ⟨⟨h0, hle⟩, hk⟩
    have hlt : node - 1 < d.nodeKinds.length := by omega
    refine ⟨node - 1, ⟨h0, rfl, hlt⟩, ?_⟩
    rw [List.getD_eq_getElem _ _ hlt] at hk
    rw [List.getElem?_eq_getElem hlt, hk]

theorem payload_eq_some (columns : d.Columns) (isKind : NodeKind → Bool)
    (hk : d.kind node = some kind) (his : isKind kind) :
    d.payload node isKind = some (d.nodeRefs.getD (node - 1) 0) := by
  have ⟨hrange, hkind⟩ := (kind_eq_some columns).mp hk
  simp only [nodeInRange, Bool.and_eq_true, bne_iff_ne, decide_eq_true_eq] at hrange
  have hlt : node - 1 < d.nodeKinds.length := by omega
  have hlt' : node - 1 < d.nodeRefs.length := columns.nodeRefs.symm ▸ hlt
  have hindex : d.nodeIndex node = some (node - 1) :=
    (nodeIndex_eq_some columns).mpr ⟨hrange.1, rfl, hlt⟩
  rw [List.getD_eq_getElem _ _ hlt] at hkind
  simp only [payload, hindex, Option.bind_eq_bind, Option.bind_some, List.getElem?_eq_getElem hlt, hkind,
    if_pos his, List.getElem?_eq_getElem hlt', List.getD_eq_getElem _ _ hlt']

theorem exists_row (columns : d.Columns) (hk : d.kind node = some kind) :
    ∃ i, node = i + 1 ∧ i < d.nodeKinds.length ∧ d.nodeKinds.getD i .invalid = kind := by
  have ⟨hrange, hkind⟩ := (kind_eq_some columns).mp hk
  simp only [nodeInRange, Bool.and_eq_true, bne_iff_ne, decide_eq_true_eq] at hrange
  exact ⟨node - 1, by omega, by omega, hkind⟩

section

variable (h : d.Validated fields)
include h

theorem Validated.groupRow (hk : d.kind node = some kind) (hg : kind.group) {ref : Nat}
    (href : d.nodeRefs.getD (node - 1) 0 = ref) :
    ref < d.groupRows ∧
      d.groupChildStarts.getD ref 0 + d.groupChildCounts.getD ref 0 ≤ d.childNodeIDs.length ∧
      ∀ child ∈ Region.read d.childNodeIDs (d.groupChildStarts.getD ref 0) (d.groupChildCounts.getD ref 0),
        d.nodeInRange child := by
  subst href
  have ⟨hrange, hkind⟩ := (kind_eq_some h.toColumns).mp hk
  simp only [nodeInRange, Bool.and_eq_true, bne_iff_ne, decide_eq_true_eq] at hrange
  have row := h.nodeRow (show node - 1 < d.nodeKinds.length by omega)
  have hlt : d.nodeRefs.getD (node - 1) 0 < d.groupRows := by
    have href := row.ref
    rw [hkind] at href
    cases kind
    case all | any => exact of_decide_eq_true href
    all_goals cases hg
  refine ⟨hlt, ?_⟩
  have hgroup := rows_eq_nil_iff.mp h.groups _ hlt
  simp only [checkGroupRow] at hgroup
  have ⟨hvalid, hgroup⟩ := Checked.ite_eq_of_ne hgroup nofun
  rw [Bool.not_eq_true, Bool.not_eq_false', validRange_eq_true_iff] at hvalid
  refine ⟨hvalid, fun child hm => ?_⟩
  simpa using each_eq_nil_iff.mp hgroup child hm

theorem Validated.nodeUnsafe (hi : i < d.nodeKinds.length) :
    d.nodeUnsafe i = false := by
  have row := h.nodeRow hi
  have columns := h.toColumns
  simp only [Document.nodeUnsafe, columns.nodeRefs, columns.sourceStarts, columns.sourceEnds,
    row.kind, row.ref, Bool.not_true, Bool.or_false, Bool.or_eq_false_iff, decide_eq_false_iff_not,
    Nat.not_le, hi, true_and]
  cases hg : (d.nodeKinds.getD i .invalid).group
  case false => rfl
  case true =>
    have hk : d.kind (i + 1) = some (d.nodeKinds.getD i .invalid) :=
      (kind_eq_some columns).mpr ⟨by simpa [nodeInRange, Nat.succ_le_iff] using hi, rfl⟩
    have ⟨_, hrange, _⟩ := h.groupRow hk hg rfl
    rw [Bool.true_and, Bool.not_eq_false', validRange_eq_true_iff]
    exact hrange

theorem Validated.edge {edge : Nat} (hi : i < d.nodeKinds.length)
    (he : edge < d.graphEdgeCount (i + 1)) (hin : d.nodeInRange (d.graphChild (i + 1) edge)) :
    d.nodeKinds.getD (d.graphChild (i + 1) edge - 1) .invalid ≠ .evidence := by
  have hrow := rows_eq_nil_iff.mp h.expressions i hi
  simp only [checkExpressionRow, h.nodeUnsafe hi, Bool.false_eq_true, if_false,
    List.append_eq_nil_iff, rows_eq_nil_iff, when_eq_nil_iff] at hrow
  have := hrow.2 edge he
  rwa [hin, Bool.true_and, beq_eq_false_iff_ne] at this

theorem Validated.groupCount (hi : i < d.nodeKinds.length)
    (hg : (d.nodeKinds.getD i .invalid).group) (hlt : d.nodeRefs.getD i 0 < d.groupRows)
    (hstart : d.groupChildStarts.getD (d.nodeRefs.getD i 0) 0 ≤ d.childNodeIDs.length) :
    d.groupChildCounts.getD (d.nodeRefs.getD i 0) 0 ≠ 0 := by
  have hrow := rows_eq_nil_iff.mp h.expressions i hi
  simp only [checkExpressionRow, h.nodeUnsafe hi, Bool.false_eq_true, if_false,
    List.append_eq_nil_iff] at hrow
  have hrange : validRange (d.groupChildStarts.getD (d.nodeRefs.getD i 0) 0) 0 d.childNodeIDs.length :=
    validRange_eq_true_iff.mpr hstart
  have hrow := hrow.1
  intro hzero
  generalize d.nodeKinds.getD i .invalid = kind at hg hrow
  cases kind
  case all | any =>
    simp only [when_eq_nil_iff, hzero, hrange, decide_eq_true hlt] at hrow
    cases hrow
  all_goals cases hg

end

structure ChildNode (d : Document) (child : Nat) : Prop where
  inRange : d.nodeInRange child
  kind : d.kind child ≠ some .evidence

theorem Validated.groupChildren (h : d.Validated fields) (hk : d.kind node = some kind)
    (hg : kind.group) {children : List Nat} (hc : d.groupChildren node = some children) :
    children ≠ [] ∧ ∀ child ∈ children, d.ChildNode child := by
  have columns := h.toColumns
  obtain ⟨i, rfl, hi, hkind⟩ := exists_row columns hk
  generalize href : d.nodeRefs.getD i 0 = ref at *
  have ⟨hlt, hle, hchildren⟩ := h.groupRow hk hg href
  have hread : children = Region.read d.childNodeIDs (d.groupChildStarts.getD ref 0)
      (d.groupChildCounts.getD ref 0) := by
    simp only [Document.groupChildren, groupRange, payload_eq_some columns NodeKind.group hk hg, rangeAt, href,
      Option.bind_eq_bind, Option.bind_some, Option.bind_eq_some_iff, Option.pure_def,
      Option.some.injEq, Option.ite_none_left_eq_some, Nat.add_sub_cancel] at hc
    obtain ⟨⟨start, count⟩, ⟨start', hs, count', hc', _, hp⟩, rfl⟩ := hc
    cases hp
    rw [List.getD_eq_getElem?_getD, List.getD_eq_getElem?_getD, hs, hc', Option.getD_some, Option.getD_some]
  have hcount : d.graphEdgeCount (i + 1) = d.groupChildCounts.getD ref 0 := by
    rw [graphEdgeCount, Nat.add_sub_cancel, hkind, href]
    cases kind
    case all | any => rfl
    all_goals cases hg
  subst hread
  refine ⟨fun hnil => ?_, fun child hm => ⟨hchildren child hm, fun hev => ?_⟩⟩
  case refine_1 =>
    refine h.groupCount hi (hkind ▸ hg) (href ▸ hlt) ?_ ?_
    · rw [href]
      exact Nat.le_trans (Nat.le_add_right ..) hle
    · rw [href, ← Region.length_read hle, hnil, List.length_nil]
  case refine_2 =>
    have ⟨edge, hedge⟩ := List.mem_iff_getElem?.mp hm
    rw [Region.getElem?_read] at hedge
    split at hedge
    case isFalse => cases hedge
    case isTrue hlt' =>
      have htarget : d.graphChild (i + 1) edge = child := by
        rw [graphChild, Nat.add_sub_cancel, hkind, href]
        cases kind
        case all | any =>
          change d.childNodeIDs.getD _ 0 = child
          rw [List.getD_eq_getElem?_getD, hedge, Option.getD_some]
        all_goals cases hg
      have hne := h.edge hi (hcount ▸ hlt') (htarget ▸ hchildren child hm)
      exact hne (htarget ▸ ((kind_eq_some columns).mp hev).2)

theorem Validated.notChild (h : d.Validated fields) {child : Nat} (hk : d.kind node = some .not)
    (hc : d.notChild node = some child) : d.ChildNode child := by
  have columns := h.toColumns
  obtain ⟨i, rfl, hi, hkind⟩ := exists_row columns hk
  simp only [Document.notChild, payload_eq_some columns (· == .not) hk rfl,
    Option.bind_eq_bind, Option.bind_some, Nat.add_sub_cancel] at hc
  have ⟨hlt, hget⟩ := List.getElem?_eq_some_iff.mp hc
  have hin := rows_eq_nil_iff.mp h.nots _ hlt
  rw [when_eq_nil_iff, Bool.not_eq_false', List.getD_eq_getElem _ _ hlt, hget] at hin
  refine ⟨hin, fun hev => ?_⟩
  have htarget : d.graphChild (i + 1) 0 = child := by
    rw [graphChild, Nat.add_sub_cancel, hkind, List.getD_eq_getElem _ _ hlt, hget]
  have hcount : d.graphEdgeCount (i + 1) = 1 := by rw [graphEdgeCount, Nat.add_sub_cancel, hkind]
  have hne := h.edge hi (by rw [hcount]; exact Nat.one_pos) (htarget ▸ hin)
  exact hne (htarget ▸ ((kind_eq_some columns).mp hev).2)

def singleOp : CompareOp → Bool
  | .equal | .notEqual | .less | .lessEqual | .greater | .greaterEqual => true
  | _ => false

structure CompareNode (d : Document) (node : Nat) (op : CompareOp) (value : Nat) (kind : ValueKind) :
    Prop where
  bare : op = .exists ∨ op = .defined → value = 0
  listed : op = .in → value = 0 ∧ kind ≠ .presence ∧ ∀ values, d.inValues node = some values →
    values ≠ [] ∧ ∀ v ∈ values, ∀ k, d.literalValueKind v = some k → k = kind
  single : singleOp op → value ≠ 0 ∧ ∀ k, d.literalValueKind value = some k → k = kind
  ordered : op.ordered → orderedKind kind

theorem Columns.compareRows (columns : d.Columns) : d.compareRows = d.compareFields.length := by
  simp [Document.compareRows, safeMin, columns.compareOps, columns.compareValues,
    columns.compareListStarts, columns.compareListCounts]

theorem Validated.compareRow (h : d.Validated fields) {ref : Nat} (hlt : ref < d.compareFields.length) :
    (∃ kind, fields.kind (d.compareFields.getD ref 0) = some kind) ∧
      d.compareListStarts.getD ref 0 + d.compareListCounts.getD ref 0 ≤ d.listValueIDs.length := by
  have hrow := rows_eq_nil_iff.mp h.compares ref (h.toColumns.compareRows ▸ hlt)
  simp only [checkCompareRow, List.append_eq_nil_iff, when_eq_nil_iff, Bool.or_eq_false_iff,
    beq_eq_false_iff_ne, decide_eq_false_iff_not, Nat.not_lt] at hrow
  refine ⟨?_, ?_⟩
  case refine_1 =>
    obtain ⟨h0, hle⟩ := hrow.1.1
    rw [Schema.kind, if_neg h0]
    refine ⟨_, List.getElem?_eq_getElem ?_⟩
    rw [fields.length_kinds]
    exact Nat.lt_of_lt_of_le (Nat.sub_one_lt h0) hle
  case refine_2 =>
    have hlist := hrow.2
    obtain ⟨hvalid, hlist⟩ := Checked.ite_eq_of_ne hlist (by rintro ⟨⟩)
    rwa [Bool.not_eq_true, Bool.not_eq_false', validRange_eq_true_iff] at hvalid

theorem compareNode_of_checks {node' row field value count : Nat} {span : SourceSpan}
    {op : CompareOp} {elements : List Nat} {kind : ValueKind}
    (harity : checkCompareArity node' row value count span op true = [])
    (htypes : d.checkCompareTypes fields node' row field value count span op elements = [])
    (hfield : fields.kind field = some kind) (hcount : elements.length = count)
    (hin : ∀ values, d.inValues node = some values → values = elements) :
    d.CompareNode node op value kind := by
  have hwrong : ∀ v, ((d.literalValueKind v).any (· != kind)) = false →
      ∀ k, d.literalValueKind v = some k → k = kind := by
    intro v hv k hk
    simpa [hk] using hv
  have harity' : singleOp op → value ≠ 0 ∧ count = 0 := by
    intro hop
    cases op
    case invalid | «in» | «exists» | defined => cases hop
    all_goals
      simpa only [checkCompareArity, List.append_eq_nil_iff, when_eq_nil_iff, beq_eq_false_iff_ne,
        Bool.true_and, bne_eq_false_iff_eq] using harity
  simp only [checkCompareTypes, hfield] at htypes
  have hordered : op.ordered → orderedKind kind ∧ ((d.literalValueKind value).any (· != kind)) = false := by
    intro hop
    obtain ⟨hne, hzero⟩ := harity' (by cases op <;> first | rfl | cases hop)
    rw [if_neg (by rintro (rfl | rfl) <;> cases hop), if_neg (by rintro rfl; cases hop), if_pos hop,
      if_neg (by simp [hne, hzero])] at htypes
    obtain ⟨hk, htypes⟩ := Checked.ite_eq_of_ne htypes (by rintro ⟨⟩)
    exact ⟨by simpa using hk, when_eq_nil_iff.mp htypes⟩
  refine ⟨fun hop => ?_, fun hop => ?_, fun hop => ?_, fun hop => (hordered hop).1⟩
  case refine_1 =>
    rcases hop with rfl | rfl
    all_goals
      simp only [checkCompareArity, List.append_eq_nil_iff, when_eq_nil_iff, bne_eq_false_iff_eq] at harity
      exact harity.1
  case refine_2 =>
    subst hop
    simp only [checkCompareArity, List.append_eq_nil_iff, when_eq_nil_iff, bne_eq_false_iff_eq,
      Bool.true_and, beq_eq_false_iff_ne] at harity
    obtain ⟨hzero, hne⟩ := harity
    simp only [reduceCtorEq, or_self, if_false, if_true, hzero, hne, not_true, ne_eq] at htypes
    obtain ⟨hp, htypes⟩ := Checked.ite_eq_of_ne htypes (by rintro ⟨⟩)
    refine ⟨hzero, hp, fun values hv => ?_⟩
    have hv := hin values hv
    subst hv
    refine ⟨fun hnil => hne (by rw [← hcount, hnil, List.length_nil]), fun v hm => hwrong v ?_⟩
    simpa using each_eq_nil_iff.mp htypes v hm
  case refine_3 =>
    obtain ⟨hne, hzero⟩ := harity' hop
    refine ⟨hne, hwrong value ?_⟩
    by_cases heq : op = .equal ∨ op = .notEqual
    case pos =>
      rw [if_pos heq, when_eq_nil_iff] at htypes
      simpa [hne, hzero] using htypes
    case neg =>
      refine (hordered ?_).2
      cases op
      case equal | notEqual => simp at heq
      all_goals first | rfl | cases hop

theorem Validated.compareNode (h : d.Validated fields) {field value : Nat} {op : CompareOp}
    (hk : d.kind node = some .compare) (hc : d.compare node = some (field, op, value)) :
    ∃ kind, fields.kind field = some kind ∧ d.CompareNode node op value kind := by
  have columns := h.toColumns
  obtain ⟨i, rfl, hi, hkind⟩ := exists_row columns hk
  generalize href : d.nodeRefs.getD i 0 = ref at *
  simp only [Document.compare, payload_eq_some columns (· == .compare) hk rfl, href,
    Option.bind_eq_bind, Option.bind_some, Option.bind_eq_some_iff, Option.pure_def,
    Option.some.injEq, Prod.mk.injEq, Nat.add_sub_cancel] at hc
  obtain ⟨field, hfield, op, hop, value, hvalue, rfl, rfl, rfl⟩ := hc
  have hlt := (List.getElem?_eq_some_iff.mp hfield).1
  have ⟨⟨kind, hfk⟩, hle⟩ := h.compareRow hlt
  have hsem := rows_eq_nil_iff.mp h.expressions i hi
  simp only [checkExpressionRow, h.nodeUnsafe hi, Bool.false_eq_true, if_false, hkind, href,
    columns.compareRows, if_pos hlt, List.append_eq_nil_iff] at hsem
  have hsem := hsem.1
  have hfield' : d.compareFields.getD ref 0 = field := by
    rw [List.getD_eq_getElem?_getD, hfield, Option.getD_some]
  have hop' : d.compareOps.getD ref .invalid = op := by
    rw [List.getD_eq_getElem?_getD, hop, Option.getD_some]
  have hvalue' : d.compareValues.getD ref 0 = value := by
    rw [List.getD_eq_getElem?_getD, hvalue, Option.getD_some]
  rw [hfield'] at hfk
  have hlist : validRange (d.compareListStarts.getD ref 0) (d.compareListCounts.getD ref 0)
      d.listValueIDs.length := validRange_eq_true_iff.mpr hle
  simp only [checkCompareRowSemantics, hfield', hop', hvalue', hlist, Bool.not_true, Bool.false_eq_true,
    if_false] at hsem
  have ⟨_, hsem⟩ := Checked.ite_eq_of_ne hsem nofun
  have ⟨harity, htypes⟩ := List.append_eq_nil_iff.mp hsem
  refine ⟨kind, hfk, compareNode_of_checks harity htypes hfk (Region.length_read hle) fun values hv => ?_⟩
  simp only [inValues, compareListRange, payload_eq_some columns (· == .compare) hk rfl, href, rangeAt,
    Option.bind_eq_bind, Option.bind_some, Option.bind_eq_some_iff, Option.pure_def,
    Option.some.injEq, Option.ite_none_left_eq_some, Nat.add_sub_cancel] at hv
  obtain ⟨_, _, _, ⟨start, count⟩, ⟨start', hs, count', hc, _, hp⟩, rfl⟩ := hv
  cases hp
  rw [List.getD_eq_getElem?_getD, List.getD_eq_getElem?_getD, hs, hc, Option.getD_some, Option.getD_some]

theorem Validated.evidenceNode (h : d.Validated fields) {m : EvidenceMatch}
    (hm : d.evidenceMatch node = some m) : m.kind ≠ 0 ∧ m.kind ≤ d.evidenceKindNames.length ∧
      m.state ≠ 0 ∧ m.state ≤ d.evidenceStateNames.length := by
  have columns := h.toColumns
  simp only [evidenceMatch, Option.bind_eq_bind, Option.bind_eq_some_iff, Option.pure_def,
    Option.some.injEq] at hm
  obtain ⟨ref, _, kind, hkind, state, hstate, _, _, _, _, _, _, rfl⟩ := hm
  have hlt := (List.getElem?_eq_some_iff.mp hkind).1
  have hrow := rows_eq_nil_iff.mp h.evidence ref (by rw [columns.evidenceStates]; simpa using hlt)
  simp only [checkEvidenceRow, List.getD_eq_getElem?_getD, hkind, hstate, Option.getD_some,
    List.append_eq_nil_iff, when_eq_nil_iff, Bool.or_eq_false_iff, beq_eq_false_iff_ne,
    decide_eq_false_iff_not, Nat.not_lt] at hrow
  exact ⟨hrow.1.1.1.1, hrow.1.1.1.2, hrow.1.1.2.1, hrow.1.1.2.2⟩

end NornRune.Document
