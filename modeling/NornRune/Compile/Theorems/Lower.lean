import NornRune.Compile.Meaning
import NornRune.Compile.Lower
import NornRune.Compile.Theorems.Values

open Checked

namespace NornRune

structure Assembled (c : Constants) (t : ScheduledTable) (s : Semantics) (slots : Slots)
    (indexes : Indexes) (p : Program) : Prop where
  opcodes : p.opcodes = t.rows.map (·.opcode)
  fields : p.fields = t.rows.map (·.field)
  values : p.values = t.rows.map (·.value)
  listStarts : p.listStarts = rangeStarts (t.rows.map (·.list))
  listCounts : p.listCounts = t.rows.map (·.list.length)
  operandStarts : p.operandStarts = rangeStarts (t.rows.map (·.operands))
  operandCounts : p.operandCounts = t.rows.map (·.operands.length)
  evidenceKinds : p.evidenceKinds = t.rows.map (·.evidenceKind)
  evidenceStates : p.evidenceStates = t.rows.map (·.evidenceState)
  evidenceSubjects : p.evidenceSubjects = t.rows.map (·.evidenceSubject)
  evidenceScopes : p.evidenceScopes = t.rows.map (·.evidenceScope)
  evidenceTimings : p.evidenceTimings = t.rows.map (·.evidenceTiming)
  rootFlags : p.rootFlags = t.rows.map (·.rootFlags)
  truthSlots : p.truthSlots = slots.truthSlots
  reasonSlots : p.reasonSlots = slots.reasonSlots
  instructionNodes : p.instructionNodes = t.rows.map (·.node)
  instructionSourceStarts : p.instructionSourceStarts = t.rows.map (·.span.start)
  instructionSourceEnds : p.instructionSourceEnds = t.rows.map (·.span.stop)
  listValues : p.listValues = t.rows.flatMap (·.list)
  operands : p.operands = t.rows.flatMap (·.operands)
  opcodeRunOpcodes : p.opcodeRunOpcodes = t.runs.map (·.opcode)
  opcodeRunStarts : p.opcodeRunStarts = t.runs.map (·.start)
  opcodeRunCounts : p.opcodeRunCounts = t.runs.map (·.count)
  nodeInstructionStarts : p.nodeInstructionStarts = Ragged.starts t.nodeMap
  nodeInstructionCounts : p.nodeInstructionCounts = t.nodeMap.map List.length
  nodeInstructionIDs : p.nodeInstructionIDs = t.nodeMap.flatten
  symbolBytes : p.symbolBytes = c.symbols.bytes
  symbolStarts : p.symbolStarts = c.symbols.starts
  symbolLengths : p.symbolLengths = c.symbols.lengths
  symbolHashes : p.symbolHashes = c.symbolHashes
  symbolIDs : p.symbolIDs = c.symbolIDs
  valueKinds : p.valueKinds = c.values.kinds
  valueRefs : p.valueRefs = c.values.refs
  integerValues : p.integerValues = c.values.integers
  booleanValues : p.booleanValues = c.values.booleans
  timestampValues : p.timestampValues = c.values.timestamps
  fieldNames : p.fieldNames = c.fieldNames
  fieldKinds : p.fieldKinds = c.fieldKinds
  fieldGroups : p.fieldGroups = c.fieldGroups
  evidenceKindNames : p.evidenceKindNames = c.evidenceKindNames
  evidenceStateNames : p.evidenceStateNames = c.evidenceStateNames
  requirementIDs : p.requirementIDs = s.requirementIDs
  requirementRoots : p.requirementRoots = s.requirementRoots
  requirementSourceNodeIDs : p.requirementSourceNodeIDs = s.requirementSourceNodeIDs
  requirementClauseStarts : p.requirementClauseStarts = s.requirementClauseStarts
  requirementClauseCounts : p.requirementClauseCounts = s.requirementClauseCounts
  requirementClauseIDs : p.requirementClauseIDs = s.requirementClauseIDs
  clauseAssertionRoots : p.clauseAssertionRoots = s.clauseAssertionRoots
  clauseAssertionSourceNodeIDs : p.clauseAssertionSourceNodeIDs = s.clauseAssertionSourceNodeIDs
  clauseEvidenceStarts : p.clauseEvidenceStarts = s.clauseEvidenceStarts
  clauseEvidenceCounts : p.clauseEvidenceCounts = s.clauseEvidenceCounts
  clauseEvidenceIDs : p.clauseEvidenceIDs = s.clauseEvidenceIDs
  clauseEvidenceSourceNodeIDs : p.clauseEvidenceSourceNodeIDs = s.clauseEvidenceSourceNodeIDs
  clauseOnSatisfied : p.clauseOnSatisfied = s.clauseOnSatisfied
  clauseOnFalse : p.clauseOnFalse = s.clauseOnFalse
  clauseExplanationIDs : p.clauseExplanationIDs = s.clauseExplanationIDs
  clauseRemediationStarts : p.clauseRemediationStarts = s.clauseRemediationStarts
  clauseRemediationCounts : p.clauseRemediationCounts = s.clauseRemediationCounts
  clauseRemediationIDs : p.clauseRemediationIDs = s.clauseRemediationIDs
  templates : p.templates = s.tables.templates
  explanations : p.explanations = s.tables.explanations
  evidenceIssueNodeIDs : p.evidenceIssueNodeIDs = s.tables.evidenceIssueNodeIDs
  evidenceIssueTemplateIDs : p.evidenceIssueTemplateIDs = s.tables.evidenceIssueTemplateIDs
  outcomes : p.outcomes = s.tables.outcomes
  remediations : p.remediations = s.tables.remediations
  resolutions : p.resolutions = s.tables.resolutions
  applicabilityIndex : p.applicabilityIndex = indexes.applicabilityIndex
  factIndexSpec : p.factIndexSpec = indexes.factIndexSpec
  fieldIndex : p.fieldIndex = indexes.fieldIndex
  policyName : p.policyName = c.policyName
  policyVersion : p.policyVersion = c.policyVersion
  programSymbolCount : p.programSymbolCount = c.programSymbolCount
  truthSlotCount : p.truthSlotCount = slots.truthSlotCount
  reasonSlotCount : p.reasonSlotCount = slots.reasonSlotCount
  resolver : s.tables.validateResultTables = .ok p.resolver

variable {c : Constants} {t : InstructionTable} {s : Semantics} {indexes : Indexes}

theorem freeze_eq_ok {t : ScheduledTable} {slots : Slots} {p : Program}
    (h : freeze c t s slots indexes = .ok p) :
    Assembled c t s slots indexes p := by
  unfold freeze at h
  split at h
  case h_1 => cases h
  case h_2 r hr =>
    cases h
    constructor
    case resolver => exact hr
    all_goals rfl

structure SemanticParts (c : Constants) (t : InstructionTable) (doc : Document) (s : Semantics) : Prop where
  outcomes : lowerOutcomes c.toValueWalk doc = .ok s.tables.outcomes
  remediations : lowerRemediations c.toValueWalk doc = .ok s.tables.remediations
  templates : c.lowerTemplates s.tables.outcomes doc = .ok s.tables.templates
  explanations : lowerExplanations doc = .ok s.tables.explanations
  evidenceIssues : lowerEvidenceIssues doc =
    .ok (s.tables.evidenceIssueNodeIDs, s.tables.evidenceIssueTemplateIDs)
  requirements : lowerRequirements t doc = .ok s.toRequirementColumns
  clauses : lowerClauses t doc = .ok s.toClauseColumns
  resolutions : lowerResolutions doc s.tables.outcomes s.toClauseColumns = .ok s.tables.resolutions
  explanationIDs : s.tables.clauseExplanationIDs = s.clauseExplanationIDs

theorem lowerSemantics_eq_ok {doc : Document} (h : lowerSemantics c t doc = .ok s) :
    SemanticParts c t doc s := by
  have ⟨outcomes, h₁, h⟩ := of_bind h
  have ⟨remediations, h₂, h⟩ := of_bind h
  have ⟨templates, h₃, h⟩ := of_bind h
  have ⟨explanations, h₄, h⟩ := of_bind h
  have ⟨(nodes, issues), h₅, h⟩ := of_bind h
  have ⟨requirements, h₆, h⟩ := of_bind h
  have ⟨clauses, h₇, h⟩ := of_bind h
  have ⟨resolutions, h₈, h⟩ := of_bind h
  simp only at h
  split at h
  case h_1 => cases h
  case h_2 =>
    cases h
    exact ⟨h₁, h₂, h₃, h₄, h₅, h₆, h₇, h₈, rfl⟩

theorem SemanticParts.remediationIDs {doc : Document} (h : SemanticParts c t doc s) :
    s.tables.resolutions.remediationIDs = s.clauseRemediationIDs := by
  have ⟨_, h⟩ := of_guard h.resolutions
  have ⟨_, _, h⟩ := of_bind h
  exact congrArg ResolutionTable.remediationIDs (Except.ok.inj h).symm

theorem liftIndexError_eq_ok {α : Type} {x : Except IndexError α} {a : α}
    (h : liftIndexError x = .ok a) : x = .ok a := by
  unfold liftIndexError at h
  split at h
  case h_1 => rw [Except.ok.inj h]
  case h_2 => cases h

structure IndexParts (c : Constants) (t : InstructionTable) (roots : List Nat)
    (constraints : List Constraint) (indexes : Indexes) : Prop where
  extracted : extractApplicabilityConstraints c t roots = .ok constraints
  fields : FieldIndex.build c.fieldKinds = .ok indexes.fieldIndex
  policy : Policy.build roots.length constraints = .ok indexes.applicabilityIndex
  facts : lowerFactIndexSpec c indexes.fieldIndex t.rows = .ok indexes.factIndexSpec

theorem lowerIndexes_eq_ok {roots : List Nat} (h : lowerIndexes c t roots = .ok indexes) :
    ∃ constraints, IndexParts c t roots constraints indexes := by
  have ⟨constraints, h₁, h⟩ := of_bind h
  have ⟨_, h₂, h⟩ := of_bind h
  have ⟨_, h₃, h⟩ := of_bind h
  have ⟨_, h₄, h⟩ := of_bind h
  cases h
  exact ⟨constraints, h₁, liftIndexError_eq_ok h₂, liftIndexError_eq_ok h₃, h₄⟩

structure Lowered (doc : Document) (fields : Schema) (symbols : Interner) (c : Constants)
    (t₀ : InstructionTable) (t : ScheduledTable) (s : Semantics) (slots : Slots) (indexes : Indexes)
    (p : Program) : Prop where
  columns : Assembled c t s slots indexes p
  valid : doc.validate fields = []
  requirements : doc.requirementIDs.length ≠ 0
  clauses : doc.clauseAssertionRoots.length ≠ 0
  constants : lowerConstants doc fields symbols = .ok c
  candidates : lowerCandidates c.toValueWalk doc = .ok t₀
  schedule : scheduleInstructions t₀ = .ok t
  semantics : lowerSemantics c t.toInstructionTable doc = .ok s
  slots : assignSlots t.toInstructionTable = .ok slots
  indexes : lowerIndexes c t.toInstructionTable s.requirementRoots = .ok indexes

section Lowered

variable {doc : Document} {fields : Schema} {symbols : Interner} {c : Constants}
  {t₀ : InstructionTable} {t : ScheduledTable} {s : Semantics} {slots : Slots} {indexes : Indexes}
  {p : Program}

theorem lower_eq_ok (h : lower doc fields symbols = .ok p) :
    ∃ c t₀ t s slots indexes, Lowered doc fields symbols c t₀ t s slots indexes p := by
  have ⟨hv, h⟩ := of_guard h
  have ⟨hne, h⟩ := of_guard h
  have ⟨c, hc, h⟩ := of_bind h
  have ⟨t₀, ht₀, h⟩ := of_bind h
  have ⟨t, ht, h⟩ := of_bind h
  have ⟨s, hs, h⟩ := of_bind h
  have ⟨slots, hslots, h⟩ := of_bind h
  have ⟨indexes, hi, h⟩ := of_bind h
  rw [not_or] at hne
  exact ⟨c, t₀, t, s, slots, indexes, {
    columns := freeze_eq_ok h
    valid := not_not.mp hv
    requirements := hne.1
    clauses := hne.2
    constants := hc
    candidates := ht₀
    schedule := ht
    semantics := hs
    slots := hslots
    indexes := hi }⟩

end Lowered

namespace Program

variable {p : Program} {names : List (List Byte)} {slots : List (Option FrozenSlot)}

structure Named (p : Program) (names : List (List Byte)) : Prop where
  bytes : p.symbolBytes = names.flatten
  starts : p.symbolStarts = Ragged.starts names
  lengths : p.symbolLengths = names.map List.length
  count : p.programSymbolCount = names.length
  nodup : names.Nodup
  frozen : ∃ slots, Frozen names slots names.length ∧
    p.symbolHashes = slots.map (fun slot => (slot.map (·.hash)).getD 0) ∧
    p.symbolIDs = slots.map (fun slot => (slot.map (·.id)).getD 0)

variable {id : Nat}

theorem Named.symbol_eq (h : p.Named names) (hid : id ≠ 0) : p.symbol id = names[id - 1]? :=
  SymbolTable.symbol_eq_getElem? (t := ⟨p.symbolBytes, p.symbolStarts, p.symbolLengths, []⟩)
    h.bytes h.starts h.lengths hid

def sameSymbol (p : Program) (b : List Byte) (s : FrozenSlot) : Bool :=
  s.hash == hashSymbol b && p.symbol s.id == some b

theorem probe_eq (hf : Frozen names slots names.length)
    (hashes : p.symbolHashes = slots.map (fun slot => (slot.map (·.hash)).getD 0))
    (ids : p.symbolIDs = slots.map (fun slot => (slot.map (·.id)).getD 0)) (b : List Byte)
    (probes slot : Nat) :
    p.probe b (hashSymbol b) probes (slot % slots.length) =
      match Probe.search slots (p.sameSymbol b) probes slot with
      | .entry s => some s.id
      | _ => none := by
  have ⟨k, hk⟩ := hf.length
  have hlt : slot % slots.length < slots.length := Nat.mod_lt _ (hk ▸ Nat.two_pow_pos k)
  induction probes generalizing slot
  case zero => rfl
  case succ probes ih =>
    have hid : p.symbolIDs.getD (slot % slots.length) 0 =
        ((slots.getD (slot % slots.length) none).map (·.id)).getD 0 := by
      rw [ids, List.getD_eq_getElem _ _ (by simpa using hlt), List.getElem_map,
        List.getD_eq_getElem _ _ hlt]
    have hhash : p.symbolHashes.getD (slot % slots.length) 0 =
        ((slots.getD (slot % slots.length) none).map (·.hash)).getD 0 := by
      rw [hashes, List.getD_eq_getElem _ _ (by simpa using hlt), List.getElem_map,
        List.getD_eq_getElem _ _ hlt]
    have hnext : (slot % slots.length + 1) &&& (p.symbolHashes.length - 1) = (slot + 1) % slots.length := by
      rw [hashes, List.length_map, hk, Nat.and_two_pow_sub_one_eq_mod, Nat.mod_add_mod]
    rw [probe, Probe.search, hid, hhash, hnext, ih (slot + 1) (Nat.mod_lt _ (by omega))]
    cases hs : slots.getD (slot % slots.length) none
    case none => rfl
    case some s =>
      have ⟨i, _, _, _, heq⟩ := (hf.slots s).mp (Probe.mem_of_getD hs)
      have hid : s.id ≠ 0 := by rw [heq]; exact i.succ_ne_zero
      simp only [Option.map_some, Option.getD_some, if_neg hid, sameSymbol, Bool.and_eq_true, beq_iff_eq]
      split
      case isTrue hsame => rfl
      case isFalse => rfl

theorem lookupSymbol_eq_find (hf : Frozen names slots names.length)
    (hashes : p.symbolHashes = slots.map (fun slot => (slot.map (·.hash)).getD 0))
    (ids : p.symbolIDs = slots.map (fun slot => (slot.map (·.id)).getD 0)) (b : List Byte) :
    p.lookupSymbol b =
      match Probe.find slots (p.sameSymbol b) (hashSymbol b).toNat with
      | .entry s => some s.id
      | _ => none := by
  have ⟨k, hk⟩ := hf.length
  have hlen : p.symbolHashes.length = 2 ^ k := by rw [hashes, List.length_map, hk]
  have hvalid : ¬(p.symbolHashes.length = 0 ∨ p.symbolHashes.length ≠ p.symbolIDs.length ∨
      p.symbolHashes.length &&& (p.symbolHashes.length - 1) ≠ 0) := by
    rw [hlen, ids, List.length_map, hk, Nat.and_two_pow_sub_one_eq_mod, Nat.mod_self]
    simp
  have hmask : (hashSymbol b).toNat &&& (p.symbolHashes.length - 1) =
      (hashSymbol b).toNat % slots.length := by
    rw [hlen, Nat.and_two_pow_sub_one_eq_mod, hk]
  have hprobe := probe_eq hf hashes ids b slots.length ((hashSymbol b).toNat % slots.length)
  rw [Nat.mod_mod] at hprobe
  simp only [lookupSymbol, if_neg hvalid, hmask]
  rw [hlen, ← hk, hprobe]
  rfl

theorem Named.lookupSymbol_eq_some (h : p.Named names) {b : List Byte} :
    p.lookupSymbol b = some id ↔ id ≠ 0 ∧ names[id - 1]? = some b := by
  have ⟨slots, hf, hashes, ids⟩ := h.frozen
  rw [lookupSymbol_eq_find hf hashes ids]
  constructor
  · intro hfind
    split at hfind
    case h_2 => cases hfind
    case h_1 s hs =>
      cases hfind
      have ⟨hmem, hsame⟩ := Probe.mem_of_find hs
      have ⟨i, _, b', hb', heq⟩ := (hf.slots s).mp hmem
      have hid : s.id ≠ 0 := by rw [heq]; exact i.succ_ne_zero
      rw [sameSymbol, Bool.and_eq_true, beq_iff_eq, beq_iff_eq, h.symbol_eq hid] at hsame
      exact ⟨hid, hsame.2⟩
  · intro ⟨hid, hname⟩
    have ⟨hlt, hget⟩ := List.getElem?_eq_some_iff.mp hname
    have hmem : some ⟨hashSymbol b, id⟩ ∈ slots :=
      (hf.slots _).mpr ⟨id - 1, hlt, b, hname, by rw [Nat.sub_add_cancel (Nat.pos_of_ne_zero hid)]⟩
    have hsame : p.sameSymbol b ⟨hashSymbol b, id⟩ := by simp [sameSymbol, h.symbol_eq hid, hname]
    have hfind := Probe.find_of_placed hf.placed hmem hsame fun s hs hsame => ?_
    · rw [hfind]
    · have ⟨i, hi, b', hb', heq⟩ := (hf.slots s).mp hs
      rw [sameSymbol, Bool.and_eq_true, beq_iff_eq, beq_iff_eq, heq, h.symbol_eq i.succ_ne_zero,
        Nat.succ_sub_one, hb'] at hsame
      cases hsame.2
      have : i = id - 1 := (List.getElem?_inj hi h.nodup).mp (hb'.trans hname.symm)
      rw [heq, this, Nat.sub_add_cancel (Nat.pos_of_ne_zero hid)]

end Program

theorem Assembled.named {t : ScheduledTable} {slots : Slots} {p : Program}
    (a : Assembled c t s slots indexes p) {names : List (List Byte)} (h : c.Holds names) :
    p.Named names where
  bytes := a.symbolBytes.trans h.symbols.bytes
  starts := a.symbolStarts.trans h.symbols.starts
  lengths := a.symbolLengths.trans h.symbols.lengths
  count := by rw [a.programSymbolCount, Constants.programSymbolCount, h.symbols.starts, Ragged.length_starts]
  nodup := h.symbols.nodup
  frozen := by
    rw [a.symbolHashes, a.symbolIDs]
    exact h.frozen

def nestedProgram : Program :=
  (lower nestedPolicy flagSchema flagSymbols).toOption.get (by decide +kernel)

theorem lower_nestedPolicy : lower nestedPolicy flagSchema flagSymbols = .ok nestedProgram :=
  eq_ok_of_toOption _

end NornRune
