import Mathlib.Tactic.Tauto
import NornRune.Execution.Theorems.Reported
import NornRune.Target.Program
import NornRune.Target.Theorems.Leaf

namespace NornRune

-- The leaves of a program are all there is to it, apart from its resolver.

theorem FieldIndex.copyAll_leaves (s : FieldIndex) : copyAll s leaves = some fun _ => s := by
  have hcounts : (fun kind => (ValueKind.codes.map s.counts).getD (ValueKind.codes.idxOf kind) 0) =
      s.counts := by
    funext kind
    cases kind <;> rfl
  simp only [leaves, copyAll, ProgramLeaf.column, ProgramLeaf.slice, ProgramLeaf.array,
    ProgramLeaf.ofScalars, dif_pos s.kinds_le, hcounts]
  rfl

namespace Program

variable (p : Program)

theorem copyAll_instructionLeaves : copyAll p instructionLeaves = some fun u =>
    { u with
      opcodes := p.opcodes, fields := p.fields, values := p.values, listStarts := p.listStarts,
      listCounts := p.listCounts, operandStarts := p.operandStarts,
      operandCounts := p.operandCounts, evidenceKinds := p.evidenceKinds,
      evidenceStates := p.evidenceStates, evidenceSubjects := p.evidenceSubjects,
      evidenceScopes := p.evidenceScopes, evidenceTimings := p.evidenceTimings,
      rootFlags := p.rootFlags, truthSlots := p.truthSlots, reasonSlots := p.reasonSlots,
      instructionNodes := p.instructionNodes,
      instructionSourceStarts := p.instructionSourceStarts,
      instructionSourceEnds := p.instructionSourceEnds, listValues := p.listValues,
      operands := p.operands, opcodeRunOpcodes := p.opcodeRunOpcodes,
      opcodeRunStarts := p.opcodeRunStarts, opcodeRunCounts := p.opcodeRunCounts,
      nodeInstructionStarts := p.nodeInstructionStarts,
      nodeInstructionCounts := p.nodeInstructionCounts,
      nodeInstructionIDs := p.nodeInstructionIDs } :=
  rfl

theorem copyAll_constantLeaves : copyAll p constantLeaves = some fun u =>
    { u with
      symbolBytes := p.symbolBytes, symbolStarts := p.symbolStarts,
      symbolLengths := p.symbolLengths, symbolHashes := p.symbolHashes, symbolIDs := p.symbolIDs,
      valueKinds := p.valueKinds, valueRefs := p.valueRefs, integerValues := p.integerValues,
      booleanValues := p.booleanValues, timestampValues := p.timestampValues } :=
  rfl

theorem copyAll_issueLeaves : copyAll p issueLeaves = some fun u =>
    { u with
      evidenceIssueNodeIDs := p.evidenceIssueNodeIDs,
      evidenceIssueTemplateIDs := p.evidenceIssueTemplateIDs } :=
  rfl

theorem copyAll_catalogLeaves : copyAll p catalogLeaves = some fun u =>
    { u with
      fieldNames := p.fieldNames, fieldKinds := p.fieldKinds, fieldGroups := p.fieldGroups,
      evidenceKindNames := p.evidenceKindNames, evidenceStateNames := p.evidenceStateNames } :=
  rfl

theorem copyAll_requirementLeaves : copyAll p requirementLeaves = some fun u =>
    { u with
      requirementIDs := p.requirementIDs, requirementRoots := p.requirementRoots,
      requirementSourceNodeIDs := p.requirementSourceNodeIDs,
      requirementClauseStarts := p.requirementClauseStarts,
      requirementClauseCounts := p.requirementClauseCounts,
      requirementClauseIDs := p.requirementClauseIDs } :=
  rfl

theorem copyAll_clauseLeaves : copyAll p clauseLeaves = some fun u =>
    { u with
      clauseAssertionRoots := p.clauseAssertionRoots,
      clauseAssertionSourceNodeIDs := p.clauseAssertionSourceNodeIDs,
      clauseEvidenceStarts := p.clauseEvidenceStarts,
      clauseEvidenceCounts := p.clauseEvidenceCounts, clauseEvidenceIDs := p.clauseEvidenceIDs,
      clauseEvidenceSourceNodeIDs := p.clauseEvidenceSourceNodeIDs,
      clauseOnSatisfied := p.clauseOnSatisfied, clauseOnFalse := p.clauseOnFalse,
      clauseExplanationIDs := p.clauseExplanationIDs,
      clauseRemediationStarts := p.clauseRemediationStarts,
      clauseRemediationCounts := p.clauseRemediationCounts,
      clauseRemediationIDs := p.clauseRemediationIDs } :=
  rfl

theorem copyAll_explanationLeaves : copyAll p explanationLeaves = some fun u =>
    { u with templates := p.templates, explanations := p.explanations } :=
  copyAll_append
    (copyAll_map_lift (g := fun _ => p.templates) (fun _ _ => rfl) (List.cons_ne_nil _ _) rfl)
    (copyAll_map_lift (g := fun _ => p.explanations) (fun _ _ => rfl) (List.cons_ne_nil _ _) rfl)

theorem copyAll_tableLeaves : copyAll p tableLeaves = some fun u =>
    u.withTables p.outcomes p.remediations p.resolutions :=
  copyAll_append
    (copyAll_append
      (copyAll_map_lift (g := fun _ => p.outcomes) (fun _ _ => rfl) (List.cons_ne_nil _ _) rfl)
      (copyAll_map_lift (g := fun _ => p.remediations) (fun _ _ => rfl) (List.cons_ne_nil _ _) rfl))
    (copyAll_map_lift (g := fun _ => p.resolutions) (fun _ _ => rfl) (List.cons_ne_nil _ _) rfl)

theorem copyAll_indexLeaves : copyAll p indexLeaves = some fun u =>
    { u with
      applicabilityIndex := p.applicabilityIndex, factIndexSpec := p.factIndexSpec,
      fieldIndex := p.fieldIndex } :=
  copyAll_append
    (copyAll_append
      (copyAll_map_lift (g := fun _ => p.applicabilityIndex) (fun _ _ => rfl) (List.cons_ne_nil _ _) rfl)
      (copyAll_map_lift (g := fun _ => p.factIndexSpec) (fun _ _ => rfl) (List.cons_ne_nil _ _) rfl))
    (copyAll_map_lift (fun _ _ => rfl) (List.cons_ne_nil _ _) p.fieldIndex.copyAll_leaves)

theorem copyAll_scalarLeaves : copyAll p scalarLeaves = some fun u =>
    { u with
      policyName := p.policyName, policyVersion := p.policyVersion,
      programSymbolCount := p.programSymbolCount, programSymbolCount_le := p.programSymbolCount_le,
      truthSlotCount := p.truthSlotCount, reasonSlotCount := p.reasonSlotCount } := by
  simp only [scalarLeaves, copyAll, ProgramLeaf.scalar, ProgramLeaf.ofScalars, List.head?_cons,
    Option.bind_some, dif_pos p.programSymbolCount_le]
  rfl

def bare : Program :=
  p.withTables p.outcomes p.remediations p.resolutions

end Program

namespace ProgramFile

variable (f : ProgramFile)

def bare : ProgramFile :=
  { f with program := f.program.bare }

theorem copyAll_catalogSpanLeaves : copyAll f catalogSpanLeaves = some fun u =>
    { u with
      evidenceKindSourceStarts := f.evidenceKindSourceStarts,
      evidenceKindSourceEnds := f.evidenceKindSourceEnds,
      evidenceStateSourceStarts := f.evidenceStateSourceStarts,
      evidenceStateSourceEnds := f.evidenceStateSourceEnds,
      outcomeSourceStarts := f.outcomeSourceStarts, outcomeSourceEnds := f.outcomeSourceEnds,
      remediationSourceStarts := f.remediationSourceStarts,
      remediationSourceEnds := f.remediationSourceEnds } :=
  rfl

theorem copyAll_requirementSpanLeaves : copyAll f requirementSpanLeaves = some fun u =>
    { u with
      requirementSourceStarts := f.requirementSourceStarts,
      requirementSourceEnds := f.requirementSourceEnds } :=
  rfl

theorem copyAll_clauseSpanLeaves : copyAll f clauseSpanLeaves = some fun u =>
    { u with
      clauseSourceStarts := f.clauseSourceStarts, clauseSourceEnds := f.clauseSourceEnds } :=
  rfl

theorem copyAll_sourceLeaves : copyAll f sourceLeaves = some fun u =>
    { u with
      inputBytes := f.inputBytes } :=
  rfl

theorem copyAll_hashLeaves : copyAll f hashLeaves = some fun u =>
    { u with contentHash := f.contentHash, contentHash_length := f.contentHash_length } := by
  simp only [hashLeaves, copyAll, ProgramLeaf.array, ProgramLeaf.ofScalars,
    dif_pos f.contentHash_length]
  rfl

theorem copyAll_part {leaves : List (ProgramLeaf Program)} {g : Program → Program}
    (hne : leaves ≠ []) (h : copyAll f.program leaves = some g) :
    copyAll f (leaves.map part) = some fun u => { u with program := g u.program } :=
  copyAll_map_lift (fun _ _ => rfl) hne h

theorem copyAll_leaves : copyAll f leaves = some fun _ => f.bare := by
  have h₁ := copyAll_append f.program.copyAll_instructionLeaves f.program.copyAll_constantLeaves
  have h₁ := copyAll_append h₁ f.program.copyAll_explanationLeaves
  have h₁ := copyAll_append h₁ f.program.copyAll_issueLeaves
  have h₁ := copyAll_append h₁ f.program.copyAll_catalogLeaves
  have h := copyAll_append (f.copyAll_part (List.cons_ne_nil _ _) h₁) f.copyAll_catalogSpanLeaves
  have h := copyAll_append h (f.copyAll_part (List.cons_ne_nil _ _) f.program.copyAll_requirementLeaves)
  have h := copyAll_append h f.copyAll_requirementSpanLeaves
  have h := copyAll_append h (f.copyAll_part (List.cons_ne_nil _ _) f.program.copyAll_clauseLeaves)
  have h := copyAll_append h f.copyAll_clauseSpanLeaves
  have h := copyAll_append h (f.copyAll_part (List.cons_ne_nil _ _) f.program.copyAll_tableLeaves)
  have h := copyAll_append h f.copyAll_sourceLeaves
  have h := copyAll_append h (f.copyAll_part (List.cons_ne_nil _ _) f.program.copyAll_indexLeaves)
  have h := copyAll_append h f.copyAll_hashLeaves
  have h := copyAll_append h (f.copyAll_part (List.cons_ne_nil _ _) f.program.copyAll_scalarLeaves)
  refine h.trans (congrArg some (funext fun u => ?_))
  simp only [Function.comp_apply]
  rfl

end ProgramFile

-- The columns that are counted or reported, as far as a program that is read keeps to their types.
structure Program.Narrow (p : Program) : Prop where
  counts : ∀ n ∈ p.listCounts ++ p.operandCounts, n < 2 ^ 16
  words : ∀ n ∈ p.reported, n < 2 ^ 32

namespace Program

open ProgramLeaf (Keeps)

theorem keeps_instructionLeaves : ∀ leaf ∈ instructionLeaves, leaf.Keeps Narrow := by
  simp only [instructionLeaves, List.forall_mem_cons]
  constructorm* _ ∧ _
  all_goals
    first
    | exact Keeps.column fun _ _ h => ⟨h.counts, h.words⟩
    | exact Keeps.unsigned fun xs hxs v h => ⟨by
        have hc := h.counts
        simp only [List.forall_mem_append] at hc ⊢
        tauto, h.words⟩
    | exact fun _ h => by cases h

theorem keeps_word {get : Program → List Nat} {set : List Nat → Program → Program}
    (h : ∀ xs, (∀ x ∈ xs, x < 2 ^ 32) → ∀ v : Program, v.Narrow → (set xs v).Narrow) :
    (ProgramLeaf.column .uint32 get set).Keeps Narrow :=
  Keeps.unsigned h

theorem keeps_rowLeaves : ∀ leaf ∈ requirementLeaves ++ clauseLeaves, leaf.Keeps Narrow := by
  simp only [requirementLeaves, clauseLeaves, List.cons_append, List.nil_append, List.forall_mem_cons]
  constructorm* _ ∧ _
  all_goals
    first
    | exact Keeps.column fun _ _ h => ⟨h.counts, h.words⟩
    | exact keeps_word fun xs hxs v h => ⟨h.counts, by
        have hw := h.words
        simp only [reported, List.forall_mem_append] at hw ⊢
        tauto⟩
    | exact fun _ h => by cases h

theorem keeps_otherLeaves :
    ∀ leaf ∈ constantLeaves ++ issueLeaves ++ catalogLeaves ++ scalarLeaves, leaf.Keeps Narrow := by
  simp only [constantLeaves, issueLeaves, catalogLeaves, scalarLeaves, List.cons_append,
    List.nil_append, List.forall_mem_cons]
  constructorm* _ ∧ _
  all_goals
    first
    | exact Keeps.column fun _ _ h => ⟨h.counts, h.words⟩
    | exact Keeps.scalar fun _ _ hf v h => Option.some.inj hf ▸ ⟨h.counts, h.words⟩
    | exact fun _ h => by cases h
    | skip
  -- The number of symbols is checked before it is stored.
  refine Keeps.scalar fun n f hf v h => ?_
  split at hf
  case isTrue => exact Option.some.inj hf ▸ ⟨h.counts, h.words⟩
  case isFalse => cases hf

theorem keeps_map_lift {σ : Type} {leaves : List (ProgramLeaf σ)} {get : Program → σ}
    {update : (σ → σ) → Program → Program} (h : ∀ f v, v.Narrow → (update f v).Narrow) :
    ∀ leaf ∈ leaves.map (·.lift get update), leaf.Keeps Narrow := by
  intro leaf hleaf
  have ⟨inner, _, heq⟩ := List.mem_map.mp hleaf
  exact heq ▸ Keeps.lift (P := fun _ => True) (fun f _ v hv => h f v hv) fun _ _ _ _ _ _ => trivial

theorem keeps_partLeaves : ∀ leaf ∈ explanationLeaves ++ indexLeaves, leaf.Keeps Narrow := by
  simp only [explanationLeaves, indexLeaves, List.forall_mem_append]
  constructorm* _ ∧ _
  all_goals exact keeps_map_lift fun _ _ h => ⟨h.counts, h.words⟩

theorem keeps_tableLeaves : ∀ leaf ∈ tableLeaves, leaf.Keeps Narrow := by
  simp only [tableLeaves, List.forall_mem_append]
  refine ⟨⟨keeps_map_lift fun _ _ h => ⟨h.counts, h.words⟩,
    keeps_map_lift fun _ _ h => ⟨h.counts, h.words⟩⟩, fun leaf hleaf => ?_⟩
  have ⟨inner, hinner, heq⟩ := List.mem_map.mp hleaf
  let words (t : ResolutionTable) : Prop :=
    ∀ n ∈ t.outcomeIDs ++ t.explanationIDs ++ t.remediationIDs, n < 2 ^ 32
  have keeps : ∀ inner ∈ ResolutionTable.leaves, inner.Keeps words := by
    simp only [ResolutionTable.leaves, List.forall_mem_cons]
    constructorm* _ ∧ _
    all_goals
      first
      | exact Keeps.column fun _ _ h => h
      | exact Keeps.unsigned fun xs (hxs : ∀ x ∈ xs, x < 2 ^ 32) v (h : words v) => by
          simp only [words, List.forall_mem_append] at h ⊢
          tauto
      | exact fun _ h => by cases h
  refine heq ▸ Keeps.lift (fun f hf v h => ⟨h.counts, ?_⟩) (keeps inner hinner)
  have hw := h.words
  have hf := hf v.resolutions
  simp only [reported, words, List.forall_mem_append] at hw hf
  simp only [reported, updateResolutions, withTables, List.forall_mem_append]
  tauto

end Program

theorem ProgramFile.keeps_leaves : ∀ leaf ∈ leaves, leaf.Keeps fun f => f.program.Narrow := by
  have hpart : ∀ {leaves : List (ProgramLeaf Program)}, (∀ leaf ∈ leaves, leaf.Keeps Program.Narrow) →
      ∀ leaf ∈ leaves.map part, leaf.Keeps fun f => f.program.Narrow := by
    intro leaves h leaf hleaf
    have ⟨inner, hinner, heq⟩ := List.mem_map.mp hleaf
    exact heq ▸ .lift (fun f hf v hv => hf v.program hv) (h inner hinner)
  have hrows := List.forall_mem_append.mp Program.keeps_rowLeaves
  have hparts := List.forall_mem_append.mp Program.keeps_partLeaves
  have hothers := Program.keeps_otherLeaves
  simp only [List.forall_mem_append] at hothers
  have hspans : ∀ leaf ∈ catalogSpanLeaves ++ requirementSpanLeaves ++ clauseSpanLeaves ++ sourceLeaves,
      leaf.Keeps fun f => f.program.Narrow := by
    simp only [catalogSpanLeaves, requirementSpanLeaves, clauseSpanLeaves, sourceLeaves,
      List.cons_append, List.nil_append, List.forall_mem_cons]
    constructorm* _ ∧ _
    all_goals
      first
      | exact .column fun _ _ h => h
      | exact fun _ h => by cases h
  simp only [List.forall_mem_append] at hspans
  have hhash : ∀ leaf ∈ hashLeaves, leaf.Keeps fun f => f.program.Narrow := by
    refine List.forall_mem_singleton.mpr (.ofScalars _ fun xs f hf v h => ?_)
    split at hf
    case isTrue => exact Option.some.inj hf ▸ h
    case isFalse => cases hf
  simp only [leaves, List.map_append, List.forall_mem_append]
  exact ⟨⟨⟨⟨⟨⟨⟨⟨⟨⟨⟨⟨⟨⟨hpart Program.keeps_instructionLeaves, hpart hothers.1.1.1⟩, hpart hparts.1⟩,
    hpart hothers.1.1.2⟩, hpart hothers.1.2⟩, hspans.1.1.1⟩, hpart hrows.1⟩, hspans.1.1.2⟩,
    hpart hrows.2⟩, hspans.1.2⟩, hpart Program.keeps_tableLeaves⟩, hspans.2⟩, hpart hparts.2⟩, hhash⟩,
    hpart hothers.2⟩

end NornRune
