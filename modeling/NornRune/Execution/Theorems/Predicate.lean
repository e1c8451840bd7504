import NornRune.Execution.Theorems.Leaf

open Bitplane Checked

namespace NornRune

variable {p : Program} {batch : Batch} {opcode : Opcode} {kind : ValueKind} {column : Nat}
  {operand : Operand} {field : Nat}

structure FieldFound (p : Program) (field : Nat) (kind : ValueKind) (column : Nat) : Prop where
  lookup : p.fieldIndex.lookup field = some (kind, column)
  lt_kinds : field - 1 < p.fieldIndex.kinds.length
  valid : kind.valid
  lt_count : column < p.fieldIndex.counts kind

theorem predicateField_eq_ok (h : predicateField p field = .ok (kind, column)) :
    FieldFound p field kind column := by
  unfold predicateField at h
  split at h
  case h_1 => cases h
  case h_2 k c hl =>
    have ⟨hv, h⟩ := ite_eq_of_ne h nofun
    have ⟨hc, h⟩ := ite_eq_of_ne h nofun
    cases h
    refine ⟨hl, ?_, by simpa using hv, Nat.lt_of_not_le hc⟩
    unfold FieldIndex.lookup at hl
    split at hl
    · cases hl
    · split at hl
      case h_1 hk _ => exact List.getElem?_eq_some_iff.mp hk |>.1
      case h_2 => cases hl

variable {dst reasons : List Word} {row : Nat} {q : Predicate}

theorem bit_setWhere_column {α : Type} (c : α → Bool) {values : List α} {x : α} {r : Nat}
    (hd : dst.length = wordCount batch.rows) (hr : r < batch.rows) :
    bit (setWhere (fun request => c ((batch.columnRows values column).getD request x)) batch.rows
      dst) r =
      (bit dst r || c (values.getD (column * batch.sourceRows + batch.rowBase + r) x)) := by
  rw [bit_setWhere _ (hd ▸ Nat.le_refl _), Batch.getD_columnRows hr]
  simp [hr]

theorem exists_wordMatches (opcode : Opcode) (fits : batch.Fits p) (hc : column < p.fieldIndex.counts kind)
    (hv : kind.valid) (hp : kind ≠ .presence) (v : PredicateValue) :
    ∃ g : Nat → Word, (∀ word, wordMatches batch opcode kind column v word = .ok (g word)) ∧
      ∀ r < batch.rows, (g (r / 64)).getLsbD (r % 64) =
        Predicate.compares opcode kind column (batch.row r) v := by
  cases kind
  case invalid => cases hv
  case presence => exact absurd rfl hp
  case symbol =>
    refine ⟨_, fun word => by
      simp only [wordMatches, Batch.rowColumn_eq_ok fits fits.symbols hc]; rfl, fun r hr => ?_⟩
    rw [getLsbD_matchWord _ hr, Batch.getD_columnRows hr]
    rfl
  case integer =>
    refine ⟨_, fun word => by
      simp only [wordMatches, Batch.rowColumn_eq_ok fits fits.integers hc]; rfl, fun r hr => ?_⟩
    rw [getLsbD_matchWord _ hr, Batch.getD_columnRows hr]
    rfl
  case timestamp =>
    refine ⟨_, fun word => by
      simp only [wordMatches, Batch.rowColumn_eq_ok fits fits.timestamps hc]; rfl, fun r hr => ?_⟩
    rw [getLsbD_matchWord _ hr, Batch.getD_columnRows hr]
    rfl
  case boolean =>
    refine ⟨_, fun word => by
      simp only [wordMatches, Batch.wordColumn_eq_ok fits fits.booleans hc]; rfl, fun r hr => ?_⟩
    have hmod : r % 64 < 64 := Nat.mod_lt _ (by decide)
    have hb : (batch.row r).boolean column = _ := (@Batch.bit_columnWords batch _ column r hr).symm
    simp only [Predicate.compares, hb, bit]
    by_cases ho : opcode = .notEqual
    · cases v.boolean <;> simp [ho, hmod]
    · have hne := bne_iff_ne.mpr ho
      cases v.boolean <;> simp [ho, hne, hmod]

theorem fillInMatches_spec (fits : batch.Fits p) (hc : column < p.fieldIndex.counts kind)
    (hv : kind.valid) (hp : kind ≠ .presence) (v : PredicateValue)
    (hd : dst.length = wordCount batch.rows) :
    ∃ dst', fillInMatches batch kind column dst v = .ok dst' ∧ dst'.length = dst.length ∧
      ∀ r < batch.rows, bit dst' r =
        (bit dst r || Predicate.equals kind column (batch.row r) v) := by
  cases kind
  case invalid => cases hv
  case presence => exact absurd rfl hp
  case boolean =>
    have hlen := Batch.length_columnWords fits fits.booleans hc
    refine ⟨_, by simp only [fillInMatches, Batch.wordColumn_eq_ok fits fits.booleans hc]; rfl,
      by simp [hd, hlen], fun r hr => ?_⟩
    have hw := div_lt_wordCount hr
    have hmod : r % 64 < 64 := Nat.mod_lt _ (by decide)
    have hb : (batch.row r).boolean column = _ := (@Batch.bit_columnWords batch _ column r hr).symm
    simp only [Predicate.equals, hb]
    rw [bit_eq_getElem (by simp [hd, hlen, hw]), bit_eq_getElem (by omega),
      bit_eq_getElem (by omega)]
    cases v.boolean <;> simp [hmod]
  case symbol =>
    exact ⟨_, by simp only [fillInMatches, Batch.rowColumn_eq_ok fits fits.symbols hc]; rfl, by simp,
      fun r hr => bit_setWhere_column (· == v.symbol) hd hr⟩
  case integer =>
    exact ⟨_, by simp only [fillInMatches, Batch.rowColumn_eq_ok fits fits.integers hc]; rfl, by simp,
      fun r hr => bit_setWhere_column (· == v.integer) hd hr⟩
  case timestamp =>
    exact ⟨_, by simp only [fillInMatches, Batch.rowColumn_eq_ok fits fits.timestamps hc]; rfl,
      by simp, fun r hr => bit_setWhere_column (· == v.timestamp) hd hr⟩

theorem foldlM_fillInMatches (fits : batch.Fits p) (hc : column < p.fieldIndex.counts kind)
    (hv : kind.valid) (hp : kind ≠ .presence) (vs : List PredicateValue)
    (hd : dst.length = wordCount batch.rows) :
    ∃ dst', vs.foldlM (fillInMatches batch kind column) dst = .ok dst' ∧
      dst'.length = wordCount batch.rows ∧
      ∀ r < batch.rows, bit dst' r =
        (bit dst r || vs.any (Predicate.equals kind column (batch.row r))) := by
  induction vs generalizing dst
  case nil => exact ⟨dst, rfl, hd, by simp⟩
  case cons v vs hi =>
    have ⟨d₁, h₁, hl₁, hb₁⟩ := fillInMatches_spec fits hc hv hp v hd
    have ⟨d₂, h₂, hl₂, hb₂⟩ := hi (hl₁.trans hd)
    refine ⟨d₂, by simp [List.foldlM_cons, h₁, h₂], hl₂, fun r hr => ?_⟩
    simp [hb₂ r hr, hb₁ r hr, Bool.or_assoc]

theorem operandMatches_spec (opcode : Opcode) (field : Nat) (fits : batch.Fits p)
    (hc : column < p.fieldIndex.counts kind) (hv : kind.valid)
    (hp : kind ≠ .presence ∨ operand = .none) :
    ∃ ms, operandMatches batch opcode kind column (List.replicate (wordCount batch.rows) 0#64)
        operand = .ok ms ∧
      ∀ r < batch.rows, (ms.getD (r / 64) 0#64).getLsbD (r % 64) =
        Predicate.holds ⟨opcode, field, kind, column, operand⟩ (batch.row r) := by
  cases operand
  case none => exact ⟨_, rfl, fun r _ => bit_replicate_zero _ r⟩
  case value v =>
    obtain ⟨g, hg, hb⟩ := exists_wordMatches opcode fits hc hv (hp.resolve_right (by simp)) v
    refine ⟨_, mapM_eq_ok fun word _ => hg word, fun r hr => ?_⟩
    rw [← bit, bit_map_range _ (div_lt_wordCount hr)]
    exact hb r hr
  case list vs =>
    obtain ⟨d, hd, _, hb⟩ := foldlM_fillInMatches fits hc hv (hp.resolve_right (by simp)) vs
      (List.length_replicate (n := wordCount batch.rows) (a := 0#64))
    refine ⟨d, hd, fun r hr => ?_⟩
    rw [← bit, hb r hr, bit_replicate_zero, Bool.false_or]
    rfl

structure Predicate.Resolved (p : Program) (row : Nat) (q : Predicate) : Prop where
  opcode : q.opcode = p.opcodes.getD row .invalid
  field : q.field = p.fields.getD row 0
  found : predicateField p q.field = .ok (q.kind, q.column)
  operand : predicateOperand p row q.opcode q.kind = .ok q.operand
  kind : requirePredicateKind q.opcode q.kind = .ok ()

theorem resolvePredicate_eq_ok (h : resolvePredicate p row = .ok q) :
    q.Resolved p row := by
  unfold resolvePredicate at h
  have ⟨⟨kind, column⟩, hf, h⟩ := of_bind h
  have ⟨operand, ho, h⟩ := of_bind h
  have ⟨_, hk, h⟩ := of_bind h
  cases h
  exact ⟨rfl, rfl, hf, ho, hk⟩

def Instr.Resolved (p : Program) (row : Nat) : Instr → Prop
  | constant _ => p.opcodes.getD row .invalid = .boolean
  | predicate q => (p.opcodes.getD row .invalid).isPredicate ∧ q.Resolved p row
  | evidence _ => p.opcodes.getD row .invalid = .evidence
  | all operands => p.opcodes.getD row .invalid = .all ∧ operands = p.operandsOf row
  | any operands => p.opcodes.getD row .invalid = .any ∧ operands = p.operandsOf row
  | not operand => p.opcodes.getD row .invalid = .not ∧ operand = (p.operandsOf row).headD 0

theorem resolveInstr_eq_ok {instr : Instr} (h : resolveInstr p row = .ok instr) :
    instr.Resolved p row := by
  unfold resolveInstr at h
  cases ho : p.opcodes.getD row .invalid
  all_goals simp only [ho] at h
  case invalid => cases h
  case all | any | not =>
    cases h
    exact ⟨ho, rfl⟩
  case boolean =>
    have ⟨_, _, h⟩ := of_bind h
    cases h
    exact ho
  case evidence =>
    have ⟨_, h⟩ := require_bind_eq_ok_iff.mp h
    cases h
    exact ho
  all_goals
    have ⟨_, hq, h⟩ := of_bind h
    cases h
    exact ⟨by rw [ho]; rfl, resolvePredicate_eq_ok hq⟩

theorem Predicate.Resolved.kind_or_operand (h : q.Resolved p row) :
    q.kind ≠ .presence ∨ q.operand = .none := by
  by_cases hp : q.kind = .presence
  case neg => exact .inl hp
  case pos =>
    have ⟨hk, _⟩ := require_bind_eq_ok_iff.mp h.kind
    have ho := h.operand
    simp only [hp, bne_self_eq_false, Bool.false_or, Bool.or_eq_true, beq_iff_eq] at hk
    rcases hk with hk | hk
    all_goals
      simp only [hk, predicateOperand, require_bind_eq_ok_iff] at ho
      exact .inr (Except.ok.inj ho.2).symm

theorem evalPredicate_holds {dst : Planes} (fits : batch.Fits p)
    (hd : dst.Shaped (wordCount batch.rows))
    (hr : reasons.length = reasonCount * wordCount batch.rows) (ho : row < p.opcodes.length)
    (hf : row < p.fields.length) (hv : row < p.values.length)
    (hop : (p.opcodes.getD row .invalid).isPredicate) (h : q.Resolved p row) :
    ∃ leaf, evalPredicate dst reasons batch p (row + 1) = .ok leaf ∧
      leaf.Holds batch.rows fun r => q.lane (batch.row r) := by
  have found := predicateField_eq_ok h.found
  have ⟨ms, hm, hb⟩ := operandMatches_spec q.opcode q.field fits found.lt_count found.valid
    h.kind_or_operand
  have hpl := Batch.length_columnWords fits fits.presence found.lt_kinds
  have hvc : requireValueColumn batch p q.kind = .ok () := by
    cases hk : q.kind <;> simp [requireValueColumn, requireColumnLength, fits.symbols, fits.integers,
      fits.timestamps, fits.booleans]
  refine ⟨leafWords batch.rows _ q.opcode (ms.getD · 0#64), ?_,
    (leafWords_holds hpl q.opcode hb).congr fun r hr => ?_⟩
  case refine_2 => rw [Predicate.lane, Batch.bit_columnWords hr]; rfl
  case refine_1 =>
    simp only [evalPredicate, Nat.add_sub_cancel, ← h.opcode, ← h.field, h.found, h.operand, h.kind,
      requireColumnLength, fits.presence, require_of (h.opcode ▸ hop), ok_bind,
      resetLeafOutputs_eq_ok hd hr, Batch.wordColumn_eq_ok fits fits.presence found.lt_kinds, hvc]
    simp [require, ho, hf, hv, Leaf.clear, hm]

theorem resolved_of_evalPredicate {dst : Planes} {leaf : Leaf}
    (h : evalPredicate dst reasons batch p (row + 1) = .ok leaf) :
    ∃ q, resolvePredicate p row = .ok q := by
  simp only [evalPredicate, Nat.add_sub_cancel, require_bind_eq_ok_iff, requireColumnLength] at h
  have ⟨⟨kind, column⟩, hf, h⟩ := of_bind h.2.2
  rw [require_bind_eq_ok_iff] at h
  have ⟨operand, ho, h⟩ := of_bind h.2
  have ⟨_, hk, _⟩ := of_bind h
  exact ⟨_, by simp only [resolvePredicate, hf, ho, hk, ok_bind]; rfl⟩

end NornRune
