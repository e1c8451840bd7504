import NornRune.Execution.Theorems.FactIndex

open Bitplane Checked

namespace NornRune

variable {k : Kernels} {heap : Heap} {addr row f : Nat} {batch : Batch} {index : FactIndex}
  {mode : ExecutionMode} {p : Program}

theorem symbol_mem_of_factSpecContains {id : Nat} {values : List Nat} {v : PredicateValue}
    (hc : factSpecContains p values id) (h : programPredicateValue p id .symbol = .ok v) :
    v.symbol ∈ values := by
  simp only [factSpecContains, factIndexQuerySymbol] at hc
  simp only [programPredicateValue] at h
  have ⟨h0, h⟩ := ite_eq_of_ne h nofun
  rw [if_neg h0] at hc
  split at h
  case h_2 => cases h
  case h_1 kind ref hk hr =>
    rw [hk, hr] at hc
    split at h
    case isTrue => cases h
    case isFalse hkr =>
      obtain rfl : kind = .symbol := by simp_all
      have ⟨hs, h⟩ := ite_eq_of_ne h nofun
      cases h
      simp only [not_or] at hs hkr
      simp only [hs, hkr] at hc
      have ⟨i, hi⟩ := Option.isSome_iff_exists.mp hc
      exact List.mem_of_getElem? (BinarySearch.search_sound hi)

structure Covered (operand : Operand) (values : List Nat) : Prop where
  value : ∀ v, operand = .value v → v.symbol ∈ values
  list : ∀ vs, operand = .list vs → ∀ v ∈ vs, v.symbol ∈ values

theorem covered_of_validFactIndexQueries {operand : Operand} (h : validFactIndexQueries p)
    (hrow : row < p.opcodes.length)
    (hf : BinarySearch.search p.factIndexSpec.fieldIDs (p.fields.getD row 0) = some f)
    (hop : p.opcodes.getD row .invalid = .equal ∨ p.opcodes.getD row .invalid = .notEqual ∨
      p.opcodes.getD row .invalid = .in)
    (ho : predicateOperand p row (p.opcodes.getD row .invalid) .symbol = .ok operand) :
    Covered operand (p.factIndexSpec.fieldValues f) := by
  have hlt := BinarySearch.lt_length_of_search hf
  simp only [validFactIndexQueries, Bool.or_eq_true, beq_iff_eq, Nat.ne_of_gt (Nat.zero_lt_of_lt hlt),
    false_or, Bool.and_eq_true, List.all_eq_true (l := List.range _), List.mem_range] at h
  have h := h.2 row hrow
  simp only [hf] at h
  rcases hop with hop | hop | hop
  case inr.inr =>
    simp only [hop, Bool.and_eq_true, List.all_eq_true] at h
    simp only [hop, predicateOperand, require_bind_eq_ok_iff] at ho
    obtain ⟨vs, hvs, ho⟩ := of_bind ho.2
    cases ho
    refine ⟨fun _ he => (by cases he), fun vs' he v hv => ?_⟩
    cases he
    obtain ⟨id, hid, hv⟩ := exists_of_mem_mapM hvs hv
    exact symbol_mem_of_factSpecContains (h.2 id hid) hv
  all_goals
    simp only [hop] at h
    simp only [hop, predicateOperand] at ho
    obtain ⟨v, hv, ho⟩ := of_bind ho
    cases ho
    refine ⟨fun _ he => ?_, fun _ he => (by cases he)⟩
    cases he
    exact symbol_mem_of_factSpecContains h hv

theorem foldl_orMask {rows column : Nat} {row : Nat → Row} {maskOf : PredicateValue → Option (List Word)}
    {vs : List PredicateValue} (hm : ∀ v ∈ vs, ∃ mask, maskOf v = some mask ∧
      mask.length = wordCount rows ∧ ∀ r < rows, bit mask r = ((row r).symbol column == v.symbol))
    {dst : List Word} (hd : dst.length = wordCount rows) {r : Nat} (hr : r < rows) :
    bit (vs.foldl (fun dst v => orMask k mode (wordCount rows) dst (maskOf v)) dst) r =
      (bit dst r || vs.any (Predicate.equals .symbol column (row r))) := by
  induction vs generalizing dst
  case nil => simp
  case cons v vs hi =>
    have ⟨mask, he, hl, hb⟩ := hm v List.mem_cons_self
    have ho : orMask k mode (wordCount rows) dst (some mask) = List.zipWith (· ||| ·) dst mask := by
      simp only [orMask, k.orWords_eq _ _ (hd.trans hl.symm), ite_self]
    rw [List.foldl_cons, he, ho, hi (fun v hv => hm v (List.mem_cons_of_mem _ hv)) (by simp [hd, hl]),
      bit_zipWith_or (hd.trans hl.symm), hb r hr, List.any_cons, Bool.or_assoc]
    rfl

theorem evalPredicateIndex_holds (k : Kernels) (mode : ExecutionMode) {q : Predicate} {dst : Planes}
    {reasons : List Word} (fits : batch.Fits (heap addr)) (sound : index.Sound heap addr batch)
    (queries : validFactIndexQueries (heap addr)) (hd : dst.Shaped (wordCount batch.rows))
    (hr : reasons.length = reasonCount * wordCount batch.rows)
    (hrow : row < (heap addr).opcodes.length) (h : q.Resolved (heap addr) row) :
    evalPredicateIndex k index dst reasons batch heap addr (row + 1) mode = .ok none ∨
    ∃ leaf, evalPredicateIndex k index dst reasons batch heap addr (row + 1) mode = .ok (some leaf) ∧
      leaf.Holds batch.rows fun r => q.lane (batch.row r) := by
  have found := predicateField_eq_ok h.found
  simp only [evalPredicateIndex, Nat.add_sub_cancel, ← h.opcode, ← h.field, h.found, ok_bind]
  split
  case isTrue => exact .inl rfl
  split
  case isTrue => exact .inl rfl
  case isFalse hop =>
  split
  case isTrue => exact .inl rfl
  case isFalse hk =>
  split
  case isTrue => exact .inl rfl
  case isFalse hs =>
  rw [Option.isNone_iff_eq_none, ← ne_eq, Option.ne_none_iff_isSome] at hs
  have hk : q.kind = .symbol := by simpa using hk
  obtain ⟨f, column, hf, hl, hm⟩ := sound q.field hs
  obtain rfl : q.column = column := by
    have := found.lookup.symm.trans hl
    simp_all
  have hop : q.opcode = .equal ∨ q.opcode = .notEqual ∨ q.opcode = .in := by
    simp only [not_and_or, not_not] at hop
    tauto
  have covered := covered_of_validFactIndexQueries queries hrow (h.field ▸ hf) (h.opcode ▸ hop)
    (h.opcode ▸ hk ▸ h.operand)
  have hpl := Batch.length_columnWords fits fits.presence found.lt_kinds
  simp only [h.operand, ok_bind, resetLeafOutputs_eq_ok hd hr,
    Batch.wordColumn_eq_ok fits fits.presence found.lt_kinds]
  refine .inr ⟨_, rfl, (leafWords_holds hpl q.opcode (m := fun r => q.holds (batch.row r))
    fun r hr => ?_).congr fun r hr => ?_⟩
  case refine_2 => rw [Predicate.lane, Batch.bit_columnWords hr]; rfl
  case refine_1 =>
    have hmod : r % 64 < 64 := Nat.mod_lt _ (by decide)
    cases hoq : q.operand
    case none => simp [Predicate.holds, hoq]
    case value v =>
      obtain ⟨mask, hmask, _, hb⟩ := hm v.symbol (covered.value v hoq)
      have hin : q.opcode ≠ .in := by
        intro he
        have ho := h.operand
        simp only [he, predicateOperand, require_bind_eq_ok_iff] at ho
        obtain ⟨_, _, ho⟩ := of_bind ho.2
        rw [hoq] at ho
        cases ho
      have hb := hb r hr
      rw [bit] at hb
      simp only [hmask, Option.join_some, Option.getD_some, Predicate.holds, hoq, Predicate.compares,
        hk]
      rcases hop with hop | hop | hop
      · simp only [hop, reduceCtorEq, if_false, hb, beq_self_eq_true]
        cases (batch.row r).symbol q.column == v.symbol <;> rfl
      · have hne : (Opcode.notEqual == Opcode.equal) = false := rfl
        simp only [hop, if_true, BitVec.getLsbD_not, hb, hmod, decide_true, Bool.true_and, hne]
        cases (batch.row r).symbol q.column == v.symbol <;> rfl
      · exact absurd hop hin
    case list vs =>
      have hm : ∀ v ∈ vs, _ := fun v hv => hm v.symbol (covered.list vs hoq v hv)
      have := @foldl_orMask k mode batch.rows q.column batch.row
        (fun v => (index.lookup heap q.field v.symbol).join) vs (fun v hv => by
          obtain ⟨mask, he, hl, hb⟩ := hm v hv
          exact ⟨mask, by simp [he], hl, hb⟩) (Leaf.clear batch.rows).truth.positive
        (by simp [Leaf.clear]) r hr
      rw [bit] at this
      refine this.trans ?_
      simp only [Leaf.clear, bit_replicate_zero, Bool.false_or, Predicate.holds, hoq, hk]

theorem resolved_of_evalPredicateIndex {dst : Planes} {reasons : List Word} {leaf : Leaf}
    (h : evalPredicateIndex k index dst reasons batch heap addr (row + 1) mode = .ok (some leaf)) :
    ∃ q, resolvePredicate (heap addr) row = .ok q := by
  simp only [evalPredicateIndex, Nat.add_sub_cancel] at h
  have ⟨_, h⟩ := ite_eq_of_ne h nofun
  have ⟨hop, h⟩ := ite_eq_of_ne h nofun
  have ⟨⟨kind, column⟩, hf, h⟩ := of_bind h
  have ⟨hk, h⟩ := ite_eq_of_ne h nofun
  have ⟨_, h⟩ := ite_eq_of_ne h nofun
  have ⟨operand, ho, h⟩ := of_bind h
  have hop : (heap addr).opcodes.getD row .invalid = .equal ∨
      (heap addr).opcodes.getD row .invalid = .notEqual ∨
      (heap addr).opcodes.getD row .invalid = .in := by
    simp only [not_and_or, not_not] at hop
    tauto
  have hr : requirePredicateKind ((heap addr).opcodes.getD row .invalid) kind = .ok () := by
    have hk : kind = .symbol := by simpa using hk
    rcases hop with hop | hop | hop <;> rw [hop, hk] <;> rfl
  exact ⟨_, by simp only [resolvePredicate, hf, ho, hr, ok_bind]; rfl⟩

end NornRune
