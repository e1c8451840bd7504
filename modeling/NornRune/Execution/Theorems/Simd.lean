import NornRune.Execution.Theorems.Predicate

open Bitplane Checked

namespace NornRune

variable {k : Kernels} {p : Program} {batch : Batch} {opcode : Opcode} {kind : ValueKind}
  {column row : Nat} {mode : ExecutionMode} {comparison : Comparison}

section

variable (h : simdComparison opcode = some comparison)
include h

theorem compareInt64_eq_holds (left right : Int) :
    compareInt64 opcode left right = comparison.holds left right := by
  cases opcode <;> simp only [simdComparison, Option.some.injEq, reduceCtorEq] at h
  all_goals
    subst h
    rfl

theorem predicateOperand_of_simdComparison :
    predicateOperand p row opcode kind =
      (programPredicateValue p (p.values.getD row 0) kind).map .value := by
  cases opcode <;> simp only [simdComparison, reduceCtorEq] at h
  all_goals
    simp only [predicateOperand]
    cases programPredicateValue p (p.values.getD row 0) kind <;> rfl

theorem equality_of_simdComparison
    (ho : (!opcode.ordered || kind == .integer || kind == .timestamp) = true) (hi : kind ≠ .integer)
    (ht : kind ≠ .timestamp) :
    (opcode = .equal ∧ comparison = .equal) ∨ (opcode = .notEqual ∧ comparison = .notEqual) := by
  cases opcode <;> simp_all [simdComparison, Opcode.ordered]

end

theorem getD_map {α β : Type} {f : α → β} {xs : List α} {r : Nat} (h : r < xs.length) (x : α) (y : β) :
    (xs.map f).getD r y = f (xs.getD r x) := by
  simp [List.getD_eq_getElem?_getD, h]

theorem simdCompare_spec (fits : batch.Fits p) (hc : column < p.fieldIndex.counts kind)
    (hk : kind = .symbol ∨ kind = .integer ∨ kind = .timestamp)
    (h : simdComparison opcode = some comparison)
    (ho : (!opcode.ordered || kind == .integer || kind == .timestamp) = true) (v : PredicateValue) :
    ∃ ms, simdCompare k batch kind column v comparison = .ok ms ∧ ms.length = batch.rows ∧
      ∀ r < batch.rows, ms.getD r false = Predicate.compares opcode kind column (batch.row r) v := by
  rcases hk with rfl | rfl | rfl
  case inl =>
    have hlen := Batch.length_columnRows fits fits.symbols hc
    refine ⟨_, by simp only [simdCompare, Batch.rowColumn_eq_ok fits fits.symbols hc]; rfl,
      by rw [k.compareU32_eq, List.length_map, hlen], fun r hr => ?_⟩
    rw [k.compareU32_eq, getD_map (by omega) 0, Batch.getD_columnRows hr]
    rcases equality_of_simdComparison h ho (by decide) (by decide) with ⟨rfl, rfl⟩ | ⟨rfl, rfl⟩
    case inl => simp [Comparison.holds, Predicate.compares, Batch.row]
    case inr =>
      have hne : (Opcode.notEqual == Opcode.equal) = false := rfl
      simp [Comparison.holds, Predicate.compares, Batch.row, hne, bne]
  case inr.inl =>
    have hlen := Batch.length_columnRows fits fits.integers hc
    refine ⟨_, by simp only [simdCompare, Batch.rowColumn_eq_ok fits fits.integers hc]; rfl,
      by rw [k.compareI64_eq, List.length_map, hlen], fun r hr => ?_⟩
    rw [k.compareI64_eq, getD_map (by omega) 0, Batch.getD_columnRows hr]
    exact (compareInt64_eq_holds h _ _).symm
  case inr.inr =>
    have hlen := Batch.length_columnRows fits fits.timestamps hc
    refine ⟨_, by simp only [simdCompare, Batch.rowColumn_eq_ok fits fits.timestamps hc]; rfl,
      by rw [k.compareI64_eq, List.length_map, hlen], fun r hr => ?_⟩
    rw [k.compareI64_eq, getD_map (by omega) 0, Batch.getD_columnRows hr]
    exact (compareInt64_eq_holds h _ _).symm

section Leaf

variable {rows r : Nat} {presence : List Word}

theorem missing_eq (presence : List Word) (rows : Nat) :
    (List.range (wordCount rows)).map (fun word =>
      wordMask word (wordCount rows) rows &&& ~~~presence.getD word 0#64) =
      absentWords rows presence := by
  apply List.map_congr_left
  intro word _
  apply BitVec.eq_of_getLsbD_eq
  intro i hi
  simp only [presentWord, BitVec.getLsbD_and, BitVec.getLsbD_not, hi, decide_true, Bool.true_and]
  cases (wordMask word (wordCount rows) rows).getLsbD i <;> simp

theorem simdLeaf_holds {positive negative : List Word} {m : Nat → Bool} (opcode : Opcode)
    (hop : simdComparison opcode = some comparison) (hl : presence.length = wordCount rows)
    (hp : positive.length = wordCount rows) (hn : negative.length = wordCount rows)
    (hbp : ∀ r < rows, bit positive r = (bit presence r && m r))
    (hbn : ∀ r < rows, bit negative r = (bit presence r && !m r)) :
    Leaf.Holds ⟨Planes.maskTail ⟨positive, negative⟩ rows, missingReasons rows presence⟩ rows
      fun r => leafLane opcode (bit presence r) (m r) := by
  have hs : Planes.Shaped ⟨positive, negative⟩ (wordCount rows) := ⟨hp, hn⟩
  have hlane (r : Nat) : leafLane opcode (bit presence r) (m r) =
      ⟨⟨bit presence r && m r, bit presence r && !m r⟩,
        if bit presence r then 0#16 else ReasonMask.reasonBit reasonMissing⟩ := by
    cases opcode <;> first | rfl | cases hop
  constructor
  case shaped => exact hs.maskTail
  case length => simp [missingReasons]
  case truth =>
    intro r hr
    rw [Planes.lane_maskTail hs hr, hlane, Planes.lane, hbp r hr, hbn r hr]
  case reasons =>
    intro r hr
    rw [hlane]
    exact lane_missingReasons hl hr

end Leaf

theorem compares_boolean (h : opcode = .equal ∨ opcode = .notEqual) (facts : Row)
    (v : PredicateValue) : Predicate.compares opcode .boolean column facts v =
      if v.boolean == (opcode == .equal) then facts.boolean column else !facts.boolean column := by
  rcases h with rfl | rfl
  all_goals
    simp only [Predicate.compares]
    cases v.boolean <;> cases facts.boolean column <;> rfl

theorem kind_of_useSIMDKind {rows : Nat} (h : useSIMDKind k mode kind rows) (hb : kind ≠ .boolean) :
    kind = .symbol ∨ kind = .integer ∨ kind = .timestamp := by
  cases kind <;> simp_all [useSIMDKind]

theorem evalPredicateSIMD_holds {q : Predicate} {dst : Planes} {reasons : List Word}
    (compareMask : Slice Bool) (mode : ExecutionMode) (fits : batch.Fits p)
    (hd : dst.Shaped (wordCount batch.rows))
    (hr : reasons.length = reasonCount * wordCount batch.rows) (h : q.Resolved p row) :
    ∃ mask leaf?, evalPredicateSIMD k compareMask dst reasons batch p (row + 1) mode =
        .ok (mask, leaf?) ∧
      ∀ leaf ∈ leaf?, leaf.Holds batch.rows fun r => q.lane (batch.row r) := by
  have found := predicateField_eq_ok h.found
  have hpl := Batch.length_columnWords fits fits.presence found.lt_kinds
  simp only [evalPredicateSIMD, Nat.add_sub_cancel, ← h.opcode, ← h.field]
  cases hc : simdComparison q.opcode
  case none => exact ⟨_, _, rfl, by simp⟩
  case some comparison =>
    obtain ⟨_, hk⟩ := require_bind_eq_ok_iff.mp h.kind
    rw [require_eq_ok_iff] at hk
    simp only [h.found, ok_bind, require_of hk]
    split
    case isTrue => exact ⟨_, _, rfl, by simp⟩
    case isFalse hu =>
      have hu : useSIMDKind k mode q.kind batch.rows := by simpa using hu
      have ho := h.operand
      rw [predicateOperand_of_simdComparison hc] at ho
      cases hv : programPredicateValue p (p.values.getD row 0) q.kind
      case error => rw [hv] at ho; cases ho
      case ok v =>
      rw [hv] at ho
      have ho : q.operand = .value v := (Except.ok.inj ho).symm
      have hlane (r : Nat) (hr : r < batch.rows) :
          leafLane q.opcode (bit (batch.columnWords batch.presenceMasks (q.field - 1)) r)
            (Predicate.compares q.opcode q.kind q.column (batch.row r) v) = q.lane (batch.row r) := by
        rw [Predicate.lane, Predicate.holds, ho, Batch.bit_columnWords hr]
        rfl
      simp only [ok_bind, resetLeafOutputs_eq_ok hd hr, Leaf.clear,
        Batch.wordColumn_eq_ok fits fits.presence found.lt_kinds, missing_eq]
      generalize batch.columnWords batch.presenceMasks (q.field - 1) = presence at hpl hlane ⊢
      split
      case isTrue hb =>
        have hbc : q.column < p.fieldIndex.counts .boolean := hb ▸ found.lt_count
        have hvl := Batch.length_columnWords fits fits.booleans hbc
        simp only [Batch.wordColumn_eq_ok fits fits.booleans hbc, ok_bind]
        refine ⟨_, _, rfl, fun leaf hm => ?_⟩
        cases hm
        rw [k.andWords_eq _ _ (by omega), k.andNotWords_eq _ _ (by omega)]
        have heq : q.opcode = .equal ∨ q.opcode = .notEqual := by
          rcases equality_of_simdComparison hc hk (by simp [hb]) (by simp [hb]) with h | h
          · exact .inl h.1
          · exact .inr h.1
        have hcmp (r : Nat) (hr : r < batch.rows) :
            Predicate.compares q.opcode q.kind q.column (batch.row r) v =
              if v.boolean == (q.opcode == .equal)
              then bit (batch.columnWords batch.booleanValues q.column) r
              else !bit (batch.columnWords batch.booleanValues q.column) r := by
          rw [hb, compares_boolean heq, Batch.bit_columnWords hr]
          rfl
        split
        all_goals
          rename_i hset
          refine (simdLeaf_holds q.opcode hc hpl (by simp [hvl, hpl]) (by simp [hvl, hpl])
            (fun r hr => ?_) (fun r hr => ?_)).congr hlane
          all_goals
            simp only [hcmp r hr, hset, if_true, Bool.false_eq_true, if_false, Bool.not_not,
              bit_zipWith_and (hpl.trans hvl.symm), bit_zipWith_andNot (hpl.trans hvl.symm)]
      case isFalse hb =>
        obtain ⟨ms, hms, hml, hmb⟩ := simdCompare_spec (k := k) fits found.lt_count
          (kind_of_useSIMDKind hu hb) hc hk v
        simp only [hms, ok_bind]
        refine ⟨_, _, rfl, fun leaf hm => ?_⟩
        cases hm
        have hpk := (k.length_packMask ms).trans (congrArg wordCount hml)
        rw [Slice.toList_write (by simp [hml]), k.andWords_eq _ _ (hpk.trans hpl.symm),
          k.andNotWords_eq _ _ (by simp [hpk, hpl])]
        refine (simdLeaf_holds q.opcode hc hpl (by simp [hpk, hpl]) (by simp [hpk, hpl])
          (fun r hr => ?_) (fun r hr => ?_)).congr hlane
        case refine_1 =>
          rw [bit_zipWith_and (by omega), k.bit_packMask _ _ (by omega), hmb r hr, Bool.and_comm]
        case refine_2 =>
          rw [bit_zipWith_andNot (by simp [hpk, hpl]), bit_zipWith_and (by omega),
            k.bit_packMask _ _ (by omega), hmb r hr]
          cases bit presence r <;> simp

theorem resolved_of_evalPredicateSIMD {compareMask mask : Slice Bool} {dst : Planes}
    {reasons : List Word} {leaf : Leaf}
    (h : evalPredicateSIMD k compareMask dst reasons batch p (row + 1) mode = .ok (mask, some leaf)) :
    ∃ q, resolvePredicate p row = .ok q := by
  simp only [evalPredicateSIMD, Nat.add_sub_cancel] at h
  cases hc : simdComparison (p.opcodes.getD row .invalid)
  case none =>
    simp only [hc] at h
    cases h
  case some comparison =>
    simp only [hc] at h
    have ⟨⟨kind, column⟩, hf, h⟩ := of_bind h
    have ⟨ho, h⟩ := require_bind_eq_ok_iff.mp h
    split at h
    case isTrue => simp at h
    case isFalse hu =>
      have ⟨v, hv, _⟩ := of_bind h
      have hp : kind ≠ .presence := by
        rintro rfl
        simp [useSIMDKind] at hu
      refine ⟨⟨p.opcodes.getD row .invalid, p.fields.getD row 0, kind, column, .value v⟩, ?_⟩
      simp only [resolvePredicate, hf, predicateOperand_of_simdComparison hc, hv, Except.map, ok_bind,
        requirePredicateKind, ho, bne_iff_ne.mpr hp, Bool.true_or, require, if_true]
      rfl

end NornRune
