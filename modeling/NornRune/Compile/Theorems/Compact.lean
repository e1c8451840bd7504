import NornRune.Compile.Theorems.Schedule
import NornRune.Compile.Theorems.Traversal

open Checked

-- Instructions that nothing needs are dropped, and the others are numbered anew.
namespace NornRune

section Live

variable {rows : List InstructionRow} {live live' : List Bool}

structure LiveFrom (rows : List InstructionRow) (start : Nat) (live : List Bool) : Prop where
  length : live.length = rows.length
  root : ∀ (i : Nat) (row : InstructionRow), rows[i]? = some row → row.rootFlags ≠ 0#8 →
    live.getD i false
  operand : ∀ (c : Nat) (user : InstructionRow), start ≤ c → rows[c]? = some user →
    live.getD c false → ∀ o ∈ user.operands, live.getD (o - 1) false
  used : ∀ (i : Nat) (row : InstructionRow), rows[i]? = some row → live.getD i false →
    row.rootFlags ≠ 0#8 ∨ ∃ (c : Nat) (user : InstructionRow), rows[c]? = some user ∧
      live.getD c false ∧ i + 1 ∈ user.operands

theorem markOperands_eq_ok {operands : List Nat} {n : Nat}
    (h : operands.foldlM (markOperand n) live = .ok live') : (∀ o ∈ operands, o ≠ 0 ∧ o ≤ n) ∧
      live' = operands.foldl (fun live operand => live.set (operand - 1) true) live := by
  induction operands generalizing live
  case nil =>
    cases h
    exact ⟨nofun, rfl⟩
  case cons o operands ih =>
    have ⟨live₁, h₁, h⟩ := of_bind h
    have ⟨ho, h₁⟩ := of_guard h₁
    cases h₁
    have ⟨hall, heq⟩ := ih h
    rw [not_or] at ho
    exact ⟨List.forall_mem_cons.mpr ⟨⟨ho.1, Nat.not_lt.mp ho.2⟩, hall⟩, heq⟩

theorem LiveFrom.step (before : OperandsBefore rows) {i : Nat} (hi : i < rows.length)
    (h : LiveFrom rows (i + 1) live)
    (hs : (if live.getD i false then
      ((rows[i]?.map (·.operands)).getD []).foldlM (markOperand rows.length) live
      else .ok live) = .ok live') : LiveFrom rows i live' := by
  have hrow : rows[i]? = some rows[i] := List.getElem?_eq_getElem hi
  split at hs
  case isFalse hdead =>
    cases hs
    refine ⟨h.length, h.root, fun c user hc hu hl => ?_, h.used⟩
    rcases Nat.eq_or_lt_of_le hc with rfl | hc
    · exact absurd hl hdead
    · exact h.operand c user hc hu hl
  case isTrue hlive =>
    rw [hrow, Option.map_some, Option.getD_some] at hs
    have ⟨hops, heq⟩ := markOperands_eq_ok hs
    have hget : ∀ j, live'.getD j false ↔ live.getD j false ∨ j + 1 ∈ rows[i].operands := fun j => by
      rw [heq, marked_iff before hrow h.length]
    have hgrow : ∀ j, live.getD j false → live'.getD j false := fun j hl => (hget j).mpr (.inl hl)
    refine ⟨?_, fun j row hr hroot => hgrow j (h.root j row hr hroot), fun c user hc hu hl o ho => ?_,
      fun j row hr hl => ?_⟩
    case refine_1 => rw [heq, length_foldl_set, h.length]
    case refine_2 =>
      rcases Nat.eq_or_lt_of_le hc with rfl | hc
      case inl =>
        rw [hrow, Option.some.injEq] at hu
        subst hu
        exact (hget _).mpr (.inr (by rwa [Nat.sub_add_cancel (Nat.pos_of_ne_zero (hops o ho).1)]))
      case inr =>
        -- The operands of a row are above it, so that no row below becomes live.
        have hl := ((hget c).mp hl).resolve_right fun hm => by
          have := (before i _ hrow _ hm).2
          omega
        exact hgrow _ (h.operand c user hc hu hl o ho)
    case refine_3 =>
      rcases (hget j).mp hl with hl | hm
      · exact (h.used j row hr hl).imp_right fun ⟨c, user, hu, hc, hm⟩ => ⟨c, user, hu, hgrow c hc, hm⟩
      · exact .inr ⟨i, _, hrow, hgrow i hlive, hm⟩

theorem markLiveCandidates_eq_ok (before : OperandsBefore rows)
    (h : markLiveCandidates rows = .ok live) : LiveFrom rows 0 live := by
  refine foldlM_range_reverse (P := LiveFrom rows) h ⟨by simp, ?_, ?_, ?_⟩
    fun i live live' hi hs hl => hl.step before hi hs
  case refine_1 =>
    intro i row hr hroot
    simp [hr, hroot]
  case refine_2 =>
    intro c user hc hu
    have := (List.getElem?_eq_some_iff.mp hu).1
    omega
  case refine_3 =>
    intro i row hr hl
    exact .inl (by simpa [hr] using hl)

end Live

section Keep

variable {α : Type} {xs : List α} {live : List Bool}

theorem getElem?_keep {i : Nat} (h : live.getD i false) :
    ((xs.zip live).filterMap fun (x, live) => if live then some x else none)[
      ((live.take i).filter (·)).length]? = xs[i]? := by
  induction xs generalizing live i
  case nil => simp
  case cons x xs ih =>
    cases live
    case nil => simp at h
    case cons b live =>
      cases i
      case zero => simp_all
      case succ i =>
        rw [List.getD_cons_succ] at h
        rw [List.getElem?_cons_succ, ← ih h]
        cases b <;> simp

theorem exists_of_keep {j : Nat} {x : α}
    (h : ((xs.zip live).filterMap fun (x, live) => if live then some x else none)[j]? = some x) :
    ∃ i, xs[i]? = some x ∧ live.getD i false ∧ ((live.take i).filter (·)).length = j := by
  induction xs generalizing live j
  case nil => simp at h
  case cons y xs ih =>
    cases live
    case nil => simp at h
    case cons b live =>
      cases b
      case false =>
        have ⟨i, hx, hl, hj⟩ := @ih live j (by simpa using h)
        exact ⟨i + 1, hx, hl, by simpa using hj⟩
      case true =>
        cases j
        case zero => exact ⟨0, by simpa using h, rfl, rfl⟩
        case succ j =>
          have ⟨i, hx, hl, hj⟩ := @ih live j (by simpa using h)
          exact ⟨i + 1, hx, hl, by simpa using hj⟩

theorem toFinal_succ {i : Nat} (h : live.getD i false) :
    toFinal live (i + 1) = ((live.take i).filter (·)).length + 1 := by
  have hlt : i < live.length := by
    by_contra hge
    rw [List.getD_eq_default _ _ (Nat.not_lt.mp hge)] at h
    cases h
  rw [List.getD_eq_getElem _ _ hlt] at h
  rw [toFinal, Nat.add_sub_cancel, List.getD_eq_getElem _ _ hlt, if_pos h, List.take_succ_eq_append_getElem hlt,
    List.filter_append, h]
  simp

theorem toFinal_ne_zero {id : Nat} (h0 : id ≠ 0) (h : live.getD (id - 1) false) :
    toFinal live id ≠ 0 := by
  obtain ⟨i, rfl⟩ := Nat.exists_eq_add_one_of_ne_zero h0
  rw [Nat.add_sub_cancel] at h
  rw [toFinal_succ h]
  exact Nat.succ_ne_zero _

theorem live_of_toFinal {id : Nat} (h : toFinal live id ≠ 0) : live.getD (id - 1) false := by
  by_contra hdead
  exact h (if_neg hdead)

end Keep

structure Compacted (rows rows' : List InstructionRow) (live : List Bool) : Prop where
  marked : LiveFrom rows 0 live
  row : ∀ (i : Nat) (row : InstructionRow), rows[i]? = some row → live.getD i false →
    ∃ j, toFinal live (i + 1) = j + 1 ∧
      rows'[j]? = some { row with operands := row.operands.map (toFinal live) }
  origin : ∀ (j : Nat) (row' : InstructionRow), rows'[j]? = some row' →
    ∃ (i : Nat) (row : InstructionRow), rows[i]? = some row ∧ live.getD i false ∧
      toFinal live (i + 1) = j + 1 ∧ row' = { row with operands := row.operands.map (toFinal live) }

theorem finalOperand_eq_ok {live : List Bool} {id id' : Nat} (h : finalOperand live id = .ok id') :
    id' = toFinal live id ∧ id ≠ 0 ∧ id ≤ live.length ∧ toFinal live id ≠ 0 := by
  have ⟨hn, h⟩ := of_guard h
  cases h
  simp only [not_or, Nat.not_lt] at hn
  exact ⟨rfl, hn.1, hn.2.1, hn.2.2⟩

theorem compactRow_eq_ok {live : List Bool} {row row' : InstructionRow}
    (h : compactRow live row = .ok row') :
    row' = { row with operands := row.operands.map (toFinal live) } := by
  have ⟨operands, ho, h⟩ := of_bind h
  cases h
  rw [eq_map_of_mapM_eq_ok ho fun o _ o' h => (finalOperand_eq_ok h).1]

theorem compactInstructions_eq_ok {doc : Document} {l : Lowering} {t : InstructionTable}
    (before : OperandsBefore l.rows) (h : compactInstructions doc l = .ok t) :
    ∃ live, Compacted l.rows t.rows live ∧ t.nodeMap.length = doc.len ∧
      ∀ i < doc.len, ∃ ids, t.nodeMap[i]? = some ids ∧
        nodeInstructions live (l.nodeCanon.getD i 0) (l.nodeFlat.getD i []) = .ok ids := by
  have ⟨live, hlive, h⟩ := of_bind h
  simp only at h
  have ⟨_, h⟩ := of_guard h
  have ⟨rows, hrows, h⟩ := of_bind h
  have ⟨nodeMap, hmap, h⟩ := of_bind h
  have ⟨_, h⟩ := of_guard h
  cases h
  refine ⟨live, ⟨markLiveCandidates_eq_ok before hlive, fun i row hi hl => ?_, fun j row' hj => ?_⟩,
    by simpa using length_of_mapM_eq_ok hmap, fun i hi => ?_⟩
  case refine_1 =>
    refine ⟨_, toFinal_succ hl, ?_⟩
    have ⟨row', hj, hr⟩ := getElem?_of_mapM_eq_ok hrows ((getElem?_keep hl).trans hi)
    rw [hj, compactRow_eq_ok hr]
  case refine_2 =>
    have hlt : j < rows.length := (List.getElem?_eq_some_iff.mp hj).1
    rw [length_of_mapM_eq_ok hrows] at hlt
    have ⟨row₁, hj₁, hr⟩ := getElem?_of_mapM_eq_ok hrows (List.getElem?_eq_getElem hlt)
    have ⟨i, hi, hl, he⟩ := exists_of_keep (List.getElem?_eq_getElem hlt)
    rw [hj, Option.some.injEq] at hj₁
    exact ⟨i, _, hi, hl, by rw [toFinal_succ hl, he], hj₁ ▸ compactRow_eq_ok hr⟩
  case refine_3 =>
    exact getElem?_of_mapM_eq_ok hmap (List.getElem?_range hi)

namespace Compacted

variable {rows rows' : List InstructionRow} {live : List Bool}

theorem image (h : Compacted rows rows' live) :
    Image rows rows' (fun id => live.getD (id - 1) false) (toFinal live) where
  row := h.row
  origin := h.origin
  operand i row hi hl o ho := h.marked.operand i row (Nat.zero_le _) hi hl o ho

theorem before (h : Compacted rows rows' live) (before : OperandsBefore rows) :
    OperandsBefore rows' := by
  intro j row' hj o' ho'
  obtain ⟨i, row, hi, hl, hf, rfl⟩ := h.origin j row' hj
  obtain ⟨o, ho, rfl⟩ := List.mem_map.mp ho'
  have ⟨h0, hle⟩ := before i row hi o ho
  have hlo := h.marked.operand i row (Nat.zero_le _) hi hl o ho
  refine ⟨toFinal_ne_zero h0 hlo, ?_⟩
  rw [toFinal_succ hl, Nat.add_right_cancel_iff] at hf
  rw [toFinal, if_pos hlo, ← hf]
  exact ((List.take_sublist_take_left hle).filter _).length_le

theorem allUsed (h : Compacted rows rows' live)
    (composite : ∀ row ∈ rows, row.operands ≠ [] → row.opcode.Composite) : AllUsed rows' := by
  intro j row' hj
  obtain ⟨i, row, hi, hl, hf, rfl⟩ := h.origin j row' hj
  refine (h.marked.used i row hi hl).imp_right fun ⟨c, user, hu, hc, hm⟩ => ?_
  have ⟨k, _, hk⟩ := h.row c user hu hc
  exact ⟨k, _, hk, composite user (List.mem_of_getElem? hu) (List.ne_nil_of_mem hm),
    hf ▸ List.mem_map_of_mem hm⟩

end Compacted
end NornRune
