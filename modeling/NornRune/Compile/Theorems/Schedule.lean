import NornRune.Compile.Theorems.Denote
import NornRune.Compile.Theorems.Slots

open Checked

namespace NornRune

structure Reordered (t t' : InstructionTable) (f : Nat → Nat) : Prop where
  length : t'.rows.length = t.rows.length
  row : ∀ (i : Nat) (row : InstructionRow), t.rows[i]? = some row → ∃ j, f (i + 1) = j + 1 ∧
    t'.rows[j]? = some { row with operands := row.operands.map f }
  origin : ∀ (j : Nat) (row' : InstructionRow), t'.rows[j]? = some row' →
    ∃ (i : Nat) (row : InstructionRow), t.rows[i]? = some row ∧ f (i + 1) = j + 1 ∧
      row' = { row with operands := row.operands.map f }
  nodeMap : t'.nodeMap = t.nodeMap.map (·.map f)

def Schedule.Topological (rows : List InstructionRow) (order : List Nat) : Prop :=
  ∀ (k i : Nat) (row : InstructionRow), order[k]? = some i → rows[i]? = some row →
    ∀ o ∈ row.operands, ∃ k' < k, order[k']? = some (o - 1)

open Schedule

variable {t : InstructionTable} {order : List Nat}

theorem oldToNew_of_getElem? (hn : order.Nodup) {j i : Nat} (h : order[j]? = some i) :
    oldToNew order (i + 1) = j + 1 := by
  have ⟨hlt, he⟩ := List.getElem?_eq_some_iff.mp h
  subst he
  rw [oldToNew, Nat.add_sub_cancel, if_pos (List.getElem_mem hlt), hn.idxOf_getElem]

-- The operands of a row are scheduled before it.
theorem permuteRow_ok {rows : List InstructionRow} {k i : Nat} {row : InstructionRow}
    (before : OperandsBefore rows) (hn : order.Nodup) (htop : Topological rows order)
    (hk : order[k]? = some i) (hi : rows[i]? = some row) :
    permuteRow rows order k i = .ok { row with operands := row.operands.map (oldToNew order) } ∧
      ∀ o ∈ row.operands, oldToNew order o ≠ 0 ∧ oldToNew order o ≤ k := by
  have hoperand : ∀ o ∈ row.operands, oldToNew order o ≠ 0 ∧ oldToNew order o ≤ k := fun o ho => by
    have ⟨k', hk', he⟩ := htop k i row hk hi o ho
    have := oldToNew_of_getElem? hn he
    rw [Nat.sub_add_cancel (Nat.pos_of_ne_zero (before i row hi o ho).1)] at this
    omega
  have hmap : row.operands.mapM (scheduledOperand rows.length order k) =
      .ok (row.operands.map (oldToNew order)) := mapM_eq_ok fun o ho => if_neg (by
    have := hoperand o ho
    have := before i row hi o ho
    have := (List.getElem?_eq_some_iff.mp hi).1
    omega)
  refine ⟨?_, hoperand⟩
  simp only [permuteRow, hi, hmap, ok_bind]
  rfl

theorem permuteScheduledInstructions_ok (before : OperandsBefore t.rows)
    (columns : validateScheduleColumns t = .ok ()) (hperm : order.Perm (List.range t.rows.length))
    (htop : Topological t.rows order) :
    ∃ t', permuteScheduledInstructions t order = .ok t' ∧ Reordered t t' (oldToNew order) ∧
      OperandsBefore t'.rows := by
  have hnodup : order.Nodup := hperm.nodup_iff.mpr List.nodup_range
  have hget : ∀ k i, order[k]? = some i → ∃ row, t.rows[i]? = some row := fun k i hk =>
    ⟨_, List.getElem?_eq_getElem (List.mem_range.mp (hperm.mem_iff.mp (List.mem_of_getElem? hk)))⟩
  have ⟨rows, hrows⟩ := mapM_ok_of_forall
    (f := fun x => permuteRow t.rows order x.2 x.1) fun x (hx : x ∈ order.zipIdx) => by
      have hk := List.mk_mem_zipIdx_iff_getElem?.mp hx
      have ⟨row, hi⟩ := hget _ _ hk
      exact ⟨_, (permuteRow_ok before hnodup htop hk hi).1⟩
  have hlen : rows.length = order.length := by simpa using length_of_mapM_eq_ok hrows
  have hrow : ∀ k i (row : InstructionRow), order[k]? = some i → t.rows[i]? = some row →
      rows[k]? = some { row with operands := row.operands.map (oldToNew order) } :=
    fun k i row hk hi => by
      have ⟨row', hr', hp⟩ := getElem?_of_mapM_eq_ok hrows (i := k) (x := (i, k))
        (by rw [List.getElem?_zipIdx, hk, Option.map_some, Nat.zero_add])
      rw [(permuteRow_ok before hnodup htop hk hi).1, Except.ok.injEq] at hp
      exact hp ▸ hr'
  have horigin : ∀ k row', rows[k]? = some row' → ∃ i, ∃ row : InstructionRow, order[k]? = some i ∧
      t.rows[i]? = some row ∧ row' = { row with operands := row.operands.map (oldToNew order) } :=
    fun k row' hk => by
      have hi := List.getElem?_eq_getElem (hlen ▸ (List.getElem?_eq_some_iff.mp hk).1)
      have ⟨row, hr⟩ := hget k _ hi
      exact ⟨_, row, hi, hr, Option.some.inj (hk.symm.trans (hrow k _ row hi hr))⟩
  have hmap : (t.nodeMap.all (·.all fun id => id != 0 && decide (id ≤ t.rows.length))) = true := by
    simpa using (validateScheduleColumns_eq_ok columns).2
  refine ⟨⟨rows, t.nodeMap.map (·.map (oldToNew order))⟩, ?_,
    ⟨?_, fun i row hi => ?_, fun j row' hj => ?_, rfl⟩, fun k row' hk o ho => ?_⟩
  case refine_1 =>
    simp only [permuteScheduledInstructions, hrows, ok_bind, hmap, Bool.not_true, Bool.false_eq_true,
      if_false]
  case refine_2 => simpa [hlen] using hperm.length_eq
  case refine_3 =>
    have hm : i ∈ order := hperm.mem_iff.mpr (by simpa using (List.getElem?_eq_some_iff.mp hi).1)
    have ⟨j, hj⟩ := List.mem_iff_getElem?.mp hm
    exact ⟨j, oldToNew_of_getElem? hnodup hj, hrow j i row hj hi⟩
  case refine_4 =>
    have ⟨i, row, hi, hr, he⟩ := horigin j row' hj
    exact ⟨i, row, hr, oldToNew_of_getElem? hnodup hi, he⟩
  case refine_5 =>
    obtain ⟨i, row, hi, hr, rfl⟩ := horigin k row' hk
    obtain ⟨o, hm, rfl⟩ := List.mem_map.mp ho
    exact (permuteRow_ok before hnodup htop hi hr).2 o hm

namespace Reordered

variable {t' : InstructionTable} {f : Nat → Nat}

theorem allUsed (h : Reordered t t' f) (used : AllUsed t.rows) : AllUsed t'.rows := by
  intro j row' hj
  obtain ⟨i, row, hi, hf, rfl⟩ := h.origin j row' hj
  rcases used i row hi with hroot | ⟨c, user, hu, ho, hm⟩
  case inl => exact .inl hroot
  case inr =>
    have ⟨k, _, hk⟩ := h.row c user hu
    exact .inr ⟨k, _, hk, ho, hf ▸ List.mem_map_of_mem hm⟩

theorem image (h : Reordered t t' f) : Image t.rows t'.rows (fun _ => True) f where
  row i row hi _ := h.row i row hi
  origin j row' hj :=
    have ⟨i, row, hi, hf, he⟩ := h.origin j row' hj
    ⟨i, row, hi, trivial, hf, he⟩
  operand _ _ _ _ _ _ := trivial

end Reordered
end NornRune
