import NornRune.Scheduling.Shard

open Bitplane Checked

namespace NornRune

structure Bounded (rs : List RowResult) : Prop where
  requirements : (rs.map (·.requirements)).flatten.length ≤ maxUint32
  drivers : (rs.map (·.drivers)).flatten.length ≤ maxUint32
  evidence : (rs.map (·.evidence)).flatten.length ≤ maxUint32
  reasons : (rs.map (·.reasons)).flatten.length ≤ maxUint32
  remediations : (rs.map (·.remediations)).flatten.length ≤ maxUint32

theorem length_flatten_append_le {α : Type} {f : RowResult → List α} {ls ms : List RowResult} {n : Nat}
    (h : ((ls ++ ms).map f).flatten.length ≤ n) :
    (ls.map f).flatten.length + (ms.map f).flatten.length ≤ n := by
  simpa only [List.map_append, List.flatten_append, List.length_append] using h

namespace Bounded

variable {ls ms : List RowResult}

theorem left (h : Bounded (ls ++ ms)) : Bounded ls where
  requirements := Nat.le_trans (Nat.le_add_right ..) (length_flatten_append_le h.requirements)
  drivers := Nat.le_trans (Nat.le_add_right ..) (length_flatten_append_le h.drivers)
  evidence := Nat.le_trans (Nat.le_add_right ..) (length_flatten_append_le h.evidence)
  reasons := Nat.le_trans (Nat.le_add_right ..) (length_flatten_append_le h.reasons)
  remediations := Nat.le_trans (Nat.le_add_right ..) (length_flatten_append_le h.remediations)

theorem right (h : Bounded (ls ++ ms)) : Bounded ms where
  requirements := Nat.le_trans (Nat.le_add_left ..) (length_flatten_append_le h.requirements)
  drivers := Nat.le_trans (Nat.le_add_left ..) (length_flatten_append_le h.drivers)
  evidence := Nat.le_trans (Nat.le_add_left ..) (length_flatten_append_le h.evidence)
  reasons := Nat.le_trans (Nat.le_add_left ..) (length_flatten_append_le h.reasons)
  remediations := Nat.le_trans (Nat.le_add_left ..) (length_flatten_append_le h.remediations)

end Bounded

section Offsets

variable {α : Type} {rows rows' : List (List α)} {m : Nat}

theorem offsets_eq (h : rows.flatten.length ≤ maxUint32) :
    ResultBatch.offsets rows = Ragged.offsets rows := by
  refine (List.map_congr_left fun n hn => ?_).trans (List.map_id _)
  have := Ragged.le_of_mem_offsets hn
  simp only [maxUint32] at h
  exact Nat.mod_eq_of_lt (by omega)

theorem rebaseShardOffsets_append (h : rows.flatten.length + rows'.flatten.length ≤ maxUint32)
    (hm : rows'.length ≤ m) :
    rebaseShardOffsets (ResultBatch.offsets rows ++ List.replicate m 0) rows.length
      (ResultBatch.offsets rows') rows.flatten.length =
      ResultBatch.offsets (rows ++ rows') ++ List.replicate (m - rows'.length) 0 := by
  have hmap : (Ragged.offsets rows').map (fun offset => (rows.flatten.length + offset) % 2 ^ 32) =
      (Ragged.offsets rows').map (rows.flatten.length + ·) := by
    refine List.map_congr_left fun n hn => ?_
    have := Ragged.le_of_mem_offsets hn
    simp only [maxUint32] at h
    exact Nat.mod_eq_of_lt (by omega)
  rw [offsets_eq (by omega), offsets_eq (by omega),
    offsets_eq (by simpa only [List.flatten_append, List.length_append] using h),
    Ragged.offsets_append, rebaseShardOffsets, hmap]
  have hsplit : Ragged.offsets rows =
      (Ragged.offsets rows).take rows.length ++ (Ragged.offsets rows).drop rows.length :=
    (List.take_append_drop ..).symm
  have hlen : ((Ragged.offsets rows).take rows.length).length = rows.length := by simp
  conv_lhs => rw [hsplit, List.append_assoc]
  have := @Region.write_append _ ((Ragged.offsets rows).take rows.length)
    ((Ragged.offsets rows').map (rows.flatten.length + ·))
    ((Ragged.offsets rows).drop rows.length ++ List.replicate m 0) (by simp; omega)
  rw [hlen] at this
  rw [this, List.append_assoc]
  congr 2
  rw [List.drop_append, List.drop_eq_nil_of_le (by simp), List.nil_append, List.drop_replicate]
  congr 1
  simp

theorem validShardCSR_offsets (h : rows.flatten.length ≤ maxUint32) (hm : rows.length + 1 ≤ maxInt) :
    validShardCSR (ResultBatch.offsets rows) rows.flatten.length rows.length =
      some rows.flatten.length := by
  have h0 : (Ragged.offsets rows).getD 0 0 = 0 := by
    rw [List.getD_eq_getElem?_getD, Ragged.getElem?_offsets (Nat.zero_le _)]
    rfl
  have hl : (Ragged.offsets rows).getD (rows.length + 1 - 1) 0 = rows.flatten.length := by
    rw [List.getD_eq_getElem?_getD, Nat.add_sub_cancel, Ragged.getElem?_offsets (Nat.le_refl _), List.take_length, Option.getD_some]
  have hmono : (List.range rows.length).all (fun i => decide
      ((Ragged.offsets rows).getD i 0 ≤ (Ragged.offsets rows).getD (i + 1) 0)) = true := by
    simp only [List.all_eq_true, List.mem_range, decide_eq_true_eq]
    exact fun i hi => Ragged.getElem?_offsets_le hi
  simp only [validShardCSR, offsets_eq h, Nat.not_lt_of_le hm, Ragged.length_offsets, h0, hmono, hl]
  simp only [ne_eq, not_true_eq_false, Bool.not_true, Bool.false_eq_true, or_self, if_false]

end Offsets

section Merge

variable {ls ms : List RowResult} {n : Nat}

def MergeTotals.of (rs : List RowResult) : MergeTotals where
  requirements := (rs.map (·.requirements)).flatten.length
  drivers := (rs.map (·.drivers)).flatten.length
  evidence := (rs.map (·.evidence)).flatten.length
  reasons := (rs.map (·.reasons)).flatten.length
  remediations := (rs.map (·.remediations)).flatten.length

theorem addMergeEdges_eq_some {total count : Nat} (h : total + count ≤ maxUint32) :
    addMergeEdges total count = some (total + count) := by
  rw [addMergeEdges, if_neg (Nat.not_lt_of_le h)]

theorem checkShard_eq_some (h : Bounded (ls ++ ms)) (hn : ls.length + ms.length ≤ n)
    (hm : ms.length + 1 ≤ maxInt) :
    checkShard n (ls.length, .of ls) (.ofRows ms, ⟨ls.length, ls.length + ms.length⟩) =
      some ((ls ++ ms).length, .of (ls ++ ms)) := by
  have csr {α : Type} (f : RowResult → List α) (hf : (ms.map f).flatten.length ≤ maxUint32) :
      validShardCSR (ResultBatch.offsets (ms.map f)) (ms.map f).flatten.length ms.length =
        some (ms.map f).flatten.length := by
    have := @validShardCSR_offsets _ (ms.map f) hf (by simpa only [List.length_map] using hm)
    simpa only [List.length_map] using this
  have totals : MergeTotals.of (ls ++ ms) = {
      requirements := (ls.map (·.requirements)).flatten.length + (ms.map (·.requirements)).flatten.length
      drivers := (ls.map (·.drivers)).flatten.length + (ms.map (·.drivers)).flatten.length
      evidence := (ls.map (·.evidence)).flatten.length + (ms.map (·.evidence)).flatten.length
      reasons := (ls.map (·.reasons)).flatten.length + (ms.map (·.reasons)).flatten.length
      remediations := (ls.map (·.remediations)).flatten.length +
        (ms.map (·.remediations)).flatten.length } := by
    simp only [MergeTotals.of, List.map_append, List.flatten_append, List.length_append]
  simp only [checkShard, ResultBatch.ofRows, ResultBatch.filled, guard, Option.bind_eq_bind,
    Option.pure_def, List.length_map, Nat.sub_self, List.replicate_zero, List.append_nil]
  simp only [Nat.le_add_right, hn, Nat.add_sub_cancel_left, csr _ h.right.requirements,
    csr _ h.right.drivers, csr _ h.right.evidence, csr _ h.right.reasons, csr _ h.right.remediations,
    Option.bind_some, and_self, if_true, MergeTotals.of,
    addMergeEdges_eq_some (length_flatten_append_le h.requirements),
    addMergeEdges_eq_some (length_flatten_append_le h.drivers),
    addMergeEdges_eq_some (length_flatten_append_le h.evidence),
    addMergeEdges_eq_some (length_flatten_append_le h.reasons),
    addMergeEdges_eq_some (length_flatten_append_le h.remediations)]
  rw [← MergeTotals.of, totals, List.length_append]

theorem mergeShard_filled (h : Bounded (ls ++ ms)) (hn : ls.length + ms.length ≤ n) :
    mergeShard (.filled n ls) (.ofRows ms, ⟨ls.length, ls.length + ms.length⟩) =
      .filled n (ls ++ ms) := by
  have hrest : n - ls.length - ms.length = n - (ls ++ ms).length := by
    rw [List.length_append, Nat.sub_sub]
  have rebase {α : Type} (f : RowResult → List α)
      (hf : ((ls ++ ms).map f).flatten.length ≤ maxUint32) :
      rebaseShardOffsets (ResultBatch.offsets (ls.map f) ++ List.replicate (n - ls.length) 0) ls.length
        (ResultBatch.offsets (ms.map f)) (ls.map f).flatten.length =
        ResultBatch.offsets ((ls ++ ms).map f) ++ List.replicate (n - (ls ++ ms).length) 0 := by
    have := @rebaseShardOffsets_append _ (ls.map f) (ms.map f) (n - ls.length)
      (length_flatten_append_le hf) (by rw [List.length_map]; omega)
    simpa only [List.length_map, List.map_append, hrest] using this
  have outcomes : Region.write (ls.map (·.outcome) ++ List.replicate (n - ls.length) 0) ls.length
      (ms.map (·.outcome)) =
      (ls ++ ms).map (·.outcome) ++ List.replicate (n - (ls ++ ms).length) 0 := by
    have := @Region.write_append _ (ls.map (·.outcome)) (ms.map (·.outcome))
      (List.replicate (n - ls.length) 0) (by simp only [List.length_map, List.length_replicate]; omega)
    simpa only [List.length_map, List.map_append, List.drop_replicate, hrest, List.append_assoc]
      using this
  simp only [mergeShard, ResultBatch.ofRows, ResultBatch.filled, Nat.sub_self, List.replicate_zero,
    List.append_nil, outcomes, List.length_map, rebase _ h.requirements, rebase _ h.drivers,
    rebase _ h.evidence, rebase _ h.reasons, rebase _ h.remediations]
  simp only [List.map_append, List.flatten_append]

def spans (start : Nat) : List (List RowResult) → List RowRange
  | [] => []
  | part :: rest => ⟨start, start + part.length⟩ :: spans (start + part.length) rest

@[simp]
theorem length_spans (start : Nat) (parts : List (List RowResult)) :
    (spans start parts).length = parts.length := by
  induction parts generalizing start
  case nil => rfl
  case cons hi => simp [spans, hi]

theorem checkShards_eq_some {parts : List (List RowResult)} (h : Bounded (ls ++ parts.flatten))
    (hn : (ls ++ parts.flatten).length ≤ n) (hm : n + 1 ≤ maxInt) :
    (List.zip (parts.map ResultBatch.ofRows) (spans ls.length parts)).foldlM (checkShard n)
      (ls.length, .of ls) =
      some ((ls ++ parts.flatten).length, .of (ls ++ parts.flatten)) := by
  induction parts generalizing ls
  case nil => simp [spans]
  case cons part rest hi =>
    rw [List.flatten_cons, ← List.append_assoc] at h hn ⊢
    have hlen : (ls ++ part).length ≤ n := by
      rw [List.length_append] at hn
      omega
    rw [List.length_append] at hlen
    rw [List.map_cons, spans, List.zip_cons_cons, List.foldlM_cons,
      checkShard_eq_some h.left hlen (by omega), ← List.length_append]
    exact hi h hn

theorem mergeShards_filled {parts : List (List RowResult)} (h : Bounded (ls ++ parts.flatten))
    (hn : (ls ++ parts.flatten).length ≤ n) :
    (List.zip (parts.map ResultBatch.ofRows) (spans ls.length parts)).foldl mergeShard
      (.filled n ls) = .filled n (ls ++ parts.flatten) := by
  induction parts generalizing ls
  case nil => simp [spans]
  case cons part rest hi =>
    rw [List.flatten_cons, ← List.append_assoc] at h hn ⊢
    have hlen : (ls ++ part).length ≤ n := by
      rw [List.length_append] at hn
      omega
    rw [List.length_append] at hlen
    rw [List.map_cons, spans, List.zip_cons_cons, List.foldl_cons, mergeShard_filled h.left hlen,
      ← List.length_append]
    exact hi h hn

theorem mergeResults_eq_ok {parts : List (List RowResult)} (hparts : parts ≠ [])
    (h : Bounded parts.flatten) (hm : parts.flatten.length + 1 ≤ maxInt) (dst : ResultBatch) :
    mergeResults dst (parts.map ResultBatch.ofRows) (spans 0 parts) parts.flatten.length =
      .ok (.ofRows parts.flatten) := by
  have hlen : parts.length ≠ 0 := List.length_eq_zero_iff.not.mpr hparts
  have hcheck := @checkShards_eq_some [] parts.flatten.length parts h (Nat.le_refl _) hm
  have hmerge := @mergeShards_filled [] parts.flatten.length parts h (Nat.le_refl _)
  rw [List.length_nil, List.nil_append] at hcheck hmerge
  have hcheck' : (List.zip (parts.map ResultBatch.ofRows) (spans 0 parts)).foldlM
      (checkShard parts.flatten.length) (0, {}) = _ := hcheck
  simp only [mergeResults, List.length_map, length_spans, hlen, hcheck', ne_eq, not_true_eq_false,
    or_self, if_false, dst.reset_eq hm, hmerge]
  rfl

end Merge
end NornRune
