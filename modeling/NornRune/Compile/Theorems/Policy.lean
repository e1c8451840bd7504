import NornRune.Compile.Index
import NornRune.Objects.Theorems.Index

open Bitplane Checked

-- The index over the applicability of requirements that a program gets is one that an evaluator binds.
namespace NornRune.Policy

variable {n : Nat} {cs : List Constraint} {p : Policy} {full mask : List Word}

theorem ascending_of_pairwise {xs : List Nat} (h : xs.Pairwise (· < ·)) : ascending xs := by
  simp only [ascending, List.all_eq_true, List.mem_range, Bool.or_eq_true, beq_iff_eq, decide_eq_true_eq]
  rintro (_ | i) hi
  · exact .inl rfl
  · refine .inr ?_
    rw [Nat.add_sub_cancel, List.getD_eq_getElem _ _ (Nat.lt_of_succ_lt hi), List.getD_eq_getElem _ _ hi]
    exact List.pairwise_iff_getElem.mp h _ _ _ hi (Nat.lt_succ_self i)

structure Within (full mask : List Word) : Prop where
  length : mask.length = full.length
  bit : ∀ r, bit mask r → Bitplane.bit full r

theorem Within.clearBit (h : Within full mask) (r : Nat) : Within full (clearBit mask r) where
  length := (length_clearBit ..).trans h.length
  bit r' hb := h.bit r' (by rw [bit_clearBit, Bool.and_eq_true] at hb; exact hb.1)

theorem Within.setBit (h : Within full mask) {r : Nat} (hr : Bitplane.bit full r) :
    Within full (setBit mask r) where
  length := (length_setBit ..).trans h.length
  bit r' hb := by
    have hlt : r / 64 < mask.length := by
      by_contra hge
      rw [bit_of_length_le (h.length ▸ Nat.le_of_not_lt hge)] at hr
      cases hr
    rw [bit_setBit hlt, Bool.or_eq_true, decide_eq_true_eq] at hb
    rcases hb with hb | rfl
    · exact h.bit r' hb
    · exact hr

theorem Within.or {mask' : List Word} (h : Within full mask) (h' : Within full mask') :
    Within full (List.zipWith (· ||| ·) mask mask') where
  length := by rw [List.length_zipWith, h.length, h'.length, Nat.min_self]
  bit r hb := by
    rw [bit_zipWith_or (h.length.trans h'.length.symm), Bool.or_eq_true] at hb
    exact hb.elim (h.bit r) (h'.bit r)

theorem Within.and_not (h : Within full mask) (word : Nat) :
    mask.getD word 0#64 &&& ~~~full.getD word 0#64 = 0#64 := by
  refine BitVec.eq_of_getLsbD_eq fun i hi => ?_
  have hr := h.bit (word * 64 + i)
  rw [Bitplane.bit, Bitplane.bit, show (word * 64 + i) / 64 = word by omega,
    show (word * 64 + i) % 64 = i by omega] at hr
  simpa [hi] using hr

theorem within_wildcardMask (full : List Word) (cs : List Constraint) (field : Nat) :
    Within full (wildcardMask full cs field) :=
  List.foldlRecOn _ _ ⟨rfl, fun _ => id⟩ fun _ hm c _ => hm.clearBit c.row

theorem within_valueMask (h : ∀ c ∈ cs, Bitplane.bit full c.row) (field value : Nat) :
    Within full (valueMask full.length cs field value) := by
  refine List.foldlRecOn _ _ ⟨List.length_replicate, fun r hb => ?_⟩ fun _ hm c hc =>
    hm.setBit (h c (List.mem_of_mem_filter hc))
  rw [bit_replicate_zero] at hb
  cases hb

-- The values for which a field has masks, each with its field.
def fieldValuePairs (cs : List Constraint) (fields : List Nat) : List (Nat × Nat) :=
  fields.flatMap fun field => (constraintValues cs field).map (field, ·)

theorem length_fieldValuePairs (fields : List Nat) :
    (fieldValuePairs cs fields).length = (fields.map (constraintValues cs)).flatten.length := by
  simp [fieldValuePairs, List.length_flatMap, List.length_flatten, Function.comp_def]

theorem length_fieldValuePairs_le {fields : List Nat} (h : fields.Nodup) :
    (fieldValuePairs cs fields).length ≤ (cs.map (·.values.length)).sum := by
  have hnodup : (fieldValuePairs cs fields).Nodup := by
    refine List.nodup_flatMap.mpr ⟨fun field _ => ?_, h.imp fun hne x hx hy => ?_⟩
    · exact List.Nodup.map (Prod.mk_right_injective field)
        ((Sorted.pairwise_sortUnique _).imp Nat.ne_of_lt)
    · obtain ⟨_, _, rfl⟩ := List.mem_map.mp hx
      obtain ⟨_, _, he⟩ := List.mem_map.mp hy
      exact hne (congrArg Prod.fst he).symm
  have hsub : fieldValuePairs cs fields ⊆ cs.flatMap fun c => c.values.map (c.field, ·) := by
    intro x hx
    simp only [fieldValuePairs, constraintValues, List.mem_flatMap, List.mem_map, Sorted.mem_sortUnique,
      List.mem_filter, beq_iff_eq] at hx ⊢
    obtain ⟨_, _, v, ⟨c, ⟨hc, rfl⟩, hv⟩, rfl⟩ := hx
    exact ⟨c, hc, v, hv, rfl⟩
  simpa [List.length_flatMap] using (List.subperm_of_subset hnodup hsub).length_le

theorem le_div_of_mul_le {a b : Nat} (h : a * b ≤ maxInt) : a = 0 ∨ b ≤ maxUint64 / a := by
  rcases Nat.eq_zero_or_pos a with ha | ha
  · exact .inl ha
  · refine .inr ((Nat.le_div_iff_mul_le ha).mpr ?_)
    rw [Nat.mul_comm]
    exact h.trans (by decide)

theorem validBoundField_of_values {values : List (List Nat)} {i : Nat} (hi : i < p.fieldIDs.length)
    (hids : p.fieldIDs.Pairwise (· < ·)) (hzero : ∀ field ∈ p.fieldIDs, field ≠ 0)
    (hstarts : p.fieldValueStarts = Ragged.starts values)
    (hcounts : p.fieldValueCounts = values.map List.length) (hvalues : p.values = values.flatten)
    (hlen : values.length = p.fieldIDs.length)
    (hrow : ∀ row ∈ values, row ≠ [] ∧ (∀ v ∈ row, v ≠ 0) ∧ row.Pairwise (· < ·)) :
    p.validBoundField i := by
  have hlt : i < values.length := hlen ▸ hi
  have hs : p.fieldValueStarts.getD i 0 = (values.take i).flatten.length := by
    rw [hstarts, List.getD_eq_getElem?_getD, Ragged.getElem?_starts hlt, Option.getD_some]
  have hc : p.fieldValueCounts.getD i 0 = values[i].length := by simp [hcounts, hlt]
  have ⟨hne, hnz, hasc⟩ := hrow _ (List.getElem_mem hlt)
  have hread : p.fieldValues i = values[i] := by
    rw [fieldValues, hs, hc, hvalues]
    exact Ragged.take_drop_flatten (List.getElem?_eq_getElem hlt)
  have hid := ascending_of_pairwise hids
  simp only [ascending, List.all_eq_true, List.mem_range, Bool.or_eq_true, beq_iff_eq,
    decide_eq_true_eq] at hid
  simp only [validBoundField, Bool.and_eq_true, bne_iff_ne, Bool.or_eq_true, beq_iff_eq, decide_eq_true_eq,
    List.all_eq_true, hread]
  refine ⟨⟨⟨⟨⟨⟨⟨?_, hid i hi⟩, ?_⟩, ?_⟩, ?_⟩, ?_⟩, hnz⟩, ascending_of_pairwise hasc⟩
  case refine_1 =>
    rw [List.getD_eq_getElem _ _ hi]
    exact hzero _ (List.getElem_mem hi)
  case refine_2 => exact hc ▸ fun h => hne (List.length_eq_zero_iff.mp h)
  case refine_3 =>
    rw [hs, hc, hvalues]
    exact Ragged.le_length_flatten (List.getElem?_eq_getElem hlt)
  case refine_4 =>
    refine (em' (i = 0)).imp_right fun h0 => ?_
    rw [hs, h0]
    rfl
  case refine_5 =>
    cases i
    case zero => exact .inl rfl
    case succ i =>
      refine .inr ?_
      rw [hs, Nat.add_sub_cancel, hstarts, hcounts, Ragged.starts_add_length (Nat.lt_of_succ_lt hlt)]

theorem build_eq_ok (h : build n cs = .ok p) : p.requirementCount = n ∧
    p.fieldIDs = Sorted.sortUnique (cs.map (·.field)) ∧ p.validBoundPolicy := by
  have ⟨_, hv, h⟩ := of_bind h
  have ⟨_, hv⟩ := of_guard hv
  have ⟨hall, _⟩ := of_guard hv
  simp only at h
  have ⟨hsize, h⟩ := of_guard h
  have ⟨_, h⟩ := of_guard h
  rw [not_or, Nat.not_lt, Nat.not_lt] at hsize
  simp only [Bool.not_eq_true', Bool.not_eq_false, List.all_eq_true, validConstraint, Bool.and_eq_true,
    decide_eq_true_eq, bne_iff_ne] at hall
  have hids := Sorted.pairwise_sortUnique (cs.map (·.field))
  have hrow : ∀ field ∈ Sorted.sortUnique (cs.map (·.field)), field ≠ 0 ∧ constraintValues cs field ≠ [] ∧
      (∀ v ∈ constraintValues cs field, v ≠ 0) ∧ (constraintValues cs field).Pairwise (· < ·) := by
    intro field hm
    obtain ⟨c, hc, rfl⟩ := List.mem_map.mp (Sorted.mem_sortUnique.mp hm)
    have ⟨⟨⟨_, h0⟩, hne⟩, _⟩ := hall c hc
    refine ⟨h0, fun hnil => ?_, fun v hv => ?_, Sorted.pairwise_sortUnique _⟩
    case refine_1 =>
      have ⟨v, hv⟩ := List.exists_mem_of_length_pos (Nat.pos_of_ne_zero hne)
      refine List.not_mem_nil (hnil ▸ Sorted.mem_sortUnique.mpr ?_ : v ∈ [])
      exact List.mem_flatMap.mpr ⟨c, List.mem_filter.mpr ⟨hc, beq_self_eq_true _⟩, hv⟩
    case refine_2 =>
      have ⟨c, hc, hv⟩ := List.mem_flatMap.mp (Sorted.mem_sortUnique.mp hv)
      exact (hall c (List.mem_of_mem_filter hc)).2 v hv
  cases h
  refine ⟨rfl, rfl, ?_⟩
  generalize Sorted.sortUnique (cs.map (·.field)) = fields at *
  generalize hfull : (List.range (Bitplane.wordCount n)).map (allMaskWord n (Bitplane.wordCount n)) = full
  have hwords : full.length = Bitplane.wordCount n := by simp [← hfull]
  have hwild := within_wildcardMask full cs
  have hmask : ∀ x : Nat × Nat, Within full (List.zipWith (· ||| ·)
      (valueMask (Bitplane.wordCount n) cs x.1 x.2) (wildcardMask full cs x.1)) := fun x => by
    refine Within.or (hwords ▸ within_valueMask (fun c hc => ?_) x.1 x.2) (hwild x.1)
    have hlt := (hall c hc).1.1.1
    rw [← hfull, bit_map_range _ (div_lt_wordCount hlt), bit_allMaskWord hlt]
  have hflat : (fields.flatMap fun field => (constraintValues cs field).flatMap fun value =>
        List.zipWith (· ||| ·) (valueMask (Bitplane.wordCount n) cs field value)
          (wildcardMask full cs field)) =
      (fieldValuePairs cs fields).flatMap fun x => List.zipWith (· ||| ·)
        (valueMask (Bitplane.wordCount n) cs x.1 x.2) (wildcardMask full cs x.1) := by
    simp [fieldValuePairs, List.flatMap_assoc, List.flatMap_map]
  have hpairs := @length_fieldValuePairs cs fields
  have hle := @length_fieldValuePairs_le cs _ (hids.imp Nat.ne_of_lt)
  simp only [validBoundPolicy, Bool.and_eq_true, beq_iff_eq, Bool.or_eq_true, decide_eq_true_eq,
    List.all_eq_true, List.mem_range, hflat, ← hpairs, hwords]
  refine ⟨⟨⟨⟨⟨⟨⟨⟨⟨⟨⟨trivial, trivial⟩, by simp⟩, by simp⟩, le_div_of_mul_le hsize.1⟩,
    le_div_of_mul_le ((Nat.mul_le_mul_right _ hle).trans hsize.2)⟩, ?_⟩, ?_⟩, ?_⟩, ?_⟩, ?_⟩, ?_⟩
  case refine_1 => exact Ragged.length_flatMap_of_length fun field _ => (hwild field).length.trans hwords
  case refine_2 => exact Ragged.length_flatMap_of_length fun x _ => (hmask x).length.trans hwords
  case refine_3 =>
    intro word hword
    simp [← hfull, hword]
  case refine_4 =>
    intro i hi
    refine validBoundField_of_values hi hids (fun field hm => (hrow field hm).1) rfl rfl rfl (by simp) ?_
    intro row hm
    obtain ⟨field, hf, rfl⟩ := List.mem_map.mp hm
    exact (hrow field hf).2
  case refine_5 =>
    split
    case isTrue h0 => simp [fieldValuePairs, List.length_eq_zero_iff.mp h0]
    case isFalse h0 =>
      have hlast : fields.length - 1 < (fields.map (constraintValues cs)).length := by
        rw [List.length_map]
        omega
      rw [beq_iff_eq, Ragged.starts_add_length hlast, Nat.sub_add_cancel (Nat.pos_of_ne_zero h0),
        List.take_of_length_le (by simp), hpairs]
  case refine_6 =>
    intro word hword
    refine ⟨fun i hi => ?_, fun i hi => ?_⟩
    · rw [Ragged.getD_flatMap_of_length (fun field _ => (hwild field).length.trans hwords) hi hword]
      exact (hwild _).and_not word
    · rw [Ragged.getD_flatMap_of_length (fun x _ => (hmask x).length.trans hwords) hi hword]
      exact (hmask _).and_not word

end NornRune.Policy
