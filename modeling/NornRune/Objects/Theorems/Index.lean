import NornRune.Objects.Index

open Bitplane

namespace NornRune

theorem wordCount_le {rows : Nat} (h : rows ≤ maxUint32) : Bitplane.wordCount rows ≤ 2 ^ 26 := by
  rw [wordCount_eq]
  simp only [maxUint32] at h
  omega

theorem pairwise_of_neighbours {xs : List Nat}
    (h : ∀ i, i + 1 < xs.length → xs.getD i 0 < xs.getD (i + 1) 0) : xs.Pairwise (· < ·) := by
  rw [← List.isChain_iff_pairwise, List.isChain_iff_getElem]
  intro i hi
  simpa [hi, Nat.lt_of_succ_lt hi] using h i hi

theorem Policy.pairwise_of_ascending {xs : List Nat} (h : Policy.ascending xs) :
    xs.Pairwise (· < ·) := by
  refine pairwise_of_neighbours fun i hi => ?_
  simp only [Policy.ascending, List.all_eq_true, List.mem_range] at h
  simpa using h (i + 1) hi

namespace Policy

structure Valid (p : Policy) : Prop where
  words : p.wordCount = Bitplane.wordCount p.requirementCount
  all : p.allMask.length = p.wordCount
  all_bit : ∀ r < p.requirementCount, bit p.allMask r
  wildcards : p.wildcardMasks.length = p.fieldIDs.length * p.wordCount
  masks : p.valueMasks.length = p.values.length * p.wordCount
  ids : p.fieldIDs.Pairwise (· < ·)
  range : ∀ f < p.fieldIDs.length,
    p.fieldValueStarts.getD f 0 + p.fieldValueCounts.getD f 0 ≤ p.values.length
  ascending : ∀ f < p.fieldIDs.length, (p.fieldValues f).Pairwise (· < ·)

variable {p : Policy}

theorem bit_allMaskWord {r n : Nat} (hr : r < n) :
    (allMaskWord n (Bitplane.wordCount n) (r / 64)).getLsbD (r % 64) = true := by
  have hm : r % 64 < 64 := Nat.mod_lt _ (by decide)
  unfold allMaskWord
  split
  case isFalse => simp only [BitVec.getLsbD_allOnes, hm, decide_true]
  case isTrue h =>
    rw [getLsbD_tailMask, decide_eq_true_eq]
    rw [Bitplane.wordCount_eq] at h
    omega

theorem valid_of_validBoundPolicy (h : p.validBoundPolicy) : p.Valid := by
  simp only [validBoundPolicy, Bool.and_eq_true, beq_iff_eq, List.all_eq_true, List.mem_range] at h
  have ⟨⟨⟨⟨⟨⟨⟨⟨⟨⟨⟨hw, ha⟩, _⟩, _⟩, _⟩, _⟩, hwild⟩, hmask⟩, hall⟩, hfield⟩, _⟩, _⟩ := h
  simp only [validBoundField, Bool.and_eq_true, bne_iff_ne, decide_eq_true_eq, Bool.or_eq_true,
    beq_iff_eq] at hfield
  refine ⟨hw, ha, fun r hr => ?_, hwild, hmask, pairwise_of_neighbours fun i hi => ?_,
    fun f hf => (hfield f hf).1.1.1.1.2, fun f hf => pairwise_of_ascending (hfield f hf).2⟩
  case refine_1 =>
    have hlt : r / 64 < p.allMask.length := by
      rw [ha, hw]
      exact div_lt_wordCount hr
    have := hall (r / 64) hlt
    rw [bit, this, ha, hw]
    exact bit_allMaskWord hr
  case refine_2 => exact (hfield (i + 1) hi).1.1.1.1.1.1.2.resolve_left (by omega)

theorem Valid.length_fieldMask (h : p.Valid) {f : Nat} (hf : f < p.fieldIDs.length) (value : Nat) :
    (p.fieldMask f value).length = p.wordCount := by
  unfold fieldMask
  split
  case h_1 relative hs =>
    have hlt := BinarySearch.lt_length_of_search hs
    have hr := h.range f hf
    rw [fieldValues, Region.length_read hr] at hlt
    have := Region.stride_le (show p.fieldValueStarts.getD f 0 + relative < p.values.length by omega)
      p.wordCount
    exact Region.length_read (h.masks ▸ this)
  case h_2 =>
    have := Region.stride_le hf p.wordCount
    exact Region.length_read (h.wildcards ▸ this)

theorem length_candidatesFrom {values : List Nat} (present : List Bool) {fields : List Nat}
    {words : Nat} (hf : ∀ f ∈ fields, (p.fieldMask f (values.getD f 0)).length = words)
    {dst : List Word} (hd : dst.length = words) :
    (p.candidatesFrom values present fields dst).length = words := by
  induction fields generalizing dst
  case nil => exact hd
  case cons f fields hi =>
    have ⟨hm, hf⟩ := List.forall_mem_cons.mp hf
    have hz : (List.zipWith (· &&& ·) dst (p.fieldMask f (values.getD f 0))).length = words := by
      rw [List.length_zipWith, hd, hm, Nat.min_self]
    unfold candidatesFrom
    split
    case isTrue =>
      simp only
      split
      · exact hz
      · exact hi hf hz
    case isFalse => exact hi hf hd

theorem Valid.length_candidatesFrom (h : p.Valid) (values : List Nat) (present : List Bool)
    {fields : List Nat} (hf : ∀ f ∈ fields, f < p.fieldIDs.length) {dst : List Word}
    (hd : dst.length = p.wordCount) :
    (p.candidatesFrom values present fields dst).length = p.wordCount :=
  Policy.length_candidatesFrom present (fun f hm => h.length_fieldMask (hf f hm) _) hd

end Policy

namespace FactSpec

structure FieldShaped (spec : FactSpec) (symbolColumns programSymbolCount f : Nat) : Prop where
  column_lt : spec.columns.getD f 0 < symbolColumns
  range_le : spec.valueStarts.getD f 0 + spec.valueCounts.getD f 0 ≤ spec.values.length
  value_le : ∀ v ∈ spec.fieldValues f, v ≤ programSymbolCount
  ascending : (spec.fieldValues f).Pairwise (· < ·)

structure Shaped (spec : FactSpec) (symbolColumns programSymbolCount : Nat) : Prop where
  columns : spec.columns.length = spec.fieldIDs.length
  ids : spec.fieldIDs.Pairwise (· < ·)
  field : ∀ f < spec.fieldIDs.length, spec.FieldShaped symbolColumns programSymbolCount f
  adjacent : ∀ f, f + 1 < spec.fieldIDs.length →
    spec.valueStarts.getD (f + 1) 0 = spec.valueStarts.getD f 0 + spec.valueCounts.getD f 0

variable {spec : FactSpec} {symbolColumns programSymbolCount : Nat}

theorem shaped_of_validShape (h : spec.validShape symbolColumns programSymbolCount) :
    spec.Shaped symbolColumns programSymbolCount := by
  simp only [validShape, Bool.and_eq_true, beq_iff_eq, decide_eq_true_eq] at h
  have hf : ∀ f < spec.fieldIDs.length,
      spec.validField symbolColumns programSymbolCount f = true := by
    intro f hf
    have h := h.2
    rw [if_neg (by omega), Bool.and_eq_true, List.all_eq_true] at h
    exact h.1 f (List.mem_range.mpr hf)
  simp only [validField, Bool.and_eq_true, bne_iff_ne, decide_eq_true_eq, Bool.or_eq_true,
    beq_iff_eq, List.all_eq_true] at hf
  refine ⟨h.1.1.1.1.1.1, pairwise_of_neighbours fun i hi => ?_, fun f hlt => ?_, fun f hlt => ?_⟩
  case refine_1 => exact ((hf (i + 1) hi).1.1.1.1.1.1.2.resolve_left (by omega)).1
  case refine_2 =>
    have hf := hf f hlt
    exact ⟨hf.1.1.1.1.1.1.1.1.2, hf.1.1.1.1.2, fun v hv => (hf.1.2 v hv).2,
      Policy.pairwise_of_ascending hf.2⟩
  case refine_3 => exact (hf (f + 1) hlt).1.1.2.resolve_left (by omega)

namespace Shaped

theorem stop_le_start (h : spec.Shaped symbolColumns programSymbolCount) {f g : Nat} (hlt : f < g)
    (hg : g < spec.fieldIDs.length) :
    spec.valueStarts.getD f 0 + spec.valueCounts.getD f 0 ≤ spec.valueStarts.getD g 0 := by
  induction g
  case zero => omega
  case succ g hi =>
    have ha := h.adjacent g hg
    rcases Nat.lt_succ_iff_lt_or_eq.mp hlt with hlt | rfl
    · have := hi hlt (by omega)
      omega
    · omega

end Shaped

theorem getElem?_fieldValues (spec : FactSpec) (f i : Nat) : (spec.fieldValues f)[i]? =
    if i < spec.valueCounts.getD f 0 then spec.values[spec.valueStarts.getD f 0 + i]? else none :=
  Region.getElem?_read ..

def InRange (spec : FactSpec) (f i : Nat) : Prop :=
  spec.valueStarts.getD f 0 ≤ i ∧ i < spec.valueStarts.getD f 0 + spec.valueCounts.getD f 0

instance {f i : Nat} : Decidable (spec.InRange f i) :=
  inferInstanceAs (Decidable (_ ∧ _))

namespace FieldShaped

variable {f i j : Nat}

variable (h : spec.FieldShaped symbolColumns programSymbolCount f)
include h

theorem getElem?_fieldValues_sub (hi : spec.InRange f i) :
    (spec.fieldValues f)[i - spec.valueStarts.getD f 0]? = some (spec.values.getD i 0) := by
  have ⟨h₁, h₂⟩ := hi
  have := h.range_le
  rw [getElem?_fieldValues, if_pos (by omega), Nat.add_sub_cancel' h₁,
    List.getElem?_eq_getElem (by omega), List.getD_eq_getElem _ _ (by omega)]

theorem getD_mem_fieldValues (hi : spec.InRange f i) : spec.values.getD i 0 ∈ spec.fieldValues f :=
  List.mem_of_getElem? (h.getElem?_fieldValues_sub hi)

theorem getD_ne (hi : spec.InRange f i) (hj : spec.InRange f j) (hlt : i < j) :
    spec.values.getD i 0 ≠ spec.values.getD j 0 := by
  have ⟨hi', ei⟩ := List.getElem?_eq_some_iff.mp (h.getElem?_fieldValues_sub hi)
  have ⟨hj', ej⟩ := List.getElem?_eq_some_iff.mp (h.getElem?_fieldValues_sub hj)
  have := List.pairwise_iff_getElem.mp h.ascending _ _ hi' hj' (Nat.sub_lt_sub_right hi.1 hlt)
  exact ei ▸ ej ▸ Nat.ne_of_lt this

end FieldShaped

theorem inRange_of_getElem? {f i v : Nat} (h : (spec.fieldValues f)[i]? = some v) :
    spec.InRange f (spec.valueStarts.getD f 0 + i) ∧
      spec.values.getD (spec.valueStarts.getD f 0 + i) 0 = v := by
  rw [getElem?_fieldValues] at h
  split at h
  case isFalse => cases h
  case isTrue hlt =>
    exact ⟨⟨by omega, by omega⟩, by rw [List.getD_eq_getElem?_getD, h, Option.getD_some]⟩

theorem Shaped.inRange_unique (h : spec.Shaped symbolColumns programSymbolCount) {f g i : Nat}
    (hf : f < spec.fieldIDs.length) (hg : g < spec.fieldIDs.length) (hfi : spec.InRange f i)
    (hgi : spec.InRange g i) : f = g := by
  have ⟨h₁, h₂⟩ := hfi
  have ⟨h₃, h₄⟩ := hgi
  rcases Nat.lt_trichotomy f g with hlt | rfl | hlt
  · have := h.stop_le_start hlt hg
    omega
  · rfl
  · have := h.stop_le_start hlt hf
    omega

end FactSpec
end NornRune
