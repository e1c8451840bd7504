import NornRune.Execution.Theorems.Columns

open Bitplane Checked

namespace NornRune

structure Leaf.Holds (leaf : Leaf) (rows : Nat) (f : Nat → Lane) : Prop where
  shaped : leaf.truth.Shaped (wordCount rows)
  length : leaf.reasons.length = reasonCount * wordCount rows
  truth : ∀ row < rows, leaf.truth.lane row = (f row).truth
  reasons : ∀ row < rows, ReasonPlanes.lane leaf.reasons (wordCount rows) row = (f row).reasons

namespace Leaf.Holds

variable {leaf : Leaf} {rows : Nat} {f g : Nat → Lane}

theorem congr (h : leaf.Holds rows f) (hfg : ∀ row < rows, f row = g row) : leaf.Holds rows g where
  shaped := h.shaped
  length := h.length
  truth row hr := hfg row hr ▸ h.truth row hr
  reasons row hr := hfg row hr ▸ h.reasons row hr

end Leaf.Holds

def Leaf.clear (rows : Nat) : Leaf :=
  ⟨⟨List.replicate (wordCount rows) 0#64, List.replicate (wordCount rows) 0#64⟩,
    List.replicate (reasonCount * wordCount rows) 0#64⟩

theorem resetLeafOutputs_eq_ok {dst : Planes} {reasons : List Word} {rows : Nat}
    (hd : dst.Shaped (wordCount rows)) (hr : reasons.length = reasonCount * wordCount rows) :
    resetLeafOutputs dst reasons rows = .ok (Leaf.clear rows) := by
  simp [resetLeafOutputs, hd.positive, hd.negative, hr, require, Leaf.clear]

theorem reasonMissing_mem : reasonMissing ∈ allReasons := by
  decide

theorem lane_missing {words row : Nat} {plane : List Word} (hp : plane.length = words) :
    ReasonPlanes.lane (ReasonPlanes.setPlane (List.replicate (reasonCount * words) 0#64)
      reasonMissing words plane) words row =
      if bit plane row then ReasonMask.reasonBit reasonMissing else 0#16 := by
  apply ReasonPlanes.lane_eq_of_planes
  case hv =>
    split
    · exact ReasonMask.valid_reasonBit _
    · exact ReasonMask.valid_zero
  case h =>
    intro reason hr
    by_cases hm : reason = reasonMissing
    case pos =>
      subst hm
      rw [ReasonPlanes.plane_setPlane_self (by simp) hp hr]
      cases bit plane row <;> simp [ReasonMask.has_reasonBit hr]
    case neg =>
      rw [ReasonPlanes.plane_setPlane_ne hp reasonMissing_mem hr hm]
      cases bit plane row <;>
        simp [ReasonMask.has_reasonBit reasonMissing_mem, hm, ReasonPlanes.plane, Region.read]

section LeafWords

variable {rows row : Nat} {presence : List Word} {matched : Nat → Word}

variable (hl : presence.length = wordCount rows)
include hl

theorem getLsbD_presentWord (hr : row < rows) :
    (presentWord rows presence (row / 64)).getLsbD (row % 64) = bit presence row := by
  have hw : row / 64 < presence.length := hl ▸ div_lt_wordCount hr
  rw [presentWord, BitVec.getLsbD_and, getLsbD_wordMask hr, Bool.and_true,
    List.getD_eq_getElem _ _ hw, bit_eq_getElem hw]

theorem bit_absentWords (hr : row < rows) :
    bit (absentWords rows presence) row = !bit presence row := by
  rw [absentWords, bit_map_range _ (div_lt_wordCount hr), BitVec.getLsbD_and, BitVec.getLsbD_not,
    getLsbD_presentWord hl hr, getLsbD_wordMask hr]
  simp [Nat.mod_lt]

theorem lane_missingReasons (hr : row < rows) :
    ReasonPlanes.lane (missingReasons rows presence) (wordCount rows) row =
      if bit presence row then 0#16 else ReasonMask.reasonBit reasonMissing := by
  rw [missingReasons, lane_missing (by simp [absentWords]), bit_absentWords hl hr]
  cases bit presence row <;> rfl

theorem definedLeaf_holds :
    (definedLeaf rows presence).Holds rows fun row => ⟨.ofBool (bit presence row), 0#16⟩ where
  shaped := ⟨by simp [definedLeaf], by simp [definedLeaf, absentWords]⟩
  length := by simp [definedLeaf]
  truth row hr := by
    simp only [definedLeaf, Planes.lane, Truth.ofBool, bit_map_range _ (div_lt_wordCount hr),
      getLsbD_presentWord hl hr, bit_absentWords hl hr]
  reasons row _ := by simp [definedLeaf]

theorem existsLeaf_holds :
    (existsLeaf rows presence).Holds rows fun row => ⟨⟨bit presence row, false⟩,
      if bit presence row then 0#16 else ReasonMask.reasonBit reasonMissing⟩ where
  shaped := ⟨by simp [existsLeaf], by simp [existsLeaf]⟩
  length := by simp [existsLeaf, missingReasons]
  truth row hr := by
    simp only [existsLeaf, Planes.lane, bit_map_range _ (div_lt_wordCount hr),
      getLsbD_presentWord hl hr, bit_replicate_zero]
  reasons row hr := lane_missingReasons hl hr

theorem comparedLeaf_holds {m : Nat → Bool}
    (hm : ∀ row < rows, (matched (row / 64)).getLsbD (row % 64) = m row) :
    (comparedLeaf rows presence matched).Holds rows fun row =>
      ⟨⟨bit presence row && m row, bit presence row && !m row⟩,
        if bit presence row then 0#16 else ReasonMask.reasonBit reasonMissing⟩ where
  shaped := ⟨by simp [comparedLeaf], by simp [comparedLeaf]⟩
  length := by simp [comparedLeaf, missingReasons]
  truth row hr := by
    have hmod : row % 64 < 64 := Nat.mod_lt _ (by decide)
    simp only [comparedLeaf, Planes.lane, bit_map_range _ (div_lt_wordCount hr), BitVec.getLsbD_and,
      BitVec.getLsbD_not, getLsbD_presentWord hl hr, hm row hr, hmod, decide_true, Bool.true_and]
  reasons row hr := lane_missingReasons hl hr

theorem leafWords_holds (opcode : Opcode) {m : Nat → Bool}
    (hm : ∀ row < rows, (matched (row / 64)).getLsbD (row % 64) = m row) :
    (leafWords rows presence opcode matched).Holds rows fun row =>
      leafLane opcode (bit presence row) (m row) := by
  cases opcode
  case defined => exact definedLeaf_holds hl
  case «exists» => exact existsLeaf_holds hl
  all_goals exact comparedLeaf_holds hl hm

end LeafWords
end NornRune
