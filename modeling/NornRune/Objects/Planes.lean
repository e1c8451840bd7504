import NornRune.Objects.Truth

open Bitplane Checked

namespace NornRune

structure Planes where
  positive : List Word
  negative : List Word

namespace Planes

def lane (t : Planes) (row : Nat) : Truth where
  positive := bit t.positive row
  negative := bit t.negative row

structure Shaped (t : Planes) (words : Nat) : Prop where
  positive : t.positive.length = words
  negative : t.negative.length = words

def requireShape (t : Planes) (words : Nat) : Except Panic Unit :=
  require (t.positive.length == words && t.negative.length == words)
    "truth: plane length does not match row count"

def maskTail (t : Planes) (rows : Nat) : Planes where
  positive := Bitplane.maskTail t.positive rows
  negative := Bitplane.maskTail t.negative rows

def set (dst : Planes) (value : Bool) (rows : Nat) : Except Panic Planes := do
  let words := wordCount rows
  dst.requireShape words
  let positive := if value then BitVec.allOnes 64 else 0#64
  let negative := if value then 0#64 else BitVec.allOnes 64
  return maskTail ⟨List.replicate words positive, List.replicate words negative⟩ rows

def not (dst src : Planes) (rows : Nat) : Except Panic Planes := do
  let words := wordCount rows
  dst.requireShape words
  src.requireShape words
  return maskTail ⟨src.negative, src.positive⟩ rows

def and (dst left right : Planes) (rows : Nat) : Except Panic Planes := do
  let words := wordCount rows
  dst.requireShape words
  left.requireShape words
  right.requireShape words
  return maskTail {
    positive := List.zipWith (· &&& ·) left.positive right.positive
    negative := List.zipWith (· ||| ·) left.negative right.negative
  } rows

def or (dst left right : Planes) (rows : Nat) : Except Panic Planes := do
  let words := wordCount rows
  dst.requireShape words
  left.requireShape words
  right.requireShape words
  return maskTail {
    positive := List.zipWith (· ||| ·) left.positive right.positive
    negative := List.zipWith (· &&& ·) left.negative right.negative
  } rows

section Lane

variable {dst src left right t : Planes} {rows words row : Nat}

theorem requireShape_of (h : t.Shaped words) : t.requireShape words = .ok () := by
  simp [requireShape, h.positive, h.negative]

theorem Shaped.maskTail (h : t.Shaped words) : (t.maskTail rows).Shaped words where
  positive := by simp [Planes.maskTail, h.positive]
  negative := by simp [Planes.maskTail, h.negative]

theorem lane_maskTail (h : t.Shaped (wordCount rows)) (hr : row < rows) :
    (t.maskTail rows).lane row = t.lane row := by
  simp [lane, Planes.maskTail, bit_maskTail h.positive hr, bit_maskTail h.negative hr]

-- What an operation has to deliver: planes of the right shape that hold `f row` on each row.
def Computes (x : Except Panic Planes) (rows : Nat) (f : Nat → Truth) : Prop :=
  ∃ t, x = .ok t ∧ t.Shaped (wordCount rows) ∧ ∀ row < rows, t.lane row = f row

theorem computes_maskTail (h : t.Shaped (wordCount rows)) :
    Computes (.ok (t.maskTail rows)) rows t.lane :=
  ⟨_, rfl, h.maskTail, fun _ hr => lane_maskTail h hr⟩

theorem Computes.congr {x : Except Panic Planes} {f g : Nat → Truth} (h : Computes x rows f)
    (hfg : ∀ row < rows, f row = g row) : Computes x rows g := by
  have ⟨t, hx, hs, hl⟩ := h
  exact ⟨t, hx, hs, fun row hr => hfg row hr ▸ hl row hr⟩

variable (hd : dst.Shaped (wordCount rows))
include hd

theorem set_computes (value : Bool) :
    Computes (dst.set value rows) rows fun _ => Truth.ofBool value := by
  simp only [set, requireShape_of hd, ok_bind]
  refine (computes_maskTail ⟨by simp, by simp⟩).congr fun row hr => ?_
  have hw := div_lt_wordCount hr
  have hm : row % 64 < 64 := Nat.mod_lt _ (by decide)
  cases value <;>
    simp only [lane, Truth.ofBool, bit_replicate _ hw, BitVec.getLsbD_allOnes, hm, if_true,
      Bool.false_eq_true, if_false, BitVec.getLsbD_zero, decide_true, Bool.not_true, Bool.not_false]

theorem not_computes (hs : src.Shaped (wordCount rows)) :
    Computes (not dst src rows) rows fun row => (src.lane row).not := by
  simp only [not, requireShape_of hd, requireShape_of hs, ok_bind]
  exact computes_maskTail ⟨hs.negative, hs.positive⟩

theorem and_computes (hl : left.Shaped (wordCount rows)) (hr : right.Shaped (wordCount rows)) :
    Computes (and dst left right rows) rows fun row => (left.lane row).and (right.lane row) := by
  simp only [and, requireShape_of hd, requireShape_of hl, requireShape_of hr, ok_bind]
  refine (computes_maskTail ⟨by simp [hl.positive, hr.positive],
    by simp [hl.negative, hr.negative]⟩).congr fun row _ => ?_
  simp [lane, Truth.and, bit_zipWith_and (hl.positive.trans hr.positive.symm),
    bit_zipWith_or (hl.negative.trans hr.negative.symm)]

theorem or_computes (hl : left.Shaped (wordCount rows)) (hr : right.Shaped (wordCount rows)) :
    Computes (or dst left right rows) rows fun row => (left.lane row).or (right.lane row) := by
  simp only [or, requireShape_of hd, requireShape_of hl, requireShape_of hr, ok_bind]
  refine (computes_maskTail ⟨by simp [hl.positive, hr.positive],
    by simp [hl.negative, hr.negative]⟩).congr fun row _ => ?_
  simp [lane, Truth.or, bit_zipWith_or (hl.positive.trans hr.positive.symm),
    bit_zipWith_and (hl.negative.trans hr.negative.symm)]

end Lane
end Planes

-- The reasons of one instruction: one plane per reason, stored one after the other.
namespace ReasonPlanes

def plane (ws : List Word) (reason words : Nat) : List Word :=
  Region.read ws ((reason - 1) * words) words

def setPlane (ws : List Word) (reason words : Nat) (plane : List Word) : List Word :=
  Region.write ws ((reason - 1) * words) plane

def lane (ws : List Word) (words row : Nat) : ReasonMask :=
  allReasons.foldl (fun mask reason =>
    if bit (plane ws reason words) row then mask.with' reason else mask) 0#16

variable {f : Nat → Bool} {reasons : List Nat} {mask : ReasonMask}

theorem foldl_with_valid (h : mask.valid) :
    (reasons.foldl (fun mask reason => if f reason then mask.with' reason else mask) mask).valid := by
  induction reasons generalizing mask
  case nil => exact h
  case cons hi =>
    rw [List.foldl_cons]
    split
    · exact hi (ReasonMask.valid_with h)
    · exact hi h

theorem foldl_with_has (hr : ∀ r ∈ reasons, r ∈ allReasons) (mask : ReasonMask) (k : Nat) :
    (reasons.foldl (fun mask reason => if f reason then mask.with' reason else mask) mask).has k =
      (mask.has k || (decide (k ∈ reasons) && f k)) := by
  induction reasons generalizing mask
  case nil => simp
  case cons reason reasons hi =>
    rw [List.foldl_cons, hi fun r h => hr r (List.mem_cons_of_mem _ h)]
    by_cases hk : k = reason
    case pos => subst hk; cases hf : f k <;> simp [ReasonMask.has_with (hr k List.mem_cons_self)]
    case neg =>
      cases hf : f reason <;> simp [hk, ReasonMask.has_with (hr reason List.mem_cons_self)]

theorem lane_valid (ws : List Word) (words row : Nat) : (lane ws words row).valid :=
  foldl_with_valid ReasonMask.valid_zero

theorem has_lane (ws : List Word) (words row reason : Nat) :
    (lane ws words row).has reason =
      (decide (reason ∈ allReasons) && bit (plane ws reason words) row) := by
  rw [lane, foldl_with_has fun _ h => h]
  simp

variable {ws vs : List Word} {words row reason : Nat}

theorem length_plane (h : ws.length = reasonCount * words) (hr : reason ∈ allReasons) :
    (plane ws reason words).length = words := by
  apply Region.length_read
  rw [h]
  have := mem_allReasons.mp hr
  exact Region.stride_le (by simp only [reasonCount]; omega) _

theorem lane_eq_of_planes (hv : mask.valid)
    (h : ∀ reason ∈ allReasons, bit (plane ws reason words) row = mask.has reason) :
    lane ws words row = mask := by
  refine ReasonMask.ext_has (lane_valid _ _ _) hv fun reason => ?_
  rw [has_lane]
  by_cases hr : reason ∈ allReasons
  · simp [hr, h reason hr]
  · simp [hr, ReasonMask.has_eq_false hr]

@[simp]
theorem lane_replicate_zero (n words row : Nat) :
    lane (List.replicate n 0#64) words row = 0#16 := by
  refine lane_eq_of_planes ReasonMask.valid_zero fun reason _ => ?_
  simp [plane, Region.read]

theorem plane_setPlane_self {p : List Word} (h : ws.length = reasonCount * words)
    (hp : p.length = words) (hr : reason ∈ allReasons) :
    plane (setPlane ws reason words p) reason words = p := by
  subst hp
  apply Region.read_write_self
  rw [h]
  have := mem_allReasons.mp hr
  exact Region.stride_le (by simp only [reasonCount]; omega) _

theorem plane_setPlane_ne {p : List Word} {other : Nat} (hp : p.length = words)
    (hr : reason ∈ allReasons) (ho : other ∈ allReasons) (hne : other ≠ reason) :
    plane (setPlane ws reason words p) other words = plane ws other words := by
  apply Region.read_write_disjoint
  rw [hp]
  have := mem_allReasons.mp hr
  have := mem_allReasons.mp ho
  exact Region.stride_disjoint (by omega) _

@[simp]
theorem length_setPlane (ws : List Word) (reason words : Nat) (p : List Word) :
    (setPlane ws reason words p).length = ws.length := by
  simp [setPlane]

theorem lane_zipWith_or (hw : ws.length = vs.length) :
    lane (List.zipWith (· ||| ·) ws vs) words row = lane ws words row ||| lane vs words row := by
  refine lane_eq_of_planes (ReasonMask.valid_or (lane_valid _ _ _) (lane_valid _ _ _))
    fun reason hr => ?_
  have : plane (List.zipWith (· ||| ·) ws vs) reason words =
      List.zipWith (· ||| ·) (plane ws reason words) (plane vs reason words) := by
    simp [plane, Region.read, List.drop_zipWith, List.take_zipWith]
  rw [this, bit_zipWith_or (by simp [plane, Region.read, hw])]
  simp [has_lane, hr]

end ReasonPlanes
end NornRune
