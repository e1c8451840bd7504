import NornRune.Lib.Bitplane
import NornRune.Lib.Slice
import NornRune.Objects.Schema

open Bitplane

namespace NornRune

-- The evidence for and against a statement on one row. Both bits can be set (a conflict) and both
-- can be clear (nothing is known).
@[ext]
structure Truth where
  positive : Bool
  negative : Bool
  deriving DecidableEq, Repr

namespace Truth

def not (a : Truth) : Truth where
  positive := a.negative
  negative := a.positive

def and (a b : Truth) : Truth where
  positive := a.positive && b.positive
  negative := a.negative || b.negative

def or (a b : Truth) : Truth where
  positive := a.positive || b.positive
  negative := a.negative && b.negative

def ofBool (b : Bool) : Truth where
  positive := b
  negative := !b

def top : Truth := ofBool true
def bottom : Truth := ofBool false

theorem and_comm (a b : Truth) : a.and b = b.and a := by
  simp [and, Bool.and_comm, Bool.or_comm]

theorem and_assoc (a b c : Truth) : (a.and b).and c = a.and (b.and c) := by
  simp [and, Bool.and_assoc, Bool.or_assoc]

@[simp]
theorem and_self (a : Truth) : a.and a = a := by
  simp [and]

theorem or_comm (a b : Truth) : a.or b = b.or a := by
  simp [or, Bool.and_comm, Bool.or_comm]

theorem or_assoc (a b c : Truth) : (a.or b).or c = a.or (b.or c) := by
  simp [or, Bool.and_assoc, Bool.or_assoc]

@[simp]
theorem or_self (a : Truth) : a.or a = a := by
  simp [or]

@[simp]
theorem and_top (a : Truth) : a.and top = a := by
  simp [and, top, ofBool]

@[simp]
theorem or_bottom (a : Truth) : a.or bottom = a := by
  simp [or, bottom, ofBool]

end Truth

def reasonCount : Nat := 9

def reasonMissing : Nat := 1
def reasonStale : Nat := 2
def reasonUnclear : Nat := 3
def reasonUnverifiable : Nat := 4
def reasonWrongScope : Nat := 5
def reasonWrongSubject : Nat := 6
def reasonWrongTiming : Nat := 7
def reasonInvalid : Nat := 8
def reasonConflict : Nat := 9

def allReasons : List Nat := List.range' reasonMissing reasonCount

theorem mem_allReasons {reason : Nat} : reason ∈ allReasons ↔ 1 ≤ reason ∧ reason ≤ 9 := by
  simp only [allReasons, reasonMissing, reasonCount, List.mem_range'_1]
  omega

-- A set of reasons. Bit `reason - 1` stands for `reason`.
abbrev ReasonMask := BitVec 16

namespace ReasonMask

def allReasonsMask : ReasonMask := (1#16 <<< reasonCount) - 1#16

def reasonBit (reason : Nat) : ReasonMask :=
  if reason < reasonMissing ∨ reasonConflict < reason then 0#16 else 1#16 <<< (reason - 1)

def with' (mask : ReasonMask) (reason : Nat) : ReasonMask :=
  mask ||| reasonBit reason

def has (mask : ReasonMask) (reason : Nat) : Bool :=
  reasonBit reason != 0#16 && mask &&& reasonBit reason != 0#16

def valid (mask : ReasonMask) : Bool :=
  mask &&& ~~~allReasonsMask == 0#16

theorem one_shiftLeft_ne_zero {n : Nat} (h : n < 16) : 1#16 <<< n ≠ 0#16 := by
  intro hz
  have := congrArg (BitVec.getLsbD · n) hz
  simp [h] at this

theorem and_one_shiftLeft (mask : ReasonMask) {n : Nat} (h : n < 16) :
    (mask &&& 1#16 <<< n != 0#16) = mask.getLsbD n := by
  cases hb : mask.getLsbD n
  case false =>
    have : mask &&& 1#16 <<< n = 0#16 := by
      ext i hi
      by_cases hin : i = n
      · subst hin
        simp_all [BitVec.getLsbD_eq_getElem]
      · by_cases hlt : i < n
        · simp [hlt]
        · simp [hlt, show ¬(i - n = 0) by omega]
    simp [this]
  case true =>
    simp only [bne_iff_ne, ne_eq]
    intro hz
    have := congrArg (BitVec.getLsbD · n) hz
    simp [-BitVec.getLsbD_eq_getElem, h, hb] at this

variable {mask : ReasonMask} {reason : Nat}

theorem has_eq_getLsbD (h : reason ∈ allReasons) :
    mask.has reason = mask.getLsbD (reason - 1) := by
  have h := mem_allReasons.mp h
  have hb : reasonBit reason = 1#16 <<< (reason - 1) := by
    simp [reasonBit, reasonMissing, reasonConflict]
    omega
  have hne : (1#16 <<< (reason - 1) != 0#16) = true := by
    simpa using one_shiftLeft_ne_zero (n := reason - 1) (by omega)
  rw [has, hb, hne, and_one_shiftLeft _ (by omega), Bool.true_and]

theorem has_eq_false (h : reason ∉ allReasons) :
    mask.has reason = false := by
  have : reasonBit reason = 0#16 := by
    rw [mem_allReasons] at h
    exact if_pos (by simp only [reasonMissing, reasonConflict]; omega)
  simp [has, this]

@[simp]
theorem has_or (a b : ReasonMask) (reason : Nat) :
    (a ||| b).has reason = (a.has reason || b.has reason) := by
  by_cases h : reason ∈ allReasons
  · simp [has_eq_getLsbD h]
  · simp [has_eq_false h]

@[simp]
theorem has_zero (reason : Nat) : has 0#16 reason = false := by
  simp [has]

theorem has_reasonBit {k : Nat} (h : reason ∈ allReasons) :
    (reasonBit reason).has k = decide (k = reason) := by
  by_cases hk : k ∈ allReasons
  case pos =>
    rw [has_eq_getLsbD hk]
    have h := mem_allReasons.mp h
    have hk := mem_allReasons.mp hk
    have hb : reasonBit reason = 1#16 <<< (reason - 1) := by
      simp [reasonBit, reasonMissing, reasonConflict]
      omega
    rw [hb, BitVec.getLsbD_shiftLeft, BitVec.getLsbD_one]
    by_cases hkr : k = reason
    · subst hkr
      simp
      omega
    · have : (k - 1 < reason - 1) ∨ (k - 1 - (reason - 1) ≠ 0) := by omega
      rcases this with hlt | hne
      · simp [hlt, hkr]
      · simp [hne, hkr]
  case neg =>
    rw [has_eq_false hk]
    have : k ≠ reason := by rintro rfl; exact hk h
    simp [this]

theorem has_with {k : Nat} (h : reason ∈ allReasons) :
    (mask.with' reason).has k = (mask.has k || decide (k = reason)) := by
  rw [with', has_or, has_reasonBit h]

@[simp]
theorem valid_zero : valid 0#16 = true := by
  decide

theorem getLsbD_allReasonsMask (i : Nat) : allReasonsMask.getLsbD i = decide (i < 9) := by
  have : allReasonsMask = BitVec.ofNat 16 (2 ^ 9 - 1) := by decide
  rw [this, BitVec.getLsbD_ofNat, Nat.testBit_two_pow_sub_one]
  by_cases h : i < 9
  · simp [h, Nat.lt_trans h (by decide : 9 < 16)]
  · simp [h]

theorem valid_iff :
    mask.valid = true ↔ ∀ i, 9 ≤ i → mask.getLsbD i = false := by
  rw [valid, beq_iff_eq]
  constructor
  case mp =>
    intro h i hi
    by_cases hlt : i < 16
    case pos =>
      have := congrArg (BitVec.getLsbD · i) h
      simpa only [BitVec.getLsbD_and, BitVec.getLsbD_not, getLsbD_allReasonsMask, hlt,
        Nat.not_lt.mpr hi, decide_true, decide_false, Bool.not_false, Bool.and_true,
        BitVec.getLsbD_zero] using this
    case neg => exact BitVec.getLsbD_of_ge mask i (by omega)
  case mpr =>
    intro h
    apply BitVec.eq_of_getLsbD_eq
    intro i _
    simp only [BitVec.getLsbD_and, BitVec.getLsbD_not, getLsbD_allReasonsMask, BitVec.getLsbD_zero]
    by_cases hlt : i < 9
    · simp [hlt]
    · simp [h i (by omega)]

theorem valid_or {a b : ReasonMask} (ha : a.valid) (hb : b.valid) : (a ||| b).valid := by
  rw [valid_iff] at *
  intro i hi
  simp [ha i hi, hb i hi]

theorem valid_reasonBit (reason : Nat) : (reasonBit reason).valid := by
  rw [valid_iff]
  intro i hi
  by_cases h : reason < reasonMissing ∨ reasonConflict < reason
  case pos => simp [reasonBit, h]
  case neg =>
    rw [reasonBit, if_neg h, BitVec.getLsbD_shiftLeft, BitVec.getLsbD_one]
    simp only [reasonMissing, reasonConflict] at h
    have : i - (reason - 1) ≠ 0 := by omega
    simp [this]

theorem valid_with (h : mask.valid) :
    (mask.with' reason).valid :=
  valid_or h (valid_reasonBit reason)

theorem ext_has {a b : ReasonMask} (ha : a.valid) (hb : b.valid)
    (h : ∀ reason, a.has reason = b.has reason) : a = b := by
  rw [valid_iff] at ha hb
  apply BitVec.eq_of_getLsbD_eq
  intro i _
  by_cases hlt : i < 9
  case pos =>
    have hm : i + 1 ∈ allReasons := mem_allReasons.mpr ⟨by omega, by omega⟩
    simpa [has_eq_getLsbD hm] using h (i + 1)
  case neg => rw [ha i (by omega), hb i (by omega)]

end ReasonMask
end NornRune
