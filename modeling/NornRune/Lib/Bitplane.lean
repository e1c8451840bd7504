import Mathlib.Data.List.Basic
import Mathlib.Data.Nat.Bitwise

-- A bitplane stores one bit per row, 64 rows to a word, in a list of words. Everything that is said
-- about a plane is said through `bit`, the value it holds for one row.
namespace Bitplane

abbrev Word := BitVec 64

def wordCount (rows : Nat) : Nat :=
  (rows + 63) >>> 6

def bit (ws : List Word) (row : Nat) : Bool :=
  (ws.getD (row / 64) 0#64).getLsbD (row % 64)

def rowMask (row : Nat) : Word :=
  1#64 <<< (row % 64)

def setBit (ws : List Word) (row : Nat) : List Word :=
  ws.modify (row / 64) (· ||| rowMask row)

def clearBit (ws : List Word) (row : Nat) : List Word :=
  ws.modify (row / 64) (· &&& ~~~rowMask row)

def lowest (ws : List Word) (first : Nat) : Option Nat :=
  ((List.range' first (ws.length - first)).find? fun word => ws.getD word 0#64 != 0#64).bind
    fun word => ((List.range 64).find? fun i => (ws.getD word 0#64).getLsbD i).map (word * 64 + ·)

def setWhere (f : Nat → Bool) (rows : Nat) (ws : List Word) : List Word :=
  (List.range rows).foldl (fun ws row => if f row then setBit ws row else ws) ws

def tailMask (rows : Nat) : Word :=
  (1#64 <<< (rows % 64)) - 1#64

def maskTail (ws : List Word) (rows : Nat) : List Word :=
  if rows % 64 = 0 then ws else ws.modify (ws.length - 1) (· &&& tailMask rows)

def wordMask (word words rows : Nat) : Word :=
  if word + 1 ≠ words ∨ rows % 64 = 0 then BitVec.allOnes 64 else tailMask rows

def matchWord (f : Nat → Bool) (word rows : Nat) : Word :=
  (List.range' (word * 64) (min (word * 64 + 64) rows - word * 64)).foldl
    (fun w row => if f row then w ||| rowMask row else w) 0#64

theorem wordCount_eq (rows : Nat) : wordCount rows = (rows + 63) / 64 := by
  simp [wordCount, Nat.shiftRight_eq_div_pow]

variable {row rows first r : Nat} {ws : List Word}

theorem div_lt_wordCount (h : row < rows) : row / 64 < wordCount rows := by
  rw [wordCount_eq]
  omega

theorem bit_eq_getElem (h : row / 64 < ws.length) :
    bit ws row = ws[row / 64].getLsbD (row % 64) := by
  rw [bit, List.getD_eq_getElem _ _ h]

theorem bit_of_length_le {ws : List Word} {row : Nat} (h : ws.length ≤ row / 64) :
    bit ws row = false := by
  simp [bit, h]

@[simp]
theorem bit_replicate_zero (n row : Nat) : bit (List.replicate n 0#64) row = false := by
  simp only [bit, List.getD_eq_getElem?_getD, List.getElem?_replicate]
  split <;> simp

theorem bit_replicate {n : Nat} (w : Word) (h : row / 64 < n) :
    bit (List.replicate n w) row = w.getLsbD (row % 64) := by
  simp [bit, h]

theorem getLsbD_rowMask (row i : Nat) : (rowMask row).getLsbD i = decide (i = row % 64) := by
  simp only [rowMask, BitVec.getLsbD_shiftLeft, BitVec.getLsbD_one]
  by_cases h : i = row % 64
  · simp [h, Nat.mod_lt]
  · by_cases h' : i < row % 64
    · simp [h, h']
    · have : i - row % 64 ≠ 0 := by omega
      simp [h, this]

@[simp]
theorem length_setBit (ws : List Word) (row : Nat) : (setBit ws row).length = ws.length := by
  simp [setBit]

theorem bit_setBit (h : row / 64 < ws.length) (r : Nat) :
    bit (setBit ws row) r = (bit ws r || decide (r = row)) := by
  by_cases hw : r / 64 = row / 64
  case pos =>
    have hr : r / 64 < ws.length := by omega
    rw [bit_eq_getElem (by simpa), bit_eq_getElem hr]
    simp only [setBit, List.getElem_modify, hw, if_true, BitVec.getLsbD_or, getLsbD_rowMask]
    congr 2
    exact propext ⟨by omega, by omega⟩
  case neg =>
    have hne : r ≠ row := by rintro rfl; exact hw rfl
    simp [bit, setBit, List.getD_eq_getElem?_getD, Ne.symm hw, hne]

@[simp]
theorem length_clearBit (ws : List Word) (row : Nat) : (clearBit ws row).length = ws.length := by
  simp [clearBit]

theorem bit_clearBit (ws : List Word) (row r : Nat) :
    bit (clearBit ws row) r = (bit ws r && decide (r ≠ row)) := by
  by_cases hw : r / 64 = row / 64
  case pos =>
    by_cases hr : r / 64 < ws.length
    case pos =>
      rw [bit_eq_getElem (by simpa), bit_eq_getElem hr]
      simp only [clearBit, List.getElem_modify, hw, if_true, BitVec.getLsbD_and, BitVec.getLsbD_not,
        getLsbD_rowMask, Nat.mod_lt r (Nat.zero_lt_succ 63), decide_true, Bool.true_and]
      congr 1
      rw [← decide_not]
      exact decide_eq_decide.mpr ⟨by omega, by omega⟩
    case neg => rw [bit_of_length_le (by simpa using hr), bit_of_length_le (by omega), Bool.false_and]
  case neg =>
    have hne : r ≠ row := by rintro rfl; exact hw rfl
    simp [bit, clearBit, List.getD_eq_getElem?_getD, Ne.symm hw, hne]

theorem lowest_eq_some (h : lowest ws first = some r) :
    bit ws r = true ∧ ∀ b, first ≤ b / 64 → bit ws b = true → r / 64 ≤ b / 64 := by
  simp only [lowest, Option.bind_eq_some_iff, Option.map_eq_some_iff] at h
  obtain ⟨word, hword, i, hi, rfl⟩ := h
  have hmem := List.mem_of_find?_eq_some hword
  have hi' := List.mem_of_find?_eq_some hi
  simp only [List.mem_range'_1, List.mem_range] at hmem hi'
  have hdiv : (word * 64 + i) / 64 = word := by omega
  have hmod : (word * 64 + i) % 64 = i := by omega
  rw [bit, hdiv, hmod]
  refine ⟨List.find?_some hi, fun b hb hset => ?_⟩
  by_contra hlt
  -- A word that was passed over has no bits.
  have hzero : ∀ w, first ≤ w → w < word → ws.getD w 0#64 = 0#64 := fun w hw hlt => by
    have := List.find?_range'_eq_some.mp hword
    simpa using this.2.2 w hw hlt
  rw [bit, hzero (b / 64) hb (by omega)] at hset
  simp at hset

theorem bit_of_lowest_eq_none (h : lowest ws first = none) {b : Nat} (hb : first ≤ b / 64) :
    bit ws b = false := by
  by_contra hset
  rw [Bool.not_eq_false] at hset
  have hlt : b / 64 < ws.length := by
    by_contra hge
    rw [bit_of_length_le (Nat.le_of_not_lt hge)] at hset
    cases hset
  have hword : ws.getD (b / 64) 0#64 ≠ 0#64 := fun hz => by
    rw [bit, hz] at hset
    simp at hset
  simp only [lowest, Option.bind_eq_none_iff, Option.map_eq_none_iff] at h
  cases hf : (List.range' first (ws.length - first)).find? fun word => ws.getD word 0#64 != 0#64
  case none =>
    rw [List.find?_eq_none] at hf
    exact hf (b / 64) (by rw [List.mem_range'_1]; omega) (bne_iff_ne.mpr hword)
  case some word =>
    -- The word that was found has a bit.
    have hz := h word hf
    rw [List.find?_eq_none] at hz
    have hne := List.find?_some hf
    refine bne_iff_ne.mp hne (BitVec.eq_of_getLsbD_eq fun i hi => ?_)
    simpa using hz i (List.mem_range.mpr hi)

@[simp]
theorem length_setWhere (f : Nat → Bool) (rows : Nat) (ws : List Word) :
    (setWhere f rows ws).length = ws.length := by
  induction rows <;> simp [setWhere, List.range_succ] at *
  case succ hi => split <;> simp [hi]

theorem setWhere_succ (f : Nat → Bool) (rows : Nat) (ws : List Word) :
    setWhere f (rows + 1) ws =
      if f rows then setBit (setWhere f rows ws) rows else setWhere f rows ws := by
  simp [setWhere, List.range_succ]

theorem bit_setWhere (f : Nat → Bool) (h : wordCount rows ≤ ws.length) (r : Nat) :
    bit (setWhere f rows ws) r = (bit ws r || (decide (r < rows) && f r)) := by
  induction rows
  case zero => simp [setWhere]
  case succ n hi =>
    have hn : n / 64 < ws.length := Nat.lt_of_lt_of_le (div_lt_wordCount (Nat.lt_succ_self n)) h
    have hi := hi (Nat.le_trans (by simp only [wordCount_eq]; omega) h)
    rw [setWhere_succ]
    by_cases hr : r = n
    case pos =>
      subst hr
      split <;> simp_all [bit_setBit]
    case neg =>
      have : decide (r < n + 1) = decide (r < n) := decide_eq_decide.mpr (by omega)
      split <;> simp_all [bit_setBit]

theorem getLsbD_tailMask (rows i : Nat) : (tailMask rows).getLsbD i = decide (i < rows % 64) := by
  have hlt : rows % 64 < 64 := Nat.mod_lt _ (by decide)
  have heq : tailMask rows = BitVec.ofNat 64 (2 ^ (rows % 64) - 1) := by
    have hp : 2 ^ (rows % 64) < 2 ^ 64 := Nat.pow_lt_pow_right (by decide) hlt
    have h1 : 1 ≤ 2 ^ (rows % 64) := Nat.one_le_two_pow
    apply BitVec.eq_of_toNat_eq
    simp only [tailMask, BitVec.toNat_sub, BitVec.toNat_shiftLeft, BitVec.toNat_ofNat,
      Nat.shiftLeft_eq]
    omega
  rw [heq, BitVec.getLsbD_ofNat, Nat.testBit_two_pow_sub_one]
  by_cases h : i < rows % 64
  · simp [h, Nat.lt_trans h hlt]
  · simp [h]

@[simp]
theorem length_maskTail (ws : List Word) (rows : Nat) : (maskTail ws rows).length = ws.length := by
  unfold maskTail
  split <;> simp

theorem bit_maskTail (hl : ws.length = wordCount rows) (hr : r < rows) :
    bit (maskTail ws rows) r = bit ws r := by
  unfold maskTail
  split
  case isTrue => rfl
  case isFalse h =>
    by_cases hw : ws.length - 1 = r / 64
    case pos =>
      have : r % 64 < rows % 64 := by
        rw [wordCount_eq] at hl
        omega
      rw [bit_eq_getElem (by simp [hl, div_lt_wordCount hr]),
        bit_eq_getElem (by simp [hl, div_lt_wordCount hr])]
      simp [hw, getLsbD_tailMask, this]
    case neg => simp [bit, List.getD_eq_getElem?_getD, hw]

theorem getLsbD_wordMask (hr : r < rows) :
    (wordMask (r / 64) (wordCount rows) rows).getLsbD (r % 64) = true := by
  unfold wordMask
  split
  case isTrue => simp only [BitVec.getLsbD_allOnes, Nat.mod_lt, decide_true, Nat.zero_lt_succ]
  case isFalse h =>
    simp only [not_or, not_not] at h
    have h1 := h.1
    rw [wordCount_eq] at h1
    simp only [getLsbD_tailMask, decide_eq_true_eq]
    omega

theorem getLsbD_foldl_rowMask (f : Nat → Bool) (rows : List Nat) (w : Word) (i : Nat) :
    (rows.foldl (fun w row => if f row then w ||| rowMask row else w) w).getLsbD i =
      (w.getLsbD i || rows.any fun row => f row && decide (i = row % 64)) := by
  induction rows generalizing w <;> simp
  case cons row rows hi =>
    rw [hi]
    split <;> simp_all [getLsbD_rowMask, Bool.or_assoc]

theorem getLsbD_matchWord (f : Nat → Bool) (hr : r < rows) :
    (matchWord f (r / 64) rows).getLsbD (r % 64) = f r := by
  rw [matchWord, getLsbD_foldl_rowMask, Bool.eq_iff_iff]
  simp only [BitVec.getLsbD_zero, Bool.false_or, List.any_eq_true, List.mem_range'_1,
    Bool.and_eq_true, decide_eq_true_eq]
  constructor
  case mp =>
    rintro ⟨row, hrow, hf, hm⟩
    have : row = r := by omega
    exact this ▸ hf
  case mpr => exact fun hf => ⟨r, by omega, hf, rfl⟩

section Pointwise

theorem bit_map_range (f : Nat → Word) {n r : Nat} (h : r / 64 < n) :
    bit ((List.range n).map f) r = (f (r / 64)).getLsbD (r % 64) := by
  rw [bit_eq_getElem (by simpa)]
  simp

variable {as bs : List Word}

variable (h : as.length = bs.length)
include h

theorem bit_zipWith_and (r : Nat) :
    bit (List.zipWith (· &&& ·) as bs) r = (bit as r && bit bs r) := by
  by_cases hr : r / 64 < as.length
  · rw [bit_eq_getElem (by simp; omega), bit_eq_getElem hr, bit_eq_getElem (by omega)]
    simp
  · rw [bit_of_length_le (by simp; omega), @bit_of_length_le as _ (by omega)]
    rfl

theorem bit_zipWith_or (r : Nat) :
    bit (List.zipWith (· ||| ·) as bs) r = (bit as r || bit bs r) := by
  by_cases hr : r / 64 < as.length
  · rw [bit_eq_getElem (by simp; omega), bit_eq_getElem hr, bit_eq_getElem (by omega)]
    simp
  · rw [bit_of_length_le (by simp; omega), @bit_of_length_le as _ (by omega),
      @bit_of_length_le bs _ (by omega)]
    rfl

theorem bit_zipWith_andNot (r : Nat) :
    bit (List.zipWith (fun a b => a &&& ~~~b) as bs) r = (bit as r && !bit bs r) := by
  by_cases hr : r / 64 < as.length
  · rw [bit_eq_getElem (by simp; omega), bit_eq_getElem hr, bit_eq_getElem (by omega)]
    simp [Nat.mod_lt]
  · rw [bit_of_length_le (by simp; omega), @bit_of_length_le as _ (by omega)]
    rfl

end Pointwise
end Bitplane
