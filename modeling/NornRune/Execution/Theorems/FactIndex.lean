import NornRune.Execution.Theorems.Predicate
import NornRune.Objects.Theorems.Index

open Bitplane Checked

namespace NornRune

def Clean (s : Slice Nat) : Prop :=
  ∀ j, s.get 0 j = 0

theorem clean_resize {s : Slice Nat} (h : Clean s) (n : Nat) : Clean (s.resize 0 n) := by
  intro j
  have := h j
  unfold Slice.resize
  split
  · simp only [Slice.get, List.getD_eq_getElem?_getD, List.getElem?_replicate]
    split <;> rfl
  · exact this

theorem clean_empty : Clean .empty := by
  intro j
  simp [Slice.get, Slice.empty]

def maskBit (masks : List Word) (words valueRow r : Nat) : Bool :=
  (masks.getD (valueRow * words + r / 64) 0#64).getLsbD (r % 64)

theorem bit_read_mask {masks : List Word} {rows valueRow r : Nat} (hr : r / 64 < wordCount rows) :
    bit (Region.read masks (valueRow * wordCount rows) (wordCount rows)) r =
      maskBit masks (wordCount rows) valueRow r := by
  simp [bit, maskBit, List.getD_eq_getElem?_getD, Region.getElem?_read, hr]

def SymbolColumns.stride (columns : SymbolColumns) : Nat :=
  if columns.rowStride = 0 then columns.rows else columns.rowStride

structure SymbolColumns.Strided (columns : SymbolColumns) : Prop where
  offset : columns.rowStride = 0 → columns.rowOffset = 0
  range : columns.rowOffset + columns.rows ≤ columns.stride
  length : columns.values.length = columns.stride * columns.count
  -- A slice of four bytes per symbol does not have more elements.
  values_le : columns.values.length ≤ maxInt / 4
  rows_le : columns.rows ≤ maxUint32
  symbols_le : columns.programSymbolCount ≤ maxUint32

namespace FactBuilder

variable {spec : FactSpec} {valueRows : Slice Nat} {rows : Nat}

@[simp]
theorem len_foldl_mark (valueRows : Slice Nat) (vs : List Nat) :
    (vs.foldl (mark · spec) valueRows).len = valueRows.len := by
  induction vs generalizing valueRows <;> simp_all [mark]

@[simp]
theorem len_foldl_unmark (valueRows : Slice Nat) (vs : List Nat) :
    (vs.foldl unmark valueRows).len = valueRows.len := by
  induction vs generalizing valueRows <;> simp_all [unmark]

theorem get_foldl_mark (h : Clean valueRows) {start count : Nat}
    (hlt : ∀ i, start ≤ i → i < start + count → spec.values.getD i 0 < valueRows.len)
    (hinj : ∀ i j, start ≤ i → i < j → j < start + count →
      spec.values.getD i 0 ≠ spec.values.getD j 0) (v i : Nat) :
    ((List.range' start count).foldl (mark · spec) valueRows).get 0 v = i + 1 ↔
      start ≤ i ∧ i < start + count ∧ spec.values.getD i 0 = v := by
  induction count
  case zero =>
    simp [h v]
    omega
  case succ count hi =>
    have hi := hi (fun i h₁ h₂ => hlt i h₁ (by omega)) (fun i j h₁ h₂ h₃ => hinj i j h₁ h₂ (by omega))
    rw [List.range'_1_concat, List.foldl_append, List.foldl_cons, List.foldl_nil, mark,
      Slice.get_set (by simpa using hlt (start + count) (by omega) (by omega))]
    split
    case isTrue hv =>
      subst hv
      constructor
      · intro he
        obtain rfl : i = start + count := by omega
        exact ⟨by omega, by omega, rfl⟩
      · rintro ⟨h₁, h₂, h₃⟩
        by_contra hn
        exact hinj i (start + count) h₁ (by omega) (by omega) h₃
    case isFalse hv =>
      rw [hi]
      constructor
      · rintro ⟨h₁, h₂, h₃⟩
        exact ⟨h₁, by omega, h₃⟩
      · rintro ⟨h₁, h₂, h₃⟩
        refine ⟨h₁, ?_, h₃⟩
        by_contra hn
        obtain rfl : i = start + count := by omega
        exact hv h₃.symm

theorem get_foldl_unmark {vs : List Nat} (hlt : ∀ v ∈ vs, v < valueRows.len) (v : Nat) :
    (vs.foldl unmark valueRows).get 0 v = if v ∈ vs then 0 else valueRows.get 0 v := by
  induction vs generalizing valueRows
  case nil => simp
  case cons w vs hi =>
    rw [List.foldl_cons, hi fun v hv => by simpa [unmark] using hlt v (List.mem_cons_of_mem _ hv),
      unmark, Slice.get_set (hlt w List.mem_cons_self)]
    by_cases hv : v = w <;> simp [hv]

variable {values : List Nat} {masks : List Word}

@[simp]
theorem length_scanRow (words row : Nat) :
    (scanRow valueRows words values masks row).length = masks.length := by
  unfold scanRow
  simp only
  split <;> (try split) <;> simp

theorem maskBit_modify {count row i j r : Nat} (hlen : masks.length = count * wordCount rows)
    (hrow : row < rows) (hw' : r / 64 < wordCount rows) (hj : j < count) :
    maskBit (masks.modify (j * wordCount rows + row / 64) (· ||| rowMask row)) (wordCount rows) i r =
      (maskBit masks (wordCount rows) i r || decide (row = r ∧ j = i)) := by
  have hw := div_lt_wordCount hrow
  have hs := Region.stride_le hj (wordCount rows)
  simp only [maskBit, List.getD_eq_getElem?_getD, List.getElem?_modify]
  by_cases hc : j = i ∧ row / 64 = r / 64
  case pos =>
    obtain ⟨rfl, hrr⟩ := hc
    have hb : j * wordCount rows + r / 64 < masks.length := by omega
    have hd : (r % 64 = row % 64) ↔ (row = r ∧ j = j) := by omega
    simp only [hrr, if_true, List.getElem?_eq_getElem hb, Option.map_some, Option.getD_some,
      BitVec.getLsbD_or, getLsbD_rowMask, hd, Option.map_eq_map]
  case neg =>
    have hne : ¬ j * wordCount rows + row / 64 = i * wordCount rows + r / 64 := by
      intro he
      apply hc
      rcases Nat.lt_trichotomy i j with hlt | rfl | hlt
      · have := Region.stride_le hlt (wordCount rows)
        omega
      · exact ⟨rfl, by omega⟩
      · have := Region.stride_le hlt (wordCount rows)
        omega
    have hf : ¬ (row = r ∧ j = i) := fun ⟨h₁, h₂⟩ => hc ⟨h₂, h₁ ▸ rfl⟩
    simp only [if_neg hne, hf, decide_false, Bool.or_false, Option.map_eq_map, Option.map_id']

theorem maskBit_scanRow {count row i r : Nat} (hlen : masks.length = count * wordCount rows)
    (hrow : row < rows) (hr : r / 64 < wordCount rows)
    (hv : ∀ v, v < valueRows.len → valueRows.get 0 v ≤ count) :
    maskBit (scanRow valueRows (wordCount rows) values masks row) (wordCount rows) i r =
      (maskBit masks (wordCount rows) i r || decide (row = r ∧ values.getD row 0 < valueRows.len ∧
        valueRows.get 0 (values.getD row 0) = i + 1)) := by
  unfold scanRow
  generalize values.getD row 0 = v
  simp only
  split
  case isTrue hle => simp [Nat.not_lt_of_le hle]
  case isFalse hlt =>
    split
    case isTrue h0 => simp [h0]
    case isFalse h0 =>
      have hle := hv v (Nat.lt_of_not_le hlt)
      obtain ⟨j, hj⟩ := Nat.exists_eq_succ_of_ne_zero h0
      rw [hj, Nat.succ_sub_one, maskBit_modify hlen hrow hr (by omega)]
      simp [Nat.lt_of_not_le hlt]

theorem maskBit_foldl_scanRow (values : List Nat) {count : Nat}
    (hlen : masks.length = count * wordCount rows)
    (hv : ∀ v, v < valueRows.len → valueRows.get 0 v ≤ count) {n : Nat} (hn : n ≤ rows) :
    let masks' := (List.range n).foldl (scanRow valueRows (wordCount rows) values) masks
    masks'.length = masks.length ∧ ∀ i r, r / 64 < wordCount rows →
      maskBit masks' (wordCount rows) i r =
        (maskBit masks (wordCount rows) i r || decide (r < n ∧ values.getD r 0 < valueRows.len ∧
          valueRows.get 0 (values.getD r 0) = i + 1)) := by
  induction n
  case zero => simp
  case succ n hi =>
    have ⟨hl, hb⟩ := hi (by omega)
    simp only [List.range_succ, List.foldl_append, List.foldl_cons, List.foldl_nil]
    refine ⟨by rw [length_scanRow, hl], fun i r hr => ?_⟩
    rw [maskBit_scanRow (hl.trans hlen) (by omega) hr hv, hb i r hr, Bool.or_assoc, ← Bool.decide_or]
    congr 2
    rw [eq_iff_iff]
    constructor
    · rintro (⟨h, hc⟩ | ⟨rfl, hc⟩)
      · exact ⟨by omega, hc⟩
      · exact ⟨by omega, hc⟩
    · rintro ⟨h, hc⟩
      rcases Nat.lt_succ_iff_lt_or_eq.mp h with h | rfl
      · exact .inl ⟨h, hc⟩
      · exact .inr ⟨rfl, hc⟩

variable {columns : SymbolColumns} {stride symbolColumns programSymbolCount : Nat}

def valueAt (spec : FactSpec) (columns : SymbolColumns) (stride f r : Nat) : Nat :=
  columns.values.getD (spec.columns.getD f 0 * stride + columns.rowOffset + r) 0

theorem buildField_spec (columns : SymbolColumns) (stride : Nat) {s : Slice Nat × List Word}
    {f : Nat} (shaped : spec.Shaped symbolColumns programSymbolCount) (hf : f < spec.fieldIDs.length)
    (clean : Clean s.1) (len : s.1.len = programSymbolCount + 1)
    (hlen : s.2.length = spec.values.length * wordCount columns.rows) :
    let s' := buildField spec columns stride s f
    Clean s'.1 ∧ s'.1.len = s.1.len ∧ s'.2.length = s.2.length ∧
    ∀ i r, r / 64 < wordCount columns.rows → maskBit s'.2 (wordCount columns.rows) i r =
      (maskBit s.2 (wordCount columns.rows) i r || decide (r < columns.rows ∧ spec.InRange f i ∧
        spec.values.getD i 0 = valueAt spec columns stride f r)) := by
  have field := shaped.field f hf
  have hlt : ∀ i, spec.InRange f i → spec.values.getD i 0 < s.1.len := fun i h => by
    have := field.value_le _ (field.getD_mem_fieldValues h)
    omega
  have hmark : ∀ v i, _ ↔ spec.InRange f i ∧ spec.values.getD i 0 = v := fun v i =>
    (get_foldl_mark clean (fun i h₁ h₂ => hlt i ⟨h₁, h₂⟩) (fun i j h₁ h₂ h₃ =>
      field.getD_ne ⟨h₁, Nat.lt_trans h₂ h₃⟩ ⟨by omega, h₃⟩ h₂) v i).trans and_assoc.symm
  have hle : ∀ v, ((List.range' (spec.valueStarts.getD f 0) (spec.valueCounts.getD f 0)).foldl
      (mark · spec) s.1).get 0 v ≤ spec.values.length := by
    intro v
    by_contra hn
    obtain ⟨i, hi⟩ := Nat.exists_eq_succ_of_ne_zero (Nat.ne_of_gt (Nat.lt_of_le_of_lt
      (Nat.zero_le _) (Nat.lt_of_not_le hn)))
    have := ((hmark v i).mp hi).1.2
    have := field.range_le
    omega
  have ⟨hl, hb⟩ := maskBit_foldl_scanRow (Region.read columns.values
    (spec.columns.getD f 0 * stride + columns.rowOffset) columns.rows) hlen (fun v _ => hle v)
    (Nat.le_refl columns.rows)
  refine ⟨fun v => ?_, by simp [buildField], hl, fun i r hr => ?_⟩
  case refine_1 =>
    rw [buildField, get_foldl_unmark fun v hv => by
      have := field.value_le v hv
      simp only [len_foldl_mark]
      omega]
    split
    case isTrue => rfl
    case isFalse hv =>
      by_contra hn
      obtain ⟨i, hi⟩ := Nat.exists_eq_succ_of_ne_zero hn
      have ⟨hi, he⟩ := (hmark v i).mp hi
      exact hv (he ▸ field.getD_mem_fieldValues hi)
  case refine_2 =>
    refine (hb i r hr).trans (congrArg _ (decide_eq_decide.mpr (and_congr_right fun hr => ?_)))
    have hval : (Region.read columns.values (spec.columns.getD f 0 * stride + columns.rowOffset)
        columns.rows).getD r 0 = valueAt spec columns stride f r := by
      simp only [valueAt, List.getD_eq_getElem?_getD, Region.getElem?_read, hr, if_true]
    rw [hval, hmark, len_foldl_mark]
    exact ⟨fun h => h.2, fun h => ⟨h.2 ▸ hlt i h.1, h⟩⟩

theorem foldl_buildField (columns : SymbolColumns) (stride : Nat)
    (shaped : spec.Shaped symbolColumns programSymbolCount) (clean : Clean valueRows)
    (len : valueRows.len = programSymbolCount + 1) {n : Nat} (hn : n ≤ spec.fieldIDs.length) :
    let s := (List.range n).foldl (buildField spec columns stride)
      (valueRows, List.replicate (spec.values.length * wordCount columns.rows) 0#64)
    Clean s.1 ∧ s.1.len = valueRows.len ∧
    s.2.length = spec.values.length * wordCount columns.rows ∧
    ∀ f < spec.fieldIDs.length, ∀ i, spec.InRange f i → ∀ r, r / 64 < wordCount columns.rows →
      maskBit s.2 (wordCount columns.rows) i r = decide (f < n ∧ r < columns.rows ∧
        spec.values.getD i 0 = valueAt spec columns stride f r) := by
  induction n
  case zero =>
    refine ⟨clean, rfl, by simp, fun f _ i _ r _ => ?_⟩
    have := bit_replicate_zero (spec.values.length * wordCount columns.rows)
      ((i * wordCount columns.rows + r / 64) * 64 + r % 64)
    rw [bit, show ((i * wordCount columns.rows + r / 64) * 64 + r % 64) / 64 =
      i * wordCount columns.rows + r / 64 by omega, show ((i * wordCount columns.rows + r / 64) * 64 +
      r % 64) % 64 = r % 64 by omega] at this
    simp only [Nat.not_lt_zero, false_and, decide_false]
    exact this
  case succ n hi =>
    obtain ⟨hc, hl, hm, hb⟩ := hi (by omega)
    obtain ⟨hc', hl', hm', hb'⟩ := buildField_spec columns stride shaped hn hc (hl.trans len) hm
    simp only [List.range_succ, List.foldl_append, List.foldl_cons, List.foldl_nil]
    refine ⟨hc', hl'.trans hl, hm'.trans hm, fun f hf i hfi r hr => ?_⟩
    rw [hb' i r hr, hb f hf i hfi r hr, ← Bool.decide_or]
    refine decide_eq_decide.mpr ?_
    constructor
    · rintro (⟨h, he⟩ | ⟨hr, hni, he⟩)
      · exact ⟨by omega, he⟩
      · exact ⟨shaped.inRange_unique hf hn hfi hni ▸ Nat.lt_succ_self n, hr,
          shaped.inRange_unique hf hn hfi hni ▸ he⟩
    · rintro ⟨h, hr, he⟩
      rcases Nat.lt_succ_iff_lt_or_eq.mp h with h | rfl
      · exact .inl ⟨h, hr, he⟩
      · exact .inr ⟨hr, hfi, he⟩

structure Built (spec : FactSpec) (addr : Nat) (columns : SymbolColumns) (b : FactBuilder)
    (index : FactIndex) : Prop where
  clean : Clean b.valueRows
  bound : index.spec = some addr
  words : index.wordCount = wordCount columns.rows
  shaped : spec.Shaped columns.count columns.programSymbolCount
  length : index.valueMasks.length = spec.values.length * wordCount columns.rows
  mask : ∀ f < spec.fieldIDs.length, ∀ i, spec.InRange f i →
    ∀ r, r / 64 < wordCount columns.rows → maskBit index.valueMasks (wordCount columns.rows) i r =
      decide (r < columns.rows ∧ spec.values.getD i 0 = valueAt spec columns
        (if columns.rowStride = 0 then columns.rows else columns.rowStride) f r)

theorem build_eq_ok {b b' : FactBuilder} {heap : Heap} {addr : Nat} {index : FactIndex}
    (clean : Clean b.valueRows) (h : b.build heap addr columns = .ok (b', index)) :
    Built (heap addr).factIndexSpec addr columns b' index := by
  simp only [build] at h
  generalize hst : (if columns.rowStride = 0 then columns.rows else columns.rowStride) = stride at h
  have ⟨_, h⟩ := ite_eq_of_ne h nofun
  have ⟨_, h⟩ := ite_eq_of_ne h nofun
  split at h
  case h_1 => cases h
  have ⟨hs, h⟩ := ite_eq_of_ne h nofun
  simp only [Bool.not_eq_true', not_or, Bool.not_eq_false] at hs
  split at h
  case h_1 => cases h
  case h_2 maskLen hm =>
    have ⟨_, h⟩ := ite_eq_of_ne h nofun
    simp only [Except.ok.injEq, Prod.mk.injEq] at h
    obtain ⟨rfl, rfl⟩ := h
    have shaped := FactSpec.shaped_of_validShape hs.2
    have hm : maskLen = (heap addr).factIndexSpec.values.length * wordCount columns.rows := by
      simp only [factMaskLen] at hm
      split at hm <;> simp_all
    subst hm
    have ⟨hc, _, hl, hb⟩ := foldl_buildField columns stride shaped
      (clean_resize clean (columns.programSymbolCount + 1)) (Slice.len_resize ..) (Nat.le_refl _)
    rw [shaped.columns]
    refine ⟨hc, rfl, rfl, shaped, hl, fun f hf i hi r hr => ?_⟩
    rw [hb f hf i hi r hr, hst]
    simp only [hf, true_and]

theorem exists_build (b : FactBuilder) {heap : Heap} {addr : Nat}
    (hs : (heap addr).factIndexSpec.validShape columns.count columns.programSymbolCount)
    (hc : columns.Strided) : ∃ b' index, b.build heap addr columns = .ok (b', index) := by
  have hlen := hc.length
  have hvalues : (heap addr).factIndexSpec.values.length ≤ maxUint32 := by
    simp only [FactSpec.validShape, Bool.and_eq_true, decide_eq_true_eq] at hs
    exact hs.1.2
  have hcol : factColumnLen columns.stride columns.count = some (columns.stride * columns.count) := by
    rw [factColumnLen, if_neg (Nat.not_lt_of_le (hlen ▸ hc.values_le))]
  have hmask : factMaskLen columns.rows (heap addr).factIndexSpec.values.length =
      some ((heap addr).factIndexSpec.values.length * wordCount columns.rows) := by
    have := Nat.mul_le_mul hvalues (wordCount_le hc.rows_le)
    rw [factMaskLen, if_neg (Nat.not_lt_of_le (Nat.le_trans this (by decide)))]
  have hcount : ¬ maxInt / 4 < columns.programSymbolCount + 1 := by
    have := hc.symbols_le
    simp only [maxInt, maxUint32] at *
    omega
  have hrange := Nat.not_lt_of_le hc.range
  unfold SymbolColumns.stride at hcol hlen hrange
  simp only [build, hcol, hmask, hs]
  rw [if_neg (fun h => h.2 (hc.offset h.1)), if_neg hrange, if_neg (by simp [hlen]), if_neg hcount]
  exact ⟨_, _, rfl⟩

namespace Built

variable {heap : Heap} {addr : Nat} {b : FactBuilder} {index : FactIndex} {f field v : Nat}
  (built : Built (heap addr).factIndexSpec addr columns b index)
  (hf : (heap addr).factIndexSpec.fieldIDs[f]? = some field)
include built hf

theorem lookup_eq : index.lookup heap field v =
    some ((BinarySearch.search ((heap addr).factIndexSpec.fieldValues f) v).map fun relative =>
      Region.read index.valueMasks
        (((heap addr).factIndexSpec.valueStarts.getD f 0 + relative) * wordCount columns.rows)
        (wordCount columns.rows)) := by
  have hs := (BinarySearch.search_eq_some_iff built.shaped.ids).mpr hf
  simp only [FactIndex.lookup, built.bound, built.words, Option.bind_eq_bind, Option.bind_some, hs]
  rfl

theorem lookup_of_mem (hv : v ∈ (heap addr).factIndexSpec.fieldValues f) :
    ∃ mask, index.lookup heap field v = some (some mask) ∧ mask.length = wordCount columns.rows ∧
      ∀ r, bit mask r = true ↔ r < columns.rows ∧ valueAt (heap addr).factIndexSpec columns
        (if columns.rowStride = 0 then columns.rows else columns.rowStride) f r = v := by
  have hlt := (List.getElem?_eq_some_iff.mp hf).1
  have shaped := built.shaped.field f hlt
  have ⟨i, hi⟩ := Option.isSome_iff_exists.mp
    ((BinarySearch.search_isSome_iff shaped.ascending).mpr hv)
  have ⟨hr, he⟩ := FactSpec.inRange_of_getElem? (BinarySearch.search_sound hi)
  have hlen : (Region.read index.valueMasks
      (((heap addr).factIndexSpec.valueStarts.getD f 0 + i) * wordCount columns.rows)
      (wordCount columns.rows)).length = wordCount columns.rows := by
    have := Region.stride_le (Nat.lt_of_lt_of_le hr.2 shaped.range_le) (wordCount columns.rows)
    exact Region.length_read (built.length ▸ this)
  refine ⟨_, by rw [built.lookup_eq hf, hi, Option.map_some], hlen, fun r => ?_⟩
  by_cases hw : r / 64 < wordCount columns.rows
  case pos => rw [bit_read_mask hw, built.mask f hlt _ hr r hw, decide_eq_true_eq, he, @eq_comm _ v]
  case neg =>
    rw [bit_of_length_le (by omega)]
    have : ¬ r < columns.rows := fun h => hw (div_lt_wordCount h)
    simp [this]

theorem lookup_of_not_mem (hv : v ∉ (heap addr).factIndexSpec.fieldValues f) :
    index.lookup heap field v = some none := by
  have shaped := built.shaped.field f (List.getElem?_eq_some_iff.mp hf).1
  rw [built.lookup_eq hf, (BinarySearch.search_eq_none_iff shaped.ascending).mpr hv, Option.map_none]

end Built
end FactBuilder

-- An index answers for fields of symbols only, and has the right mask for each value that the
-- specification lists.
def FactIndex.Sound (index : FactIndex) (heap : Heap) (addr : Nat) (batch : Batch) : Prop :=
  ∀ field, (index.lookup heap field 0).isSome →
    ∃ f column, BinarySearch.search (heap addr).factIndexSpec.fieldIDs field = some f ∧
      (heap addr).fieldIndex.lookup field = some (.symbol, column) ∧
      ∀ v ∈ (heap addr).factIndexSpec.fieldValues f, ∃ mask,
        index.lookup heap field v = some (some mask) ∧
        mask.length = Bitplane.wordCount batch.rows ∧
        ∀ r < batch.rows, bit mask r = ((batch.row r).symbol column == v)

theorem FactIndex.sound_reset (index : FactIndex) (heap : Heap) (addr : Nat) (batch : Batch) :
    index.reset.Sound heap addr batch := by
  intro field h
  cases h

theorem FactBuilder.Built.sound {heap : Heap} {addr : Nat} {batch : Batch} {b : FactBuilder}
    {index : FactIndex}
    (valid : (heap addr).factIndexSpec.valid (heap addr).fieldIndex (heap addr).programSymbolCount)
    (built : Built (heap addr).factIndexSpec addr (Executor.symbolColumns (heap addr) batch) b
      index) : index.Sound heap addr batch := by
  intro field hs
  cases hf : BinarySearch.search (heap addr).factIndexSpec.fieldIDs field
  case none =>
    simp only [FactIndex.lookup, built.bound, Option.bind_eq_bind, Option.bind_some, hf,
      Option.bind_none] at hs
    cases hs
  case some f =>
    have hget := BinarySearch.search_sound hf
    have field_eq : (heap addr).factIndexSpec.fieldIDs.getD f 0 = field := by
      rw [List.getD_eq_getElem?_getD, hget, Option.getD_some]
    simp only [FactSpec.valid, Bool.and_eq_true, List.all_eq_true, List.mem_range, beq_iff_eq]
      at valid
    refine ⟨f, _, rfl, field_eq ▸ valid.2 f (BinarySearch.lt_length_of_search hf), fun v hv => ?_⟩
    have ⟨mask, hmask, hlen, hbit⟩ := built.lookup_of_mem hget hv
    refine ⟨mask, hmask, hlen, fun r hr => ?_⟩
    have hs : batch.sourceRows ≠ 0 := by
      unfold Batch.sourceRows
      split <;> omega
    rw [Bool.eq_iff_iff, hbit r, beq_iff_eq]
    simp only [FactBuilder.valueAt, Executor.symbolColumns, hs, if_false, hr, true_and, Batch.row]

end NornRune
