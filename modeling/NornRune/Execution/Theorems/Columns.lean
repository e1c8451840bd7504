import NornRune.Execution.Evaluate

open Bitplane Checked

namespace NornRune.Batch

variable {α : Type} {b : Batch} {p : Program}

structure Fits (p : Program) (b : Batch) : Prop where
  aligned : b.rowBase % 64 = 0
  range : b.rowBase + b.rows ≤ b.sourceRows
  presence : b.presenceMasks.length = p.fieldIndex.kinds.length * b.sourceWords
  symbols : b.symbolValues.length = p.fieldIndex.counts .symbol * b.sourceRows
  integers : b.integerValues.length = p.fieldIndex.counts .integer * b.sourceRows
  timestamps : b.timestampValues.length = p.fieldIndex.counts .timestamp * b.sourceRows
  booleans : b.booleanValues.length = p.fieldIndex.counts .boolean * b.sourceWords

theorem fits_of_valid (h : validExecutionBatchColumns p b) : b.Fits p := by
  simp only [validExecutionBatchColumns, validPhysicalRange, validExecutionColumnLength,
    Bool.and_eq_true, beq_iff_eq, decide_eq_true_eq] at h
  exact {
    aligned := h.1.1.1.1.1.1.1
    range := h.1.1.1.1.1.2
    presence := h.1.1.1.1.2.2
    symbols := h.1.1.1.2.2
    integers := h.1.1.2.2
    timestamps := h.1.2.2
    booleans := h.2.2
  }

variable {values : List α} {n column : Nat}

theorem rowColumn_eq_ok (h : b.Fits p) (hl : values.length = n * b.sourceRows) (hc : column < n) :
    b.rowColumn values column = .ok (b.columnRows values column) := by
  have := Region.stride_le hc b.sourceRows
  have := h.range
  rw [rowColumn, if_neg (by omega)]

theorem length_columnRows (h : b.Fits p) (hl : values.length = n * b.sourceRows) (hc : column < n) :
    (b.columnRows values column).length = b.rows := by
  have := Region.stride_le hc b.sourceRows
  have := h.range
  exact Region.length_read (by omega)

theorem getD_columnRows {r : Nat} {x : α} (hr : r < b.rows) :
    (b.columnRows values column).getD r x =
      values.getD (column * b.sourceRows + b.rowBase + r) x := by
  simp [columnRows, List.getD_eq_getElem?_getD, Region.getElem?_read, hr]

theorem wordBase_add_le (h : b.Fits p) : b.wordBase + wordCount b.rows ≤ b.sourceWords := by
  have := h.aligned
  have := h.range
  simp only [wordBase, sourceWords, wordCount_eq, Nat.shiftRight_eq_div_pow]
  omega

theorem wordColumn_eq_ok {values : List Word} (h : b.Fits p)
    (hl : values.length = n * b.sourceWords) (hc : column < n) :
    b.wordColumn values column = .ok (b.columnWords values column) := by
  have := Region.stride_le hc b.sourceWords
  have := b.wordBase_add_le h
  rw [wordColumn, if_neg (by omega)]

theorem length_columnWords {values : List Word} (h : b.Fits p)
    (hl : values.length = n * b.sourceWords) (hc : column < n) :
    (b.columnWords values column).length = wordCount b.rows := by
  have := Region.stride_le hc b.sourceWords
  have := b.wordBase_add_le h
  exact Region.length_read (by omega)

theorem bit_columnWords {values : List Word} {column r : Nat} (hr : r < b.rows) :
    bit (b.columnWords values column) r =
      (values.getD (column * b.sourceWords + b.wordBase + r / 64) 0#64).getLsbD (r % 64) := by
  simp [columnWords, bit, List.getD_eq_getElem?_getD, Region.getElem?_read, div_lt_wordCount hr]

end NornRune.Batch
