import Mathlib.Data.List.GetD
import Mathlib.Data.Nat.Init

-- Rows of different lengths that are stored one after the other, with the offset at which each row
-- starts and the last one ends.
namespace Ragged

variable {α : Type}

theorem getElem?_of_prefix {xs ys : List α} (h : xs <+: ys) {i : Nat} {x : α} (hx : xs[i]? = some x) :
    ys[i]? = some x := by
  obtain ⟨zs, rfl⟩ := h
  rw [List.getElem?_append_left (List.getElem?_eq_some_iff.mp hx).1, hx]

theorem getD_concat_length {xs : List α} {x d : α} {n : Nat} (h : xs.length = n) :
    (xs ++ [x]).getD n d = x := by
  rw [List.getD_append_right _ _ _ _ (Nat.le_of_eq h), h, Nat.sub_self, List.getD_cons_zero]

theorem getD_set {xs : List α} {i j : Nat} {x d : α} (h : i < xs.length) :
    (xs.set i x).getD j d = if j = i then x else xs.getD j d := by
  split
  case isTrue he =>
    subst he
    simp [h]
  case isFalse he => rw [List.getD_eq_getElem?_getD, List.getElem?_set_ne (Ne.symm he),
    ← List.getD_eq_getElem?_getD]

def offsets (rows : List (List α)) : List Nat :=
  (List.range (rows.length + 1)).map fun i => (rows.take i).flatten.length

def starts (rows : List (List α)) : List Nat :=
  (List.range rows.length).map fun i => (rows.take i).flatten.length

@[simp]
theorem length_offsets (rows : List (List α)) : (offsets rows).length = rows.length + 1 := by
  simp [offsets]

@[simp]
theorem offsets_nil : offsets ([] : List (List α)) = [0] :=
  rfl

variable {rows : List (List α)} {i : Nat}

theorem getElem?_offsets (h : i ≤ rows.length) :
    (offsets rows)[i]? = some (rows.take i).flatten.length := by
  simp [offsets, Nat.lt_succ_of_le h]

theorem offsets_concat (rows : List (List α)) (row : List α) :
    offsets (rows ++ [row]) = offsets rows ++ [(rows.flatten ++ row).length] := by
  rw [offsets, List.length_append, List.length_singleton, List.range_succ, List.map_append]
  congr 1
  · refine List.map_congr_left fun i hi => ?_
    rw [List.mem_range] at hi
    rw [List.take_append_of_le_length (by omega)]
  · rw [List.map_singleton, List.take_of_length_le (by simp), List.flatten_append,
      List.flatten_singleton]

theorem offsets_append (rows rows' : List (List α)) :
    offsets (rows ++ rows') =
      (offsets rows).take rows.length ++ (offsets rows').map (rows.flatten.length + ·) := by
  apply List.ext_getElem?
  intro i
  rcases Nat.lt_or_ge i rows.length with hi | hi
  case inl =>
    rw [List.getElem?_append_left (by simp; omega), List.getElem?_take_of_lt hi,
      getElem?_offsets (by simp; omega), getElem?_offsets (by omega),
      List.take_append_of_le_length (by omega)]
  case inr =>
    obtain ⟨j, rfl⟩ := Nat.exists_eq_add_of_le hi
    rw [List.getElem?_append_right (by simp), List.getElem?_map, List.length_take, length_offsets,
      Nat.min_eq_left (by omega), Nat.add_sub_cancel_left]
    rcases Nat.lt_or_ge rows'.length j with hj | hj
    case inl => rw [List.getElem?_eq_none (by simp; omega), List.getElem?_eq_none (by simp; omega),
      Option.map_none]
    case inr =>
      rw [getElem?_offsets hj, getElem?_offsets (by simp; omega), List.take_length_add_append,
        List.flatten_append, List.length_append, Option.map_some]

theorem length_flatten_take_le (rows : List (List α)) (i : Nat) :
    (rows.take i).flatten.length ≤ rows.flatten.length := by
  have := congrArg (fun r => r.flatten.length) (List.take_append_drop i rows)
  simp only [List.flatten_append, List.length_append] at this
  omega

theorem le_of_mem_offsets {n : Nat} (h : n ∈ offsets rows) :
    n ≤ rows.flatten.length := by
  simp only [offsets, List.mem_map, List.mem_range] at h
  obtain ⟨i, _, rfl⟩ := h
  exact length_flatten_take_le rows i

theorem getElem?_offsets_le (h : i < rows.length) :
    (offsets rows).getD i 0 ≤ (offsets rows).getD (i + 1) 0 := by
  rw [List.getD_eq_getElem?_getD, List.getD_eq_getElem?_getD, getElem?_offsets (by omega),
    getElem?_offsets h, Option.getD_some, Option.getD_some]
  have := length_flatten_take_le (rows.take (i + 1)) i
  rwa [List.take_take, Nat.min_eq_left (Nat.le_succ i)] at this

@[simp]
theorem length_starts (rows : List (List α)) : (starts rows).length = rows.length := by
  simp [starts]

theorem getElem?_starts (h : i < rows.length) :
    (starts rows)[i]? = some (rows.take i).flatten.length := by
  simp [starts, h]

theorem starts_concat (rows : List (List α)) (row : List α) :
    starts (rows ++ [row]) = starts rows ++ [rows.flatten.length] := by
  rw [starts, List.length_append, List.length_singleton, List.range_succ, List.map_append]
  congr 1
  · refine List.map_congr_left fun i hi => ?_
    rw [List.mem_range] at hi
    rw [List.take_append_of_le_length (by omega)]
  · rw [List.map_singleton, List.take_left]

theorem take_drop_flatten {row : List α} (h : rows[i]? = some row) :
    ((rows.flatten.drop (rows.take i).flatten.length).take row.length) = row := by
  have ⟨hlt, hrow⟩ := List.getElem?_eq_some_iff.mp h
  have hsplit : rows.flatten = (rows.take i).flatten ++ (row ++ (rows.drop (i + 1)).flatten) := by
    rw [← List.flatten_cons, ← hrow, ← List.drop_eq_getElem_cons hlt, ← List.flatten_append,
      List.take_append_drop]
  rw [hsplit, List.drop_left, List.take_left]

theorem length_flatten_take_succ {row : List α} (h : rows[i]? = some row) :
    (rows.take (i + 1)).flatten.length = (rows.take i).flatten.length + row.length := by
  have ⟨hlt, hrow⟩ := List.getElem?_eq_some_iff.mp h
  rw [List.take_succ_eq_append_getElem hlt, hrow, List.flatten_append, List.flatten_singleton,
    List.length_append]

theorem starts_add_length (h : i < rows.length) :
    (starts rows).getD i 0 + (rows.map List.length).getD i 0 = (rows.take (i + 1)).flatten.length := by
  rw [List.getD_eq_getElem?_getD, getElem?_starts h, Option.getD_some,
    length_flatten_take_succ (List.getElem?_eq_getElem h)]
  simp [h]

theorem le_length_flatten {row : List α} (h : rows[i]? = some row) :
    (rows.take i).flatten.length + row.length ≤ rows.flatten.length :=
  length_flatten_take_succ h ▸ length_flatten_take_le rows (i + 1)

section Equal

-- Rows that all have one length.
variable {β : Type} {xs : List β} {f : β → List α} {n : Nat} (h : ∀ x ∈ xs, (f x).length = n)
include h

theorem length_flatMap_of_length : (xs.flatMap f).length = xs.length * n := by
  rw [List.length_flatMap, List.map_congr_left h, List.map_const', List.sum_replicate_nat]

theorem getD_flatMap_of_length {j : Nat} (hi : i < xs.length) (hj : j < n) (d : α) :
    (xs.flatMap f).getD (i * n + j) d = (f xs[i]).getD j d := by
  induction xs generalizing i
  case nil => cases hi
  case cons x xs ih =>
    have ⟨hx, hxs⟩ := List.forall_mem_cons.mp h
    rw [List.flatMap_cons]
    cases i
    case zero =>
      rw [Nat.zero_mul, Nat.zero_add, List.getD_append _ _ _ _ (hx ▸ hj)]
      rfl
    case succ i =>
      rw [List.getD_append_right _ _ _ _ (by rw [hx, Nat.succ_mul]; omega), hx, Nat.succ_mul,
        show i * n + n + j - n = i * n + j by omega, ih hxs (Nat.lt_of_succ_lt_succ hi)]
      rfl

end Equal

section Cuts

def slice (cuts : List Nat) (column : List α) (i : Nat) : List α :=
  (column.drop (cuts.getD i 0)).take (cuts.getD (i + 1) 0 - cuts.getD i 0)

def slices (cuts : List Nat) (column : List α) (rows : Nat) : List (List α) :=
  (List.range rows).map (slice cuts column)

-- Offsets that cut a column of the given length into rows and leave nothing out.
structure Cuts (cuts : List Nat) (length rows : Nat) : Prop where
  size : cuts.length = rows + 1
  first : cuts.getD 0 0 = 0
  mono : ∀ i < rows, cuts.getD i 0 ≤ cuts.getD (i + 1) 0
  last : cuts.getD rows 0 = length

variable {cuts : List Nat} {column : List α} {rows : Nat}

@[simp]
theorem length_slices (cuts : List Nat) (column : List α) (rows : Nat) :
    (slices cuts column rows).length = rows := by
  simp [slices]

theorem getElem?_slices {i : Nat} (h : i < rows) :
    (slices cuts column rows)[i]? = some (slice cuts column i) := by
  simp [slices, h]

namespace Cuts

variable (h : Cuts cuts column.length rows)
include h

theorem le_last {i : Nat} (hi : i ≤ rows) :
    cuts.getD i 0 ≤ column.length := by
  induction hi using Nat.decreasingInduction
  case self => exact Nat.le_of_eq h.last
  case of_succ i hi ih => exact Nat.le_trans (h.mono i hi) ih

theorem flatten_take_slices {i : Nat} (hi : i ≤ rows) :
    ((slices cuts column rows).take i).flatten = column.take (cuts.getD i 0) := by
  induction i
  case zero => rw [h.first, List.take_zero, List.take_zero, List.flatten_nil]
  case succ i ih =>
    have hle := h.mono i hi
    rw [List.take_add_one, getElem?_slices hi, Option.toList_some, List.flatten_append,
      ih (Nat.le_of_succ_le hi), List.flatten_singleton, slice, ← List.take_add,
      Nat.add_sub_cancel' hle]

theorem flatten_slices :
    (slices cuts column rows).flatten = column := by
  have := h.flatten_take_slices (Nat.le_refl rows)
  rwa [h.last, List.take_length, List.take_of_length_le (by simp)] at this

theorem offsets_slices :
    offsets (slices cuts column rows) = cuts := by
  apply List.ext_getElem?
  intro i
  rcases Nat.lt_or_ge rows i with hi | hi
  case inl =>
    rw [List.getElem?_eq_none (by simp; omega), List.getElem?_eq_none (by rw [h.size]; omega)]
  case inr =>
    have hlt : i < cuts.length := by rw [h.size]; omega
    rw [getElem?_offsets (by simpa using hi), h.flatten_take_slices hi, List.length_take,
      Nat.min_eq_left (h.le_last hi), List.getD_eq_getElem _ _ hlt, List.getElem?_eq_getElem hlt]

end Cuts

theorem slice_offsets {rs : List (List α)} {i : Nat} {row : List α} (h : rs[i]? = some row) :
    slice (offsets rs) rs.flatten i = row := by
  have hlt := (List.getElem?_eq_some_iff.mp h).1
  rw [slice, List.getD_eq_getElem?_getD, List.getD_eq_getElem?_getD, getElem?_offsets (by omega),
    getElem?_offsets (by omega), Option.getD_some, Option.getD_some, length_flatten_take_succ h,
    Nat.add_sub_cancel_left]
  exact take_drop_flatten h

theorem slice_map {β : Type} (f : α → β) (cuts : List Nat) (column : List α) (i : Nat) :
    slice cuts (column.map f) i = (slice cuts column i).map f := by
  rw [slice, slice, ← List.map_drop, ← List.map_take]

end Cuts
end Ragged
