import Mathlib.Data.List.Basic
import Mathlib.Algebra.Order.Ring.Nat

-- Flat storage that is read and written in regions, and slices whose length can change without
-- their storage being cleared.
namespace Region

variable {α : Type}

def read (xs : List α) (start len : Nat) : List α :=
  (xs.drop start).take len

def write (xs : List α) (start : Nat) (ys : List α) : List α :=
  xs.mapIdx fun i x => if start ≤ i then ys.getD (i - start) x else x

@[simp]
theorem length_write (xs : List α) (start : Nat) (ys : List α) :
    (write xs start ys).length = xs.length := by
  simp [write]

variable {xs : List α} {start n : Nat}

theorem length_read {len : Nat} (h : start + len ≤ xs.length) :
    (read xs start len).length = len := by
  simp [read]
  omega

theorem getElem?_read (xs : List α) (start len i : Nat) :
    (read xs start len)[i]? = if i < len then xs[start + i]? else none := by
  simp [read, List.getElem?_take, List.getElem?_drop]

theorem getElem?_write (xs ys : List α) (start i : Nat) :
    (write xs start ys)[i]? = xs[i]?.map fun x => if start ≤ i then ys.getD (i - start) x else x := by
  simp [write]

theorem read_write_self {xs ys : List α} {start : Nat} (h : start + ys.length ≤ xs.length) :
    read (write xs start ys) start ys.length = ys := by
  apply List.ext_getElem?
  intro i
  rw [getElem?_read, getElem?_write]
  by_cases hi : i < ys.length
  case pos =>
    have : start + i < xs.length := by omega
    simp [hi, this]
  case neg => simp [hi]

theorem read_write_disjoint {xs ys : List α} {start start' len : Nat}
    (h : start' + len ≤ start ∨ start + ys.length ≤ start') :
    read (write xs start ys) start' len = read xs start' len := by
  apply List.ext_getElem?
  intro i
  simp only [getElem?_read, getElem?_write]
  split
  case isFalse => rfl
  case isTrue hi =>
    cases hx : xs[start' + i]?
    case none => rfl
    case some x =>
      simp only [Option.map_some, Option.some.injEq]
      split
      case isFalse => rfl
      case isTrue hs =>
        have : ys.length ≤ start' + i - start := by omega
        simp [this]

theorem take_write {ys : List α} (h : n ≤ start) :
    (write xs start ys).take n = xs.take n := by
  have := @read_write_disjoint _ xs ys start 0 n (.inl (by omega))
  simpa only [read, List.drop_zero] using this

theorem drop_write {ys : List α} (h : start + ys.length ≤ n) :
    (write xs start ys).drop n = xs.drop n := by
  have := @read_write_disjoint _ xs ys start n (xs.length - n) (.inr h)
  rwa [read, read, List.take_of_length_le (by simp), List.take_of_length_le (by simp)] at this

theorem read_replicate {x : α} {total len : Nat} (h : start + len ≤ total) :
    read (List.replicate total x) start len = List.replicate len x := by
  rw [read, List.drop_replicate, List.take_replicate, Nat.min_eq_left (by omega)]

theorem take_read_drop (xs : List α) (start len : Nat) :
    xs.take start ++ read xs start len ++ xs.drop (start + len) = xs := by
  rw [read, List.append_assoc, ← List.drop_drop, List.take_append_drop, List.take_append_drop]

theorem write_append {xs ys zs : List α} (h : ys.length ≤ zs.length) :
    write (xs ++ zs) xs.length ys = xs ++ (ys ++ zs.drop ys.length) := by
  apply List.ext_getElem?
  intro i
  rw [getElem?_write]
  rcases Nat.lt_or_ge i xs.length with hi | hi
  case inl =>
    rw [List.getElem?_append_left hi, List.getElem?_append_left hi]
    simp [hi, Nat.not_le_of_lt hi]
  case inr =>
    obtain ⟨j, rfl⟩ := Nat.exists_eq_add_of_le hi
    rw [List.getElem?_append_right hi, List.getElem?_append_right hi, Nat.add_sub_cancel_left]
    rcases Nat.lt_or_ge j ys.length with hj | hj
    case inl =>
      rw [List.getElem?_append_left hj]
      simp [hj, Nat.lt_of_lt_of_le hj h]
    case inr =>
      rw [List.getElem?_append_right hj, List.getElem?_drop, Nat.add_sub_cancel' hj]
      cases zs[j]? <;> simp [hj]

theorem write_set_succ (h : start < xs.length) (y : α) (ys : List α) :
    write (xs.set start y) (start + 1) ys = write xs start (y :: ys) := by
  apply List.ext_getElem?
  intro i
  rw [getElem?_write, getElem?_write]
  rcases Nat.lt_trichotomy i start with hlt | rfl | hgt
  case inl =>
    rw [List.getElem?_set_ne (Nat.ne_of_gt hlt)]
    simp [Nat.not_le_of_lt hlt, Nat.not_le_of_lt (Nat.lt_succ_of_lt hlt)]
  case inr.inl => simp [h]
  case inr.inr =>
    obtain ⟨j, rfl⟩ := Nat.exists_eq_add_of_lt hgt
    rw [List.getElem?_set_ne (Nat.ne_of_lt hgt), show start + j + 1 - start = j + 1 by omega,
      show start + j + 1 - (start + 1) = j by omega]
    simp [Nat.add_assoc]

@[simp]
theorem write_nil (xs : List α) (start : Nat) : write xs start [] = xs := by
  apply List.ext_getElem?
  intro i
  simp [getElem?_write]

theorem stride_disjoint {s t : Nat} (h : s ≠ t) (width : Nat) :
    s * width + width ≤ t * width ∨ t * width + width ≤ s * width := by
  rcases Nat.lt_or_gt_of_ne h with h | h
  · exact .inl (by simpa [Nat.succ_mul] using Nat.mul_le_mul_right width (Nat.succ_le_of_lt h))
  · exact .inr (by simpa [Nat.succ_mul] using Nat.mul_le_mul_right width (Nat.succ_le_of_lt h))

theorem stride_le {s : Nat} (h : s < n) (width : Nat) : s * width + width ≤ n * width := by
  simpa [Nat.succ_mul] using Nat.mul_le_mul_right width (Nat.succ_le_of_lt h)

end Region

-- A slice is a prefix of its backing array. Shrinking and growing it within its capacity keeps the
-- contents of the backing array.
structure Slice (α : Type) where
  backing : List α
  len : Nat
  len_le : len ≤ backing.length

namespace Slice

variable {α : Type}

def empty : Slice α where
  backing := []
  len := 0
  len_le := Nat.le_refl 0

def toList (s : Slice α) : List α :=
  s.backing.take s.len

-- Changes the length and keeps the contents, unless the capacity does not suffice.
def resize (s : Slice α) (zero : α) (n : Nat) : Slice α :=
  if h : s.backing.length < n then
    { backing := List.replicate n zero, len := n, len_le := by simp }
  else
    { backing := s.backing, len := n, len_le := Nat.le_of_not_lt h }

def read (s : Slice α) (start len : Nat) : List α :=
  Region.read s.backing start len

def write (s : Slice α) (start : Nat) (ys : List α) : Slice α where
  backing := Region.write s.backing start ys
  len := s.len
  len_le := by simpa using s.len_le

def get (s : Slice α) (zero : α) (i : Nat) : α :=
  s.backing.getD i zero

def set (s : Slice α) (i : Nat) (x : α) : Slice α where
  backing := s.backing.set i x
  len := s.len
  len_le := by simpa using s.len_le

@[simp]
theorem len_set (s : Slice α) (i : Nat) (x : α) : (s.set i x).len = s.len :=
  rfl

variable {s : Slice α}

theorem get_set {i : Nat} (h : i < s.len) (zero x : α) (j : Nat) :
    (s.set i x).get zero j = if j = i then x else s.get zero j := by
  have hb : i < s.backing.length := Nat.lt_of_lt_of_le h s.len_le
  by_cases hj : j = i
  · subst hj
    simp [get, set, hb]
  · simp [get, set, hj, Ne.symm hj]

@[simp]
theorem len_resize (s : Slice α) (zero : α) (n : Nat) : (s.resize zero n).len = n := by
  unfold resize
  split <;> rfl

@[simp]
theorem len_write (s : Slice α) (start : Nat) (ys : List α) : (s.write start ys).len = s.len :=
  rfl

@[simp]
theorem length_toList (s : Slice α) : s.toList.length = s.len := by
  simp [toList, s.len_le]

theorem length_read {start len : Nat} (h : start + len ≤ s.len) :
    (s.read start len).length = len :=
  Region.length_read (Nat.le_trans h s.len_le)

theorem read_write_self {s : Slice α} {start : Nat} {ys : List α}
    (h : start + ys.length ≤ s.len) : (s.write start ys).read start ys.length = ys :=
  Region.read_write_self (Nat.le_trans h s.len_le)

theorem read_write_disjoint {s : Slice α} {start start' len : Nat} {ys : List α}
    (h : start' + len ≤ start ∨ start + ys.length ≤ start') :
    (s.write start ys).read start' len = s.read start' len :=
  Region.read_write_disjoint h

theorem toList_write {ys : List α} (h : ys.length = s.len) :
    (s.write 0 ys).toList = ys := by
  have := @read_write_self _ s 0 ys (by omega)
  rwa [h, read, Region.read, List.drop_zero] at this

end Slice
