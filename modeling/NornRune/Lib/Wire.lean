import NornRune.Lib.Slice
import Mathlib.Tactic.Ring

-- Words of a fixed number of bytes, least significant byte first, and columns of such words.
namespace Wire

def put : (width value : Nat) → List (BitVec 8)
  | 0, _ => []
  | width + 1, value => BitVec.ofNat 8 value :: put width (value / 256)

def get : List (BitVec 8) → Nat
  | [] => 0
  | b :: bs => b.toNat + 256 * get bs

@[simp]
theorem length_put (width value : Nat) : (put width value).length = width := by
  induction width generalizing value
  case zero => rfl
  case succ width ih => rw [put, List.length_cons, ih]

theorem get_put {width value : Nat} (h : value < 256 ^ width) : get (put width value) = value := by
  induction width generalizing value
  case zero => simp_all [put, get]
  case succ width ih =>
    have hdiv : value / 256 < 256 ^ width := by
      rw [Nat.div_lt_iff_lt_mul (by decide), ← Nat.pow_succ]
      exact h
    rw [put, get, ih hdiv, BitVec.toNat_ofNat]
    omega

theorem get_lt (bs : List (BitVec 8)) : get bs < 256 ^ bs.length := by
  induction bs
  case nil => decide
  case cons b bs ih =>
    have := b.isLt
    rw [get, List.length_cons, Nat.pow_succ]
    omega

def word (buffer : List (BitVec 8)) (offset width : Nat) : Nat :=
  get (Region.read buffer offset width)

theorem word_lt (buffer : List (BitVec 8)) (offset width : Nat) :
    word buffer offset width < 256 ^ width :=
  Nat.lt_of_lt_of_le (get_lt _) (Nat.pow_le_pow_right (by decide) (List.length_take_le ..))

def putWord (buffer : List (BitVec 8)) (offset width value : Nat) : List (BitVec 8) :=
  Region.write buffer offset (put width value)

section Words

variable {buffer data : List (BitVec 8)} {offset offset' width width' value : Nat}

@[simp]
theorem length_putWord : (putWord buffer offset width value).length = buffer.length := by
  rw [putWord, Region.length_write]

theorem word_putWord_self (hb : offset + width ≤ buffer.length) (hv : value < 256 ^ width) :
    word (putWord buffer offset width value) offset width = value := by
  have h := @Region.read_write_self _ buffer (put width value) offset (by rwa [length_put])
  rw [length_put] at h
  rw [word, putWord, h, get_put hv]

variable (h : offset' + width' ≤ offset ∨ offset + width ≤ offset')
include h

theorem read_putWord :
    Region.read (putWord buffer offset width value) offset' width' = Region.read buffer offset' width' :=
  Region.read_write_disjoint (by rwa [length_put])

theorem word_putWord :
    word (putWord buffer offset width value) offset' width' = word buffer offset' width' := by
  rw [word, read_putWord h, word]

end Words

def putAll (width : Nat) (values : List Nat) : List (BitVec 8) :=
  values.flatMap (put width)

def getAll (width count : Nat) (data : List (BitVec 8)) : List Nat :=
  (List.range count).map fun i => word data (i * width) width

@[simp]
theorem length_putAll (width : Nat) (values : List Nat) :
    (putAll width values).length = values.length * width := by
  induction values
  case nil => simp [putAll]
  case cons value values ih =>
    rw [putAll, List.flatMap_cons, List.length_append, length_put, ← putAll, ih, List.length_cons]
    ring

theorem getAll_putAll {width : Nat} {values : List Nat} (h : ∀ value ∈ values, value < 256 ^ width) :
    getAll width values.length (putAll width values) = values := by
  induction values
  case nil => rfl
  case cons value values ih =>
    have hhead : word (putAll width (value :: values)) 0 width = value := by
      rw [word, Region.read, List.drop_zero, putAll, List.flatMap_cons,
        List.take_append_of_le_length (by simp), List.take_of_length_le (by simp), get_put (h value (by simp))]
    have htail : ∀ i, word (putAll width (value :: values)) ((i + 1) * width) width =
        word (putAll width values) (i * width) width := fun i => by
      have : (i + 1) * width = (put width value).length + i * width := by rw [length_put]; ring
      rw [word, word, Region.read, Region.read, this, ← List.drop_drop, putAll, List.flatMap_cons,
        List.drop_left, ← putAll]
    have ih := ih fun value hm => h value (List.mem_cons_of_mem _ hm)
    rw [getAll, List.length_cons, List.range_succ_eq_map, List.map_cons, List.map_map, Nat.zero_mul, hhead]
    refine congrArg _ (Eq.trans ?_ ih)
    exact List.map_congr_left fun i _ => htail i

def putFrom (width : Nat) : (i : Nat) → (values : List Nat) → List (BitVec 8) → List (BitVec 8)
  | _, [], buffer => buffer
  | i, value :: values, buffer => putFrom width (i + 1) values (putWord buffer (i * width) width value)

theorem putFrom_append {width i : Nat} {values : List Nat} {done rest : List (BitVec 8)}
    (hd : done.length = i * width) (hr : rest.length = values.length * width) :
    putFrom width i values (done ++ rest) = done ++ putAll width values := by
  induction values generalizing i done rest
  case nil =>
    have : rest = [] := List.eq_nil_of_length_eq_zero (by simpa using hr)
    rw [putFrom, this]
    rfl
  case cons value values ih =>
    have hlen : rest.length = width + values.length * width := by
      rw [hr, List.length_cons]
      ring
    have hwrite := @Region.write_append _ done (put width value) rest (by rw [length_put]; omega)
    rw [putFrom, putWord, ← hd, hwrite, ← List.append_assoc, ih, putAll, putAll, List.flatMap_cons,
      List.append_assoc]
    · rw [List.length_append, length_put, hd]
      ring
    · rw [List.length_drop, length_put, hlen, Nat.add_sub_cancel_left]

theorem putFrom_eq_putAll {width : Nat} {values : List Nat} {buffer : List (BitVec 8)}
    (h : buffer.length = values.length * width) : putFrom width 0 values buffer = putAll width values := by
  simpa using @putFrom_append width 0 values [] buffer (by simp) h

end Wire
