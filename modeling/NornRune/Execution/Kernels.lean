import NornRune.Objects.Program
import NornRune.Objects.Batch

open Bitplane

namespace NornRune

inductive Comparison
  | equal
  | notEqual
  | less
  | lessEqual
  | greater
  | greaterEqual
  deriving DecidableEq, Repr

def Comparison.holds {α : Type} [LinearOrder α] (left right : α) : Comparison → Bool
  | equal => left == right
  | notEqual => left != right
  | less => left < right
  | lessEqual => left ≤ right
  | greater => right < left
  | greaterEqual => right ≤ left

-- The vector kernels of a process and what it knows about them. The kernels come from a library that
-- is not part of the engine: all that is known about them is that they compute the operation they
-- are named for in each lane.
structure Kernels where
  vectorized : Bool
  wordBitwise : Nat
  compareU32 : List Nat → Nat → Comparison → List Bool
  compareI64 : List Int → Int → Comparison → List Bool
  packMask : List Bool → List Word
  andWords : List Word → List Word → List Word
  orWords : List Word → List Word → List Word
  andNotWords : List Word → List Word → List Word
  compareU32_eq : ∀ src value c, compareU32 src value c = src.map (c.holds · value)
  compareI64_eq : ∀ src value c, compareI64 src value c = src.map (c.holds · value)
  length_packMask : ∀ src, (packMask src).length = wordCount src.length
  bit_packMask : ∀ src row, row < src.length → bit (packMask src) row = src.getD row false
  andWords_eq : ∀ as bs, as.length = bs.length → andWords as bs = List.zipWith (· &&& ·) as bs
  orWords_eq : ∀ as bs, as.length = bs.length → orWords as bs = List.zipWith (· ||| ·) as bs
  andNotWords_eq : ∀ as bs, as.length = bs.length →
    andNotWords as bs = List.zipWith (fun a b => a &&& ~~~b) as bs

def Kernels.portable : Kernels where
  vectorized := false
  wordBitwise := 0
  compareU32 src value c := src.map (c.holds · value)
  compareI64 src value c := src.map (c.holds · value)
  packMask src :=
    setWhere (fun row => src.getD row false) src.length (List.replicate (wordCount src.length) 0#64)
  andWords := List.zipWith (· &&& ·)
  orWords := List.zipWith (· ||| ·)
  andNotWords := List.zipWith fun a b => a &&& ~~~b
  compareU32_eq _ _ _ := rfl
  compareI64_eq _ _ _ := rfl
  length_packMask _ := by simp
  bit_packMask src row h := by
    rw [bit_setWhere _ (by simp), bit_replicate_zero, Bool.false_or]
    simp [h]
  andWords_eq _ _ _ := rfl
  orWords_eq _ _ _ := rfl
  andNotWords_eq _ _ _ := rfl

inductive ExecutionMode
  | auto
  | scalar
  | simd
  | index
  deriving DecidableEq, Repr

def simdComparisonMinRows : Nat := 64
def simdWordMinWords : Nat := 8
def factIndexMinRows : Nat := 64

def useSIMDRows (k : Kernels) (mode : ExecutionMode) (rows threshold : Nat) : Bool :=
  match mode with
  | .simd => true
  | .scalar | .index => false
  | .auto => k.vectorized && decide (threshold ≤ rows)

def useSIMDWords (k : Kernels) (mode : ExecutionMode) (words : Nat) : Bool :=
  useSIMDRows k mode words (max simdWordMinWords k.wordBitwise)

def useFactIndex (mode : ExecutionMode) (rows : Nat) : Bool :=
  match mode with
  | .scalar | .simd => false
  | .index => true
  | .auto => decide (factIndexMinRows ≤ rows)

end NornRune
