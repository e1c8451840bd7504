import Mathlib.Data.List.Basic

-- Characters as bytes.
namespace Utf8

def decode? (bs : List (BitVec 8)) : Option Char :=
  (bs.map UInt8.ofBitVec).toByteArray.utf8DecodeChar? 0

def runes? : (fuel : Nat) → List (BitVec 8) → Option (List Char)
  | _, [] => some []
  | 0, _ :: _ => none
  | fuel + 1, b :: bs => do
    let c ← decode? (b :: bs)
    return c :: (← runes? fuel ((b :: bs).drop c.utf8Size))

end Utf8
