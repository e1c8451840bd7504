import Mathlib.Algebra.Group.Nat.Defs
import NornRune.Lib.Checked

namespace NornRune

-- IDs (of symbols, values, fields, instructions, slots and so on) are natural numbers and one-based:
-- the row of an ID in its columns is the ID minus one, and zero is never a legal ID.

abbrev Byte := BitVec 8

instance : LawfulBEq (List Byte) := inferInstance

-- FNV-1a.
def hashSymbol (b : List Byte) : BitVec 64 :=
  b.foldl (fun h c => (h ^^^ c.setWidth 64) * 1099511628211#64) 14695981039346656037#64

def maxUint16 : Nat := 2 ^ 16 - 1
def maxUint32 : Nat := 2 ^ 32 - 1
def maxUint64 : Nat := 2 ^ 64 - 1

-- `int` is 64 bits wide on every released target (amd64 and arm64).
def maxInt : Nat := 2 ^ 63 - 1

inductive ValueKind
  | invalid
  | symbol
  | integer
  | boolean
  | timestamp
  | presence
  deriving DecidableEq, Repr

namespace ValueKind

def valid : ValueKind → Bool
  | invalid => false
  | _ => true

end ValueKind

inductive FieldGroup
  | invalid
  | subject
  | action
  | resource
  | output
  | context
  deriving DecidableEq, Repr

def FieldGroup.valid : FieldGroup → Bool
  | invalid => false
  | _ => true

-- The text of a panic. Every index that the source does not check is a potential panic.
abbrev Panic := String

def outOfRange : Panic := "index out of range"

-- How a call on the evaluator can end other than with a result.
inductive Fault
  | invalidProgram
  | batchTooLarge
  | panic (text : Panic)
  deriving DecidableEq, Repr

def fetch {α : Type} (xs : List α) (i : Nat) : Except Panic α :=
  match xs[i]? with
  | some x => .ok x
  | none => .error outOfRange

def require (c : Bool) (text : String) : Except Panic Unit :=
  if c then .ok () else .error text

section Fetch

variable {α : Type} {xs : List α} {i : Nat}

theorem fetch_eq_ok_iff {x : α} : fetch xs i = .ok x ↔ xs[i]? = some x := by
  unfold fetch
  split <;> simp_all

theorem fetch_of_lt (h : i < xs.length) : fetch xs i = .ok xs[i] := by
  simp [fetch, h]

variable {c : Bool} {text : String}

@[simp]
theorem require_eq_ok_iff : require c text = .ok () ↔ c = true := by
  cases c <;> simp [require]

theorem require_of (h : c = true) : require c text = .ok () :=
  require_eq_ok_iff.mpr h

theorem require_bind_eq_ok_iff {f : Unit → Except Panic α} {b : α} :
    (require c text >>= f) = .ok b ↔ c = true ∧ f () = .ok b := by
  cases c <;> simp [require, bind, Except.bind]

end Fetch
end NornRune
