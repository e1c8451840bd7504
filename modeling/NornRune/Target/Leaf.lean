import NornRune.Target.Layout

open Wire

-- The leaves of a record: its columns and numbers, in the order of their declaration. Each leaf is
-- stored in a section of its own.
namespace NornRune

-- How a value of a scalar type is stored as a word. The type of the source can have fewer values than
-- the one of the model: these are the legal ones.
structure Scalar (α : Type) where
  width : Nat
  toBits : α → Nat
  ofBits : Nat → Option α
  legal : α → Bool
  width_valid : validWidth width
  toBits_lt : ∀ a, legal a → toBits a < 256 ^ width
  ofBits_toBits : ∀ a, legal a → ofBits (toBits a) = some a

namespace Scalar

variable {α : Type}

def unsigned (width : Nat) (h : validWidth width) : Scalar Nat where
  width := width
  toBits a := a
  ofBits := some
  legal a := decide (a < 256 ^ width)
  width_valid := h
  toBits_lt _ h := of_decide_eq_true h
  ofBits_toBits _ _ := rfl

def uint8 : Scalar Nat := unsigned 1 rfl
def uint16 : Scalar Nat := unsigned 2 rfl
def uint32 : Scalar Nat := unsigned 4 rfl
def uint64 : Scalar Nat := unsigned 8 rfl

def bitVec (width : Nat) (h : validWidth width) : Scalar (BitVec (8 * width)) where
  width := width
  toBits := BitVec.toNat
  ofBits n := some (.ofNat _ n)
  legal _ := true
  width_valid := h
  toBits_lt a _ := by
    have := a.isLt
    rwa [Nat.pow_mul] at this
  ofBits_toBits a _ := by rw [BitVec.ofNat_toNat, BitVec.setWidth_eq]

def byte : Scalar Byte := bitVec 1 rfl
def word64 : Scalar (BitVec 64) := bitVec 8 rfl

-- Negative values are stored as their two's complement.
def int64 : Scalar Int where
  width := 8
  toBits a := (BitVec.ofInt 64 a).toNat
  ofBits n := some (BitVec.ofNat 64 n).toInt
  legal a := decide (-2 ^ 63 ≤ a) && decide (a < 2 ^ 63)
  width_valid := rfl
  toBits_lt a _ := (BitVec.ofInt 64 a).isLt
  ofBits_toBits a h := by
    rw [Bool.and_eq_true, decide_eq_true_eq, decide_eq_true_eq] at h
    rw [BitVec.ofNat_toNat, BitVec.setWidth_eq, BitVec.toInt_ofInt, Int.bmod_eq_of_le (by omega) (by omega)]

def bool : Scalar Bool where
  width := 1
  toBits := Bool.toNat
  ofBits n := if 1 < n then none else some (n != 0)
  legal _ := true
  width_valid := rfl
  toBits_lt a _ := by cases a <;> decide
  ofBits_toBits a _ := by cases a <;> rfl

-- An enumeration is stored as the position of its values. The source keeps numbers that do not stand
-- for a value, and takes them for invalid.
def enumeration [DecidableEq α] (values : List α) (invalid : α) (h : values.length ≤ 256) :
    Scalar α where
  width := 1
  toBits a := values.idxOf a
  ofBits n := some (values.getD n invalid)
  legal a := decide (a ∈ values)
  width_valid := rfl
  toBits_lt _ ha := Nat.lt_of_lt_of_le (List.idxOf_lt_length_iff.mpr (of_decide_eq_true ha)) h
  ofBits_toBits _ ha := by
    have hlt := List.idxOf_lt_length_iff.mpr (of_decide_eq_true ha)
    simp [hlt]

end Scalar

inductive Shape
  | slice
  | array (length : Nat)
  | scalar
  deriving DecidableEq, Repr

def Shape.accepts : Shape → Nat → Bool
  | slice, _ => true
  | array length, count => count == length
  | scalar, count => count == 1

-- A leaf of the records of a type. What is assigned does not depend on the record it is assigned to.
structure ProgramLeaf (σ : Type) where
  width : Nat
  shape : Shape
  bits : σ → List Nat
  assign : List Nat → Option (σ → σ)
  copy : σ → Option (σ → σ)
  typed : σ → Bool
  width_valid : validWidth width
  bits_lt : ∀ v, typed v → ∀ b ∈ bits v, b < 256 ^ width
  accepts : ∀ v, typed v → shape.accepts (bits v).length
  assign_bits : ∀ v, typed v → assign (bits v) = copy v

namespace ProgramLeaf

variable {α σ : Type}

theorem mapM_ofBits (c : Scalar α) {as : List α} (h : as.all c.legal) :
    (as.map c.toBits).mapM c.ofBits = some as := by
  rw [List.all_eq_true] at h
  induction as
  case nil => rfl
  case cons a as ih =>
    rw [List.map_cons, List.mapM_cons, c.ofBits_toBits a (h a List.mem_cons_self),
      ih fun a hm => h a (List.mem_cons_of_mem _ hm)]
    rfl

theorem toBits_lt_of_mem (c : Scalar α) {as : List α} (h : as.all c.legal) :
    ∀ b ∈ as.map c.toBits, b < 256 ^ c.width := by
  rw [List.all_eq_true] at h
  intro b hb
  have ⟨a, ha, hab⟩ := List.mem_map.mp hb
  exact hab ▸ c.toBits_lt a (h a ha)

def ofScalars (c : Scalar α) (shape : Shape) (get : σ → List α) (set : List α → Option (σ → σ))
    (accepts : ∀ v, shape.accepts (get v).length) : ProgramLeaf σ where
  width := c.width
  shape := shape
  bits v := (get v).map c.toBits
  assign bits := (bits.mapM c.ofBits).bind set
  copy v := set (get v)
  typed v := (get v).all c.legal
  width_valid := c.width_valid
  bits_lt _ h := toBits_lt_of_mem c h
  accepts v _ := by
    rw [List.length_map]
    exact accepts v
  assign_bits _ h := by rw [mapM_ofBits c h, Option.bind_some]

def slice (c : Scalar α) (get : σ → List α) (set : List α → Option (σ → σ)) : ProgramLeaf σ :=
  ofScalars c .slice get set fun _ => rfl

def column (c : Scalar α) (get : σ → List α) (set : List α → σ → σ) : ProgramLeaf σ :=
  slice c get (some <| set ·)

def array (c : Scalar α) (length : Nat) (get : σ → List α) (set : List α → Option (σ → σ))
    (h : ∀ v, (get v).length = length) : ProgramLeaf σ :=
  ofScalars c (.array length) get set fun v => beq_iff_eq.mpr (h v)

def scalar (c : Scalar α) (get : σ → α) (set : α → Option (σ → σ)) : ProgramLeaf σ :=
  ofScalars c .scalar (fun v => [get v]) (·.head?.bind set) fun _ => rfl

def lift {τ : Type} (leaf : ProgramLeaf σ) (get : τ → σ) (update : (σ → σ) → τ → τ) : ProgramLeaf τ where
  width := leaf.width
  shape := leaf.shape
  bits v := leaf.bits (get v)
  assign bits := (leaf.assign bits).map update
  copy v := (leaf.copy (get v)).map update
  typed v := leaf.typed (get v)
  width_valid := leaf.width_valid
  bits_lt v := leaf.bits_lt (get v)
  accepts v := leaf.accepts (get v)
  assign_bits v h := by rw [leaf.assign_bits (get v) h]

-- The bytes of a leaf are written into a buffer that an earlier call may have left behind. It is
-- cleared first: a Boolean that is false is not written at all.
def encodeReuse (leaf : ProgramLeaf σ) (id : Nat) (value : σ) (data : Slice Byte) :
    Option (SectionSpec × Slice Byte) := do
  let bits := leaf.bits value
  if maxUint32 < bits.length then none
  else
    let byteCount ← checkedProduct bits.length leaf.width
    if maxInt < byteCount then none
    else
      let data := data.resize 0#8 byteCount
      let data := data.write 0 (List.replicate byteCount 0#8)
      let bytes := putFrom leaf.width 0 bits data.toList
      some (⟨bytes, bits.length, id, leaf.width⟩, data.write 0 bytes)

def decode (leaf : ProgramLeaf σ) (src : List Byte) (d : SectionDescriptor) : Option (σ → σ) :=
  if !leaf.shape.accepts d.count then none
  else leaf.assign (getAll leaf.width d.count (Region.read src d.offset d.bytes))

end ProgramLeaf

section Sections

variable {σ : Type}

def fillSections (value : σ) :
    List (ProgramLeaf σ) → (row : Nat) → Slice (Slice Byte) → Slice (Slice Byte) × Option (List SectionSpec)
  | [], _, buffers => (buffers, some [])
  | leaf :: leaves, row, buffers =>
    match leaf.encodeReuse (row + 1) value (buffers.get .empty row) with
    | none => (buffers, none)
    | some (s, data) =>
      let (buffers, ss) := fillSections value leaves (row + 1) (buffers.set row data)
      (buffers, ss.map (s :: ·))

-- Replaces the leaves of a record one by one, until a section does not fit. The result is the number
-- of sections that were read.
def decodeSections (src : List Byte) (descriptors : List SectionDescriptor) :
    List (ProgramLeaf σ) → (row : Nat) → σ → σ × Option Nat
  | [], row, value => (value, some row)
  | leaf :: leaves, row, value =>
    match descriptors[row]? with
    | none => (value, none)
    | some d =>
      if d.id ≠ row + 1 ∨ d.width ≠ leaf.width then (value, none)
      else match leaf.decode src d with
        | none => (value, none)
        | some set => decodeSections src descriptors leaves (row + 1) (set value)

end Sections
end NornRune
