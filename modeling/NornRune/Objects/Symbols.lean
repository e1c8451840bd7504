import NornRune.Objects.Schema
import NornRune.Lib.Slice

-- The interner of symbols, and the arena that stores their bytes.
namespace NornRune

structure ArenaRef where
  offset : Nat
  length : Nat
  deriving DecidableEq, Repr

-- A limit of zero stands for the largest one.
structure ByteArena where
  buf : List Byte
  maxBytes : Nat
  deriving DecidableEq, Repr

namespace ByteArena

def limit (a : ByteArena) : Nat :=
  if a.maxBytes = 0 then maxUint32 else a.maxBytes

def new : ByteArena := ⟨[], maxUint32⟩

def append (a : ByteArena) (p : List Byte) : Option (ByteArena × ArenaRef) :=
  let off := a.buf.length % 2 ^ 32
  if p.length = 0 then some (a, ⟨off, 0⟩)
  else if a.limit < a.buf.length + p.length then none
  else some ({ a with buf := a.buf ++ p }, ⟨off, p.length % 2 ^ 32⟩)

def bytes (a : ByteArena) (r : ArenaRef) : Option (List Byte) :=
  if a.buf.length < r.offset + r.length then none else some (Region.read a.buf r.offset r.length)

def reset (a : ByteArena) : ByteArena :=
  { a with buf := [] }

end ByteArena

def nextPow2 (n : Nat) : Nat :=
  if n ≤ 1 then 1 else 2 ^ ((n - 1).log2 + 1)

-- Symbols are found by their bytes through the slots, and by their ID through the columns of starts and
-- lengths. A slot with the ID zero is empty.
structure SymbolInterner where
  arena : Option ByteArena
  ids : List Nat
  refs : List ArenaRef
  starts : List Nat
  lengths : List Nat
  count : Nat
  nextID : Nat

namespace SymbolInterner

def zero : SymbolInterner := ⟨none, [], [], [], [], 0, 0⟩

def new (hint : Nat) : SymbolInterner :=
  let size := max (nextPow2 (2 * hint)) 4
  {
    arena := some .new
    ids := List.replicate size 0
    refs := List.replicate size ⟨0, 0⟩
    starts := []
    lengths := []
    count := 0
    nextID := 1
  }

def text (arena : Option ByteArena) (ref : ArenaRef) : List Byte :=
  (arena.bind (·.bytes ref)).getD []

inductive Probed
  | found (id : Nat)
  | empty (slot : Nat)
  | endless

-- Visits slots from one on. The number of slots is a power of two, and a search that has visited all of
-- them goes on forever.
def probe (ids : List Nat) (refs : List ArenaRef) (same : ArenaRef → Bool) : Nat → Nat → Probed
  | 0, _ => .endless
  | probes + 1, slot =>
    let id := ids.getD slot 0
    if id = 0 then .empty slot
    else if same (refs.getD slot ⟨0, 0⟩) then .found id
    else probe ids refs same probes ((slot + 1) &&& (ids.length - 1))

variable (hash : List Byte → BitVec 64)

def home (slots : Nat) (b : List Byte) : Nat :=
  (hash b).toNat &&& (slots - 1)

def find (s : SymbolInterner) (b : List Byte) : Probed :=
  probe s.ids s.refs (fun ref => text s.arena ref == b) s.ids.length (home hash s.ids.length b)

def rehash (arena : Option ByteArena) (slots : List Nat × List ArenaRef) (entry : Nat × ArenaRef) :
    Option (List Nat × List ArenaRef) :=
  let (ids, refs) := slots
  let (id, ref) := entry
  if id = 0 then some (ids, refs)
  else match probe ids refs (fun _ => false) ids.length (home hash ids.length (text arena ref)) with
    | .empty slot => some (ids.set slot id, refs.set slot ref)
    | _ => none

def grow (s : SymbolInterner) : Option SymbolInterner := do
  let size := s.ids.length * 2
  let (ids, refs) ← (s.ids.zip s.refs).foldlM (rehash hash s.arena)
    (List.replicate size 0, List.replicate size ⟨0, 0⟩)
  return { s with ids, refs }

def insert (s : SymbolInterner) (slot : Nat) (b : List Byte) : SymbolInterner × Option Nat :=
  match (s.arena.getD .new).append b with
  | none => (s, none)
  | some (arena, ref) =>
    let id := s.nextID
    ({
      arena := some arena
      ids := s.ids.set slot id
      refs := s.refs.set slot ref
      starts := s.starts ++ [ref.offset]
      lengths := s.lengths ++ [ref.length]
      count := s.count + 1
      nextID := (s.nextID + 1) % 2 ^ 32
    }, some id)

-- Searches, and grows the table until less than half of the slots are in use.
def internLoop (b : List Byte) : Nat → SymbolInterner → Option (SymbolInterner × Option Nat)
  | 0, _ => none
  | rounds + 1, s =>
    match s.find hash b with
    | .endless => none
    | .found id => some (s, some id)
    | .empty slot =>
      if s.count * 2 < s.ids.length then some (s.insert slot b)
      else do internLoop b rounds (← s.grow hash)

def initTable (s : SymbolInterner) (size : Nat) : SymbolInterner :=
  { s with ids := List.replicate size 0, refs := List.replicate size ⟨0, 0⟩, nextID := 1 }

-- The ID of a symbol, which is added if it is new. Each round doubles the number of slots, so that the
-- rounds suffice unless a search does not end.
def intern (s : SymbolInterner) (b : List Byte) : Option (SymbolInterner × Option Nat) :=
  let s := if s.ids.length = 0 then s.initTable 4 else s
  let s := { s with arena := some (s.arena.getD .new) }
  internLoop hash b (s.count * 2 + 2) s

def lookup (s : SymbolInterner) (b : List Byte) : Option (Option Nat) :=
  if s.ids.length = 0 then some none
  else match s.find hash b with
    | .endless => none
    | .found id => some (some id)
    | .empty _ => some none

def bytes (s : SymbolInterner) (id : Nat) : Option (List Byte) :=
  if id = 0 ∨ s.starts.length < id then none
  else s.arena.bind (·.bytes ⟨s.starts.getD (id - 1) 0, s.lengths.getD (id - 1) 0⟩)

def reset (s : SymbolInterner) : SymbolInterner where
  arena := s.arena.map (·.reset)
  ids := s.ids.map fun _ => 0
  refs := s.refs
  starts := []
  lengths := []
  count := 0
  nextID := 1

def len (s : SymbolInterner) : Nat := s.count

def byteLen (s : SymbolInterner) : Nat :=
  match s.arena with
  | none => 0
  | some arena => arena.buf.length % 2 ^ 32

-- An interner before any call. Its zero value can be used as well.
def start : Option Nat → SymbolInterner
  | none => zero
  | some hint => new hint

inductive Op
  | intern (b : List Byte)
  | lookup (b : List Byte)
  | bytes (id : Nat)
  | reset
  deriving DecidableEq, Repr

inductive Answer
  | symbol (id : Option Nat)
  | found (id : Option Nat)
  | text (b : Option (List Byte))
  | done
  deriving DecidableEq, Repr

def step (s : SymbolInterner) : Op → Option (SymbolInterner × Answer)
  | .intern b => (s.intern hash b).map fun r => (r.1, .symbol r.2)
  | .lookup b => (s.lookup hash b).map fun r => (s, .found r)
  | .bytes id => some (s, .text (s.bytes id))
  | .reset => some (s.reset, .done)

def run (s : SymbolInterner) : List Op → Option (SymbolInterner × List Answer)
  | [] => some (s, [])
  | op :: ops => do
    let (s, answer) ← s.step hash op
    let (s, answers) ← run s ops
    return (s, answer :: answers)

end SymbolInterner
end NornRune
