import NornRune.Compile.Constants
import NornRune.Lib.Ragged

open Checked

namespace NornRune

theorem slotSizeFrom_eq {fuel size n : Nat} (h : ∃ k, size = 2 ^ k) (hn : slotSizeFrom fuel size n ≠ 0) :
    (∃ k, slotSizeFrom fuel size n = 2 ^ k) ∧ 2 * n ≤ slotSizeFrom fuel size n := by
  induction fuel generalizing size
  case zero => exact absurd rfl hn
  case succ fuel ih =>
    rw [slotSizeFrom] at hn ⊢
    split
    case isFalse hge => exact ⟨h, by omega⟩
    case isTrue hlt =>
      rw [if_pos hlt] at hn
      split
      case isTrue hmax => exact absurd (if_pos hmax) hn
      case isFalse hmax =>
        rw [if_neg hmax] at hn
        have ⟨k, hk⟩ := h
        exact ih ⟨k + 1, by rw [hk, Nat.pow_succ]⟩ hn

theorem slotSize_eq {n : Nat} (h : slotSize n ≠ 0) : (∃ k, slotSize n = 2 ^ k) ∧ 2 * n ≤ slotSize n :=
  slotSizeFrom_eq ⟨2, rfl⟩ h

namespace SymbolTable

variable {t t' : SymbolTable} {names : List (List Byte)} {b : List Byte} {id : Nat}

def nameHash (names : List (List Byte)) (id : Nat) : Nat :=
  (hashSymbol (names.getD (id - 1) [])).toNat

-- The symbols of a table in the order of their IDs. They are all different, and each of them is found
-- by its bytes.
structure Holds (t : SymbolTable) (names : List (List Byte)) : Prop where
  bytes : t.bytes = names.flatten
  starts : t.starts = Ragged.starts names
  lengths : t.lengths = names.map List.length
  nodup : names.Nodup
  placed : Probe.Placed (nameHash names) t.slots
  slots : ∀ id, some id ∈ t.slots ↔ id ≠ 0 ∧ id ≤ names.length
  filled : Probe.filled t.slots = names.length

theorem holds_empty (n : Nat) : Holds ⟨[], [], [], List.replicate n none⟩ [] where
  bytes := rfl
  starts := rfl
  lengths := rfl
  nodup := .nil
  placed := Probe.placed_replicate _ n
  slots id := by
    constructor
    · intro h
      cases (List.mem_replicate.mp h).2
    · intro ⟨h, hle⟩
      exact absurd (Nat.le_zero.mp hle) h
  filled := Probe.filled_replicate n

theorem symbol_eq_getElem? (bytes : t.bytes = names.flatten) (starts : t.starts = Ragged.starts names)
    (lengths : t.lengths = names.map List.length) (hid : id ≠ 0) : t.symbol id = names[id - 1]? := by
  rw [symbol, if_neg hid, starts, lengths, bytes]
  cases hname : names[id - 1]?
  case none => simp [hname]
  case some b =>
    have ⟨hlt, _⟩ := List.getElem?_eq_some_iff.mp hname
    rw [Ragged.getElem?_starts hlt, List.getElem?_map, hname]
    simp only [Option.map_some]
    rw [if_neg (Nat.not_lt.mpr (Ragged.le_length_flatten hname))]
    exact congrArg some (Ragged.take_drop_flatten hname)

theorem Holds.symbol_eq (h : t.Holds names) (hid : id ≠ 0) : t.symbol id = names[id - 1]? :=
  symbol_eq_getElem? h.bytes h.starts h.lengths hid

def interned (names : List (List Byte)) (b : List Byte) : List (List Byte) :=
  if b ∈ names then names else names ++ [b]

theorem interned_extends (names : List (List Byte)) (b : List Byte) : names <+: interned names b := by
  unfold interned
  split
  · exact List.prefix_refl names
  · exact List.prefix_append names [b]

theorem mem_interned (names : List (List Byte)) (b : List Byte) : b ∈ interned names b := by
  unfold interned
  split
  case isTrue h => exact h
  case isFalse => exact List.mem_append_right names (List.mem_singleton_self b)

theorem length_interned_le (names : List (List Byte)) (b : List Byte) :
    (interned names b).length ≤ names.length + 1 := by
  unfold interned
  split <;> simp

theorem Holds.mem_of_symbol (h : t.Holds names) (hs : some id ∈ t.slots)
    (hb : (t.symbol id == some b) = true) : names[id - 1]? = some b := by
  rw [← h.symbol_eq ((h.slots id).mp hs).1]
  exact beq_iff_eq.mp hb

section Vacant

variable {slot : Nat} (h : t.Holds names)
  (hf : Probe.find t.slots (fun id => t.symbol id == some b) (hashSymbol b).toNat = .vacant slot)
include h hf

theorem Holds.not_mem_of_vacant : b ∉ names := by
  intro hb
  have ⟨i, hlt, hget⟩ := List.mem_iff_getElem.mp hb
  have hs : some (i + 1) ∈ t.slots := (h.slots _).mpr ⟨Nat.succ_ne_zero i, hlt⟩
  have hhash : nameHash names (i + 1) = (hashSymbol b).toNat := by
    rw [nameHash, Nat.add_sub_cancel, List.getD_eq_getElem _ _ hlt, hget]
  have hdiff := Probe.not_same_of_vacant h.placed hf hs hhash
  have hname : t.symbol (i + 1) = some b := by
    rw [h.symbol_eq i.succ_ne_zero, ← hget]
    exact List.getElem?_eq_getElem hlt
  simp [hname] at hdiff

theorem Holds.append : Holds {
    bytes := t.bytes ++ b
    starts := t.starts ++ [t.bytes.length]
    lengths := t.lengths ++ [b.length]
    slots := t.slots.set slot (some (names.length + 1))
  } (names ++ [b]) where
  bytes := by rw [h.bytes, List.flatten_append, List.flatten_singleton]
  starts := by rw [Ragged.starts_concat, h.starts, h.bytes]
  lengths := by rw [h.lengths, List.map_append, List.map_singleton]
  nodup := List.concat_eq_append ▸ h.nodup.concat (h.not_mem_of_vacant hf)
  placed := by
    have hhash : nameHash (names ++ [b]) (names.length + 1) = (hashSymbol b).toNat := by
      simp [nameHash]
    refine Probe.Placed.set (h.placed.congr fun id hs => ?_) (hhash.symm ▸ hf)
    have ⟨hid, hle⟩ := (h.slots id).mp hs
    rw [nameHash, nameHash, List.getD_append _ _ _ _ (by omega)]
  slots id := by
    rw [Probe.mem_set_vacant hf, h.slots, List.length_append, List.length_singleton]
    omega
  filled := by rw [Probe.filled_set hf, h.filled, List.length_append, List.length_singleton]

end Vacant

theorem Holds.intern (h : t.Holds names) (hi : t.intern b = .ok (t', id)) :
    t'.Holds (interned names b) ∧ id = (interned names b).idxOf b + 1 ∧
      t'.slots.length = t.slots.length := by
  unfold SymbolTable.intern at hi
  have ⟨_, hi⟩ := ite_eq_of_ne hi nofun
  split at hi
  case h_1 => cases hi
  case h_2 id' hf =>
    cases hi
    have ⟨hs, hb⟩ := Probe.mem_of_find hf
    have ⟨hid, _⟩ := (h.slots id).mp hs
    have hname := h.mem_of_symbol hs hb
    have ⟨hlt, hget⟩ := List.getElem?_eq_some_iff.mp hname
    rw [interned, if_pos (List.mem_of_getElem? hname)]
    refine ⟨h, ?_, rfl⟩
    rw [← hget, h.nodup.idxOf_getElem]
    omega
  case h_3 slot hf =>
    have ⟨_, hi⟩ := ite_eq_of_ne hi nofun
    cases hi
    have hnew := h.not_mem_of_vacant hf
    have hlen : t.starts.length = names.length := by rw [h.starts, Ragged.length_starts]
    rw [interned, if_neg hnew, hlen]
    refine ⟨h.append hf, ?_, List.length_set⟩
    rw [List.idxOf_append_of_notMem hnew, List.idxOf_cons_self, Nat.add_zero]

end SymbolTable

structure Frozen (names : List (List Byte)) (slots : List (Option FrozenSlot)) (count : Nat) : Prop where
  length : ∃ k, slots.length = 2 ^ k
  room : 2 * names.length ≤ slots.length
  filled : Probe.filled slots = count
  placed : Probe.Placed (fun s => s.hash.toNat) slots
  slots : ∀ s, some s ∈ slots ↔
    ∃ i < count, ∃ b, names[i]? = some b ∧ s = ⟨hashSymbol b, i + 1⟩

variable {t : SymbolTable} {names : List (List Byte)} {slots : List (Option FrozenSlot)}

theorem Frozen.step {i : Nat} (hs : Frozen names slots i) (h : t.Holds names) (hi : i < names.length) :
    ∃ slots', freezeSymbol t slots (i + 1) = .ok slots' ∧ Frozen names slots' (i + 1) := by
  have hget : names[i]? = some names[i] := List.getElem?_eq_getElem hi
  have hb : t.symbol (i + 1) = some names[i] := (h.symbol_eq i.succ_ne_zero).trans hget
  have hroom : none ∈ slots := Probe.none_mem_of_filled (by have := hs.room; rw [hs.filled]; omega)
  cases hf : Probe.find slots (fun _ => false) (hashSymbol names[i]).toNat
  case full => exact absurd hf (Probe.find_ne_full hroom _)
  case entry => cases (Probe.mem_of_find hf).2
  case vacant slot =>
    refine ⟨slots.set slot (some ⟨hashSymbol names[i], i + 1⟩), by simp only [freezeSymbol, hb, hf],
      by simpa using hs.length, by simpa using hs.room, by rw [Probe.filled_set hf, hs.filled],
      hs.placed.set hf, fun s => ?_⟩
    rw [Probe.mem_set_vacant hf, hs.slots]
    constructor
    · rintro (rfl | ⟨j, hj, hs⟩)
      · exact ⟨i, i.lt_succ_self, _, hget, rfl⟩
      · exact ⟨j, Nat.lt_succ_of_lt hj, hs⟩
    · rintro ⟨j, hj, b, hname, rfl⟩
      rcases Nat.lt_succ_iff_lt_or_eq.mp hj with hj | rfl
      case inl => exact .inr ⟨j, hj, b, hname, rfl⟩
      case inr =>
        cases hget.symm.trans hname
        exact .inl rfl

theorem freezeSymbolSlots_ok (h : t.Holds names) (hne : slotSize names.length ≠ 0) :
    ∃ slots, freezeSymbolSlots t = .ok slots ∧ Frozen names slots names.length := by
  have hlen : t.starts.length = names.length := by rw [h.starts, Ragged.length_starts]
  have hrange : List.range' 1 names.length = (List.range names.length).map (· + 1) := by
    simp [List.range'_eq_map_range, Nat.add_comm]
  have ⟨hpow, hroom⟩ := slotSize_eq hne
  rw [freezeSymbolSlots, hlen, if_neg hne, hrange, List.foldlM_map]
  refine exists_foldlM_range (P := fun i slots => Frozen names slots i)
    ⟨by simpa using hpow, by simpa using hroom, Probe.filled_replicate _, Probe.placed_replicate _ _,
      fun s => ?_⟩ fun i slots hi hs => hs.step h hi
  constructor
  · intro hm
    cases (List.mem_replicate.mp hm).2
  · intro ⟨i, hi, _⟩
    exact absurd hi (Nat.not_lt_zero i)

theorem freezeSymbolSlots_frozen (h : t.Holds names) (hf : freezeSymbolSlots t = .ok slots) :
    Frozen names slots names.length := by
  have ⟨hne, _⟩ := of_guard hf
  rw [h.starts, Ragged.length_starts] at hne
  have ⟨_, hok, frozen⟩ := freezeSymbolSlots_ok h hne
  cases hok.symm.trans hf
  exact frozen

structure Constants.Holds (c : Constants) (names : List (List Byte)) : Prop where
  symbols : c.symbols.Holds names
  frozen : ∃ slots, Frozen names slots names.length ∧
    c.symbolHashes = slots.map (fun slot => (slot.map (·.hash)).getD 0) ∧
    c.symbolIDs = slots.map (fun slot => (slot.map (·.id)).getD 0)

end NornRune
