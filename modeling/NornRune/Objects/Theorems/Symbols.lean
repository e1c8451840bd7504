import Mathlib.Data.List.Nodup
import Mathlib.Data.List.Perm.Subperm
import NornRune.Objects.Symbols
import NornRune.Lib.Probe
import NornRune.Lib.Ragged

namespace NornRune

section Distinct

def shortStrings : List (List Byte) :=
  [] :: (List.range 256).map fun n => [BitVec.ofNat 8 n]

theorem mem_shortStrings {b : List Byte} (h : b.length ≤ 1) : b ∈ shortStrings := by
  match b, h with
  | [], _ => exact List.mem_cons_self
  | [c], _ =>
    refine List.mem_cons_of_mem _ (List.mem_map.mpr ⟨c.toNat, List.mem_range.mpr c.isLt, ?_⟩)
    rw [BitVec.ofNat_toNat, BitVec.setWidth_eq]

variable {names : List (List Byte)}

theorem two_mul_length_le (h : names.Nodup) :
    2 * names.length ≤ names.flatten.length + 514 := by
  have hshort : (names.filter (·.length ≤ 1)).length ≤ 257 := by
    have hsub : names.filter (·.length ≤ 1) ⊆ shortStrings := fun b hb =>
      mem_shortStrings (by simpa using (List.mem_filter.mp hb).2)
    have := (List.subperm_of_subset (h.filter _) hsub).length_le
    simpa [shortStrings] using this
  have hlong (xs : List (List Byte)) :
      2 * xs.length ≤ xs.flatten.length + 2 * (xs.filter (·.length ≤ 1)).length := by
    induction xs
    case nil => simp
    case cons b xs ih =>
      rw [List.flatten_cons, List.length_append, List.length_cons, List.filter_cons]
      split
      case isTrue => rw [List.length_cons]; omega
      case isFalse hb =>
        rw [decide_eq_true_eq, Nat.not_le] at hb
        omega
  have := hlong names
  omega

theorem length_lt_of_small (h : names.Nodup) (hsmall : names.flatten.length ≤ maxUint32) :
    names.length + 1 < 2 ^ 32 := by
  have := two_mul_length_le h
  simp only [maxUint32] at hsmall
  omega

end Distinct

namespace SymbolInterner

variable {hash : List Byte → BitVec 64} {names : List (List Byte)} {b : List Byte} {s : SymbolInterner}

section Slots

abbrev Entry := Nat × ArenaRef

def slotsOf (ids : List Nat) (refs : List ArenaRef) : List (Option Entry) :=
  List.zipWith (fun id ref => if id = 0 then none else some (id, ref)) ids refs

variable {ids : List Nat} {refs : List ArenaRef}

theorem length_slotsOf (h : refs.length = ids.length) : (slotsOf ids refs).length = ids.length := by
  simp [slotsOf, h]

theorem getD_slotsOf (h : refs.length = ids.length) {i : Nat} (hi : i < ids.length) :
    (slotsOf ids refs).getD i none =
      if ids.getD i 0 = 0 then none else some (ids.getD i 0, refs.getD i ⟨0, 0⟩) := by
  have hi' : i < refs.length := h.symm ▸ hi
  rw [List.getD_eq_getElem _ _ (by rwa [length_slotsOf h]), List.getD_eq_getElem _ _ hi,
    List.getD_eq_getElem _ _ hi']
  simp [slotsOf]

theorem slotsOf_set {i id : Nat} {ref : ArenaRef} (hid : id ≠ 0) :
    slotsOf (ids.set i id) (refs.set i ref) = (slotsOf ids refs).set i (some (id, ref)) := by
  apply List.ext_getElem?
  intro j
  simp only [slotsOf, List.getElem?_zipWith, List.getElem?_set, List.length_zipWith]
  by_cases hij : i = j
  case pos =>
    subst hij
    by_cases h₁ : i < ids.length <;> by_cases h₂ : i < refs.length <;> simp [h₁, h₂, hid]
  case neg => simp [hij]

theorem slotsOf_replicate (n : Nat) (refs : List ArenaRef) (h : refs.length = n) :
    slotsOf (List.replicate n 0) refs = List.replicate n none := by
  apply List.ext_getElem
  case hl => simp [slotsOf, h]
  case h =>
    intro i h₁ h₂
    simp [slotsOf]

theorem probe_eq (h : refs.length = ids.length) {k : Nat} (hk : ids.length = 2 ^ k)
    (same : ArenaRef → Bool) (probes slot : Nat) :
    probe ids refs same probes (slot % ids.length) =
      match Probe.search (slotsOf ids refs) (fun e => same e.2) probes slot with
      | .entry e => .found e.1
      | .vacant i => .empty i
      | .full => .endless := by
  have hlt : slot % ids.length < ids.length := Nat.mod_lt _ (hk ▸ Nat.two_pow_pos k)
  induction probes generalizing slot
  case zero => rfl
  case succ probes ih =>
    have hnext : (slot % ids.length + 1) &&& (ids.length - 1) = (slot + 1) % ids.length := by
      rw [hk, Nat.and_two_pow_sub_one_eq_mod, Nat.mod_add_mod]
    rw [probe, Probe.search, length_slotsOf h, getD_slotsOf h hlt, hnext,
      ih (slot + 1) (Nat.mod_lt _ (by omega))]
    by_cases hid : ids.getD (slot % ids.length) 0 = 0
    case pos => simp only [hid, if_true]
    case neg =>
      simp only [hid, if_false]
      split
      case isTrue => rfl
      case isFalse => rfl

theorem probe_home (hash : List Byte → BitVec 64) (h : refs.length = ids.length) {k : Nat}
    (hk : ids.length = 2 ^ k) (same : ArenaRef → Bool) (b : List Byte) :
    probe ids refs same ids.length (home hash ids.length b) =
      match Probe.find (slotsOf ids refs) (fun e => same e.2) (hash b).toNat with
      | .entry e => .found e.1
      | .vacant i => .empty i
      | .full => .endless := by
  have hhome : home hash ids.length b = (hash b).toNat % ids.length := by
    rw [home, hk, Nat.and_two_pow_sub_one_eq_mod]
  have := probe_eq h hk same ids.length ((hash b).toNat % ids.length)
  rw [Nat.mod_mod] at this
  rw [hhome, this, Probe.find, length_slotsOf h]

end Slots

section Entries

def refOf (names : List (List Byte)) (i : Nat) : ArenaRef :=
  ⟨(names.take i).flatten.length, (names.getD i []).length⟩

def entries (names : List (List Byte)) : List Entry :=
  (List.range names.length).map fun i => (i + 1, refOf names i)

def entryHash (hash : List Byte → BitVec 64) (names : List (List Byte)) (e : Entry) : Nat :=
  (hash (names.getD (e.1 - 1) [])).toNat

@[simp]
theorem length_entries (names : List (List Byte)) : (entries names).length = names.length := by
  simp [entries]

theorem mem_entries {e : Entry} :
    e ∈ entries names ↔ ∃ i < names.length, e = (i + 1, refOf names i) := by
  simp only [entries, List.mem_map, List.mem_range, @eq_comm _ e]

theorem refOf_append {i : Nat} (h : i < names.length) (b : List Byte) :
    refOf (names ++ [b]) i = refOf names i := by
  rw [refOf, refOf, List.take_append_of_le_length (Nat.le_of_lt h), List.getD_append _ _ _ _ h]

theorem refOf_length (names : List (List Byte)) (b : List Byte) :
    refOf (names ++ [b]) names.length = ⟨names.flatten.length, b.length⟩ := by
  simp [refOf]

theorem entries_concat (names : List (List Byte)) (b : List Byte) :
    entries (names ++ [b]) =
      entries names ++ [(names.length + 1, ⟨names.flatten.length, b.length⟩)] := by
  rw [entries, List.length_append, List.length_singleton, List.range_succ, List.map_append,
    List.map_singleton, refOf_length]
  congr 1
  refine List.map_congr_left fun i hi => ?_
  rw [refOf_append (List.mem_range.mp hi)]

theorem entryHash_append {e : Entry} (h : e ∈ entries names) (b : List Byte) :
    entryHash hash (names ++ [b]) e = entryHash hash names e := by
  have ⟨i, hi, he⟩ := mem_entries.mp h
  rw [entryHash, entryHash, he, Nat.add_sub_cancel, List.getD_append _ _ _ _ hi]

end Entries

-- The table holds the symbols, in the order of their IDs, and at least half of it is empty.
structure Tabled (hash : List Byte → BitVec 64) (s : SymbolInterner) (names : List (List Byte)) :
    Prop where
  size : ∃ k, s.ids.length = 2 ^ (k + 1)
  room : 2 * names.length ≤ s.ids.length
  next : s.nextID = names.length + 1
  table : Probe.Table (entryHash hash names) (slotsOf s.ids s.refs) (entries names)

-- The symbols that were interned, all different, in the order of their IDs. The table is made when it
-- is needed first.
structure Holds (hash : List Byte → BitVec 64) (s : SymbolInterner) (names : List (List Byte)) :
    Prop where
  arena : s.arena = none → names = []
  buf : (s.arena.getD .new).buf = names.flatten
  limit : (s.arena.getD .new).maxBytes = maxUint32
  small : names.flatten.length ≤ maxUint32
  starts : s.starts = Ragged.starts names
  lengths : s.lengths = names.map List.length
  count : s.count = names.length
  nodup : names.Nodup
  refs : s.refs.length = s.ids.length
  table : s.ids.length = 0 ∧ names = [] ∨ s.Tabled hash names

namespace Holds

variable (h : s.Holds hash names)
include h

theorem bytes_refOf {i : Nat} (hi : i < names.length) :
    (s.arena.getD .new).bytes (refOf names i) = some names[i] := by
  have hname := List.getElem?_eq_getElem hi
  have hle := Ragged.le_length_flatten hname
  rw [ByteArena.bytes, h.buf, refOf, List.getD_eq_getElem _ _ hi, if_neg (Nat.not_lt.mpr hle)]
  exact congrArg some (Ragged.take_drop_flatten hname)

theorem text_refOf {i : Nat} (hi : i < names.length) : text s.arena (refOf names i) = names[i] := by
  have hbytes := h.bytes_refOf hi
  cases ha : s.arena
  case none =>
    rw [h.arena ha] at hi
    exact absurd hi (Nat.not_lt_zero i)
  case some a =>
    rw [ha] at hbytes
    rw [text, Option.bind_some, show a.bytes (refOf names i) = some names[i] from hbytes,
      Option.getD_some]

theorem bytes_eq (id : Nat) : s.bytes id = if id = 0 then none else names[id - 1]? := by
  rw [SymbolInterner.bytes, h.starts, Ragged.length_starts]
  by_cases hid : id = 0
  case pos => simp [hid]
  case neg =>
    rw [if_neg hid]
    by_cases hlt : names.length < id
    case pos => rw [if_pos (.inr hlt), List.getElem?_eq_none (by omega)]
    case neg =>
      have hi : id - 1 < names.length := by omega
      have href : (⟨(Ragged.starts names).getD (id - 1) 0, s.lengths.getD (id - 1) 0⟩ : ArenaRef) =
          refOf names (id - 1) := by
        rw [refOf, h.lengths, List.getD_eq_getElem?_getD, Ragged.getElem?_starts hi, Option.getD_some,
          List.getD_eq_getElem _ _ (by simpa using hi), List.getElem_map, List.getD_eq_getElem _ _ hi]
      have hbytes := h.bytes_refOf hi
      rw [if_neg (by rintro (h | h); exacts [hid h, hlt h]), href, List.getElem?_eq_getElem hi]
      cases ha : s.arena
      case none =>
        rw [h.arena ha] at hi
        exact absurd hi (Nat.not_lt_zero _)
      case some a =>
        rw [ha] at hbytes
        exact hbytes

theorem find_cases (ht : s.Tabled hash names) (b : List Byte) :
    b ∈ names ∧ s.find hash b = .found (names.idxOf b + 1) ∨
    b ∉ names ∧ ∃ slot, s.find hash b = .empty slot ∧
      Probe.find (slotsOf s.ids s.refs) (fun e => text s.arena e.2 == b) (hash b).toNat =
        .vacant slot := by
  have ⟨k, hk⟩ := ht.size
  have hroom : (entries names).length < (slotsOf s.ids s.refs).length := by
    have := ht.room
    have := Nat.two_pow_pos k
    rw [length_entries, length_slotsOf h.refs]
    omega
  have hfind := probe_home hash h.refs hk (fun ref => text s.arena ref == b) b
  have same {i : Nat} (hi : i < names.length) :
      (text s.arena (refOf names i) == b) = true ↔ names[i] = b := by
    rw [h.text_refOf hi, beq_iff_eq]
  have hhash : ∀ e ∈ entries names, (text s.arena e.2 == b) = true →
      entryHash hash names e = (hash b).toNat := by
    intro e he hsame
    have ⟨i, hi, heq⟩ := mem_entries.mp he
    rw [heq, same hi] at hsame
    rw [entryHash, heq, Nat.add_sub_cancel, List.getD_eq_getElem _ _ hi, hsame]
  rcases ht.table.find_cases hroom hhash with ⟨e, he, hsame, hf⟩ | ⟨hnone, slot, hf⟩
  case inl =>
    have ⟨i, hi, heq⟩ := mem_entries.mp he
    rw [heq, same hi] at hsame
    rw [hf, heq] at hfind
    refine .inl ⟨hsame ▸ List.getElem_mem hi, hfind.trans ?_⟩
    rw [← hsame, h.nodup.idxOf_getElem]
  case inr =>
    rw [hf] at hfind
    refine .inr ⟨fun hb => ?_, slot, hfind, hf⟩
    have ⟨i, hi, hget⟩ := List.mem_iff_getElem.mp hb
    have := hnone _ (mem_entries.mpr ⟨i, hi, rfl⟩)
    rw [(same hi).mpr hget] at this
    cases this

theorem lookup_eq (b : List Byte) :
    s.lookup hash b = some (if b ∈ names then some (names.idxOf b + 1) else none) := by
  rw [lookup]
  rcases h.table with ⟨hempty, rfl⟩ | ht
  case inl => rw [if_pos hempty]; simp
  case inr =>
    have ⟨k, hk⟩ := ht.size
    rw [if_neg (by rw [hk]; exact (Nat.two_pow_pos _).ne')]
    rcases h.find_cases ht b with ⟨hb, hf⟩ | ⟨hb, slot, hf, _⟩
    case inl => rw [hf, if_pos hb]
    case inr => rw [hf, if_neg hb]

end Holds

def internName (names : List (List Byte)) (b : List Byte) : List (List Byte) × Option Nat :=
  if b ∈ names then (names, some (names.idxOf b + 1))
  else if b ≠ [] ∧ maxUint32 < names.flatten.length + b.length then (names, none)
  else (names ++ [b], some (names.length + 1))

section Append

variable {a : ByteArena}

theorem append_eq (hbuf : a.buf = names.flatten) (hmax : a.maxBytes = maxUint32)
    (hsmall : names.flatten.length ≤ maxUint32) (b : List Byte) :
    a.append b =
      if b ≠ [] ∧ maxUint32 < names.flatten.length + b.length then none
      else some ({ a with buf := names.flatten ++ b }, ⟨names.flatten.length, b.length⟩) := by
  have hlimit : a.limit = maxUint32 := by
    rw [ByteArena.limit, hmax, if_neg (by decide)]
  have hoff : names.flatten.length % 2 ^ 32 = names.flatten.length := by
    simp only [maxUint32] at hsmall
    exact Nat.mod_eq_of_lt (by omega)
  rw [ByteArena.append, hbuf, hlimit, hoff]
  cases b
  case nil => simp [← hbuf]
  case cons c b =>
    simp only [List.length_cons, Nat.succ_ne_zero, if_false, ne_eq, reduceCtorEq, not_false_eq_true,
      true_and]
    split
    case isTrue => rfl
    case isFalse hfits =>
      simp only [maxUint32] at hfits
      rw [Nat.mod_eq_of_lt (by omega)]

end Append

namespace Holds

variable (h : s.Holds hash names)
include h

theorem insert_eq (ht : s.Tabled hash names) (hb : b ∉ names) {slot : Nat}
    (hf : Probe.find (slotsOf s.ids s.refs) (fun e => text s.arena e.2 == b) (hash b).toNat =
      .vacant slot) (hroom : names.length * 2 < s.ids.length) :
    (s.insert slot b).2 = (internName names b).2 ∧
      (s.insert slot b).1.Holds hash (internName names b).1 := by
  rw [internName, if_neg hb, insert, append_eq h.buf h.limit h.small]
  by_cases hfull : b ≠ [] ∧ maxUint32 < names.flatten.length + b.length
  case pos =>
    rw [if_pos hfull, if_pos hfull]
    exact ⟨rfl, h⟩
  case neg =>
    rw [if_neg hfull, if_neg hfull]
    have ⟨k, hk⟩ := ht.size
    have hflat : (names ++ [b]).flatten = names.flatten ++ b := by
      rw [List.flatten_append, List.flatten_singleton]
    have hsmall : (names ++ [b]).flatten.length ≤ maxUint32 := by
      rw [hflat, List.length_append]
      by_cases hnil : b = []
      case pos => simpa [hnil] using h.small
      case neg => exact Nat.le_of_not_lt fun hlt => hfull ⟨hnil, hlt⟩
    have hnodup : (names ++ [b]).Nodup := List.concat_eq_append ▸ h.nodup.concat hb
    have hnext : (names.length + 1 + 1) % 2 ^ 32 = (names ++ [b]).length + 1 := by
      have := length_lt_of_small hnodup hsmall
      rw [List.length_append, List.length_singleton] at this ⊢
      exact Nat.mod_eq_of_lt this
    have hlast : entryHash hash (names ++ [b])
        (names.length + 1, ⟨names.flatten.length, b.length⟩) = (hash b).toNat := by
      simp [entryHash]
    have htable : Probe.Table (entryHash hash (names ++ [b]))
        (slotsOf (s.ids.set slot (names.length + 1))
          (s.refs.set slot ⟨names.flatten.length, b.length⟩)) (entries (names ++ [b])) := by
      rw [slotsOf_set (Nat.succ_ne_zero _), entries_concat]
      rw [← hlast] at hf
      exact (ht.table.congr fun e he => entryHash_append he b).insert hf
    refine ⟨congrArg some ht.next, ?_⟩
    rw [ht.next]
    exact {
      arena := fun hn => nomatch hn
      buf := hflat.symm
      limit := h.limit
      small := hsmall
      starts := by rw [Ragged.starts_concat, h.starts]
      lengths := by rw [h.lengths, List.map_append, List.map_singleton]
      count := by rw [h.count, List.length_append, List.length_singleton]
      nodup := hnodup
      refs := by simpa using h.refs
      table := .inr {
        size := ⟨k, by simpa using hk⟩
        room := by
          have : 2 ^ (k + 1) = 2 * 2 ^ k := Nat.pow_succ'
          simp only [List.length_append, List.length_singleton, List.length_set]
          omega
        next := hnext
        table := htable } }

end Holds

section Grow

variable {ids : List Nat} {refs : List ArenaRef} {arena : Option ByteArena} {size : Nat}

theorem slotsOf_eq_map (ids : List Nat) (refs : List ArenaRef) :
    slotsOf ids refs = (ids.zip refs).map fun e => if e.1 = 0 then none else some e := by
  simp [slotsOf, List.zip, List.map_zipWith]

structure Moved (hash : Entry → Nat) (size : Nat) (moved : List Entry)
    (slots : List Nat × List ArenaRef) : Prop where
  ids : slots.1.length = size
  refs : slots.2.length = size
  table : Probe.Table hash (slotsOf slots.1 slots.2) moved

theorem moved_empty (hash : Entry → Nat) (size : Nat) :
    Moved hash size [] (List.replicate size 0, List.replicate size ⟨0, 0⟩) where
  ids := List.length_replicate
  refs := List.length_replicate
  table := by
    rw [slotsOf_replicate _ _ List.length_replicate]
    exact Probe.table_replicate hash size

variable {h : Entry → Nat} {moved : List Entry} {slots : List Nat × List ArenaRef}

theorem Moved.rehash (hm : Moved h size moved slots) {k : Nat} (hk : size = 2 ^ k) {e : Entry}
    (he : e.1 ≠ 0) (hhash : h e = (hash (text arena e.2)).toNat) (hroom : moved.length < size) :
    ∃ slots', rehash hash arena slots e = some slots' ∧ Moved h size (moved ++ [e]) slots' := by
  obtain ⟨ids, refs⟩ := slots
  obtain ⟨id, ref⟩ := e
  have hids : ids.length = size := hm.ids
  have hrefs : refs.length = ids.length := hm.refs.trans hids.symm
  have hprobe := probe_home hash hrefs (hids.trans hk) (fun _ => false) (text arena ref)
  have hcases := @Probe.Table.find_cases _ _ (fun _ => false) _ _ hm.table
    (by rw [length_slotsOf hrefs, hids]; exact hroom) (h (id, ref)) (fun _ _ hfalse => nomatch hfalse)
  rcases hcases with ⟨_, _, hfalse, _⟩ | ⟨_, slot, hf⟩
  case inl => cases hfalse
  case inr =>
    rw [← hhash, hf] at hprobe
    refine ⟨(ids.set slot id, refs.set slot ref), ?_, ?_, ?_, ?_⟩
    · simp only [SymbolInterner.rehash, if_neg he, hprobe]
    · simpa using hids
    · simpa using hm.refs
    · rw [slotsOf_set he]
      exact hm.table.insert hf

theorem Moved.foldlM {k : Nat} (hk : size = 2 ^ k) {es : List Entry} (hm : Moved h size moved slots)
    (hhash : ∀ e ∈ es, e.1 ≠ 0 → h e = (hash (text arena e.2)).toNat)
    (hroom : (moved ++ es.filter (·.1 ≠ 0)).length < size) :
    ∃ slots', es.foldlM (SymbolInterner.rehash hash arena) slots = some slots' ∧
      Moved h size (moved ++ es.filter (·.1 ≠ 0)) slots' := by
  induction es generalizing moved slots
  case nil => exact ⟨slots, rfl, by simpa using hm⟩
  case cons e es ih =>
    have ⟨hhead, htail⟩ := List.forall_mem_cons.mp hhash
    by_cases he : e.1 = 0
    case pos =>
      have hstep : SymbolInterner.rehash hash arena slots e = some slots := by
        simp only [SymbolInterner.rehash, he, if_true]
      rw [List.filter_cons_of_neg (by simpa using he)] at hroom ⊢
      rw [List.foldlM_cons, hstep]
      exact ih hm htail hroom
    case neg =>
      rw [List.filter_cons_of_pos (by simpa using he), List.append_cons] at hroom ⊢
      have hlt : moved.length < size := by
        simp only [List.length_append, List.length_singleton] at hroom
        omega
      have ⟨slots', hstep, hm'⟩ := hm.rehash hk he (hhead he) hlt
      rw [List.foldlM_cons, hstep]
      exact ih hm' htail hroom

theorem Holds.grow (h : s.Holds hash names) (ht : s.Tabled hash names) :
    ∃ s', s.grow hash = some s' ∧ s'.Holds hash names ∧ s'.Tabled hash names ∧
      s'.ids.length = 2 * s.ids.length ∧ s'.count = s.count ∧ s'.arena = s.arena := by
  obtain ⟨k, hk⟩ := ht.size
  have hsize : s.ids.length * 2 = 2 ^ (k + 2) := by rw [hk, ← Nat.pow_succ]
  have hpos := Nat.two_pow_pos (k + 1)
  have hroom := ht.room
  have hmem (e : Entry) : e ∈ (s.ids.zip s.refs).filter (·.1 ≠ 0) ↔ e ∈ entries names := by
    rw [← ht.table.mem, slotsOf_eq_map, List.mem_filter, List.mem_map]
    constructor
    · rintro ⟨he, hne⟩
      exact ⟨e, he, if_neg (by simpa using hne)⟩
    · rintro ⟨e', he', heq⟩
      obtain ⟨hne, heq⟩ := Checked.ite_eq_of_ne heq nofun
      cases heq
      exact ⟨he', by simpa using hne⟩
  have hlen : ((s.ids.zip s.refs).filter (·.1 ≠ 0)).length = (entries names).length := by
    rw [← ht.table.filled, Probe.filled, slotsOf_eq_map, List.countP_map,
      List.countP_eq_length_filter]
    congr 1
    refine List.filter_congr fun e _ => ?_
    by_cases he : e.1 = 0 <;> simp [he]
  have hhash : ∀ e ∈ s.ids.zip s.refs, e.1 ≠ 0 →
      entryHash hash names e = (hash (text s.arena e.2)).toNat := by
    intro e he hne
    obtain ⟨i, hi, heq⟩ := mem_entries.mp ((hmem e).mp (List.mem_filter.mpr ⟨he, by simpa using hne⟩))
    rw [entryHash, heq, h.text_refOf hi, Nat.add_sub_cancel, List.getD_eq_getElem _ _ hi]
  obtain ⟨slots, hfold, hm⟩ := (moved_empty (entryHash hash names) (s.ids.length * 2)).foldlM hsize hhash
    (by rw [List.nil_append, hlen, length_entries]; omega)
  rw [List.nil_append] at hm
  have htable : Probe.Table (entryHash hash names) (slotsOf slots.1 slots.2) (entries names) :=
    ⟨hm.table.placed, fun e => (hm.table.mem e).trans (hmem e), hm.table.filled.trans hlen⟩
  have htabled : Tabled hash { s with ids := slots.1, refs := slots.2 } names :=
    ⟨⟨k + 1, hm.ids.trans hsize⟩, by rw [hm.ids]; omega, ht.next, htable⟩
  refine ⟨{ s with ids := slots.1, refs := slots.2 }, ?_, ?_, htabled, ?_, rfl, rfl⟩
  · rw [SymbolInterner.grow, hfold]
    rfl
  · exact ⟨h.arena, h.buf, h.limit, h.small, h.starts, h.lengths, h.count, h.nodup,
      hm.refs.trans hm.ids.symm, .inr htabled⟩
  · exact hm.ids.trans (Nat.mul_comm ..)

end Grow

section Intern

variable (h : s.Holds hash names)
include h

theorem Holds.internLoop_eq (ht : s.Tabled hash names) (b : List Byte) (rounds : Nat) :
    ∃ s', internLoop hash b (rounds + 2) s = some (s', (internName names b).2) ∧
      s'.Holds hash (internName names b).1 := by
  rw [internLoop]
  rcases h.find_cases ht b with ⟨hb, hf⟩ | ⟨hb, slot, hf, hv⟩
  case inl =>
    rw [internName, if_pos hb]
    simp only [hf]
    exact ⟨s, rfl, h⟩
  case inr =>
    simp only [hf]
    split
    case isTrue hroom =>
      rw [h.count] at hroom
      have ⟨hid, hs⟩ := h.insert_eq ht hb hv hroom
      exact ⟨(s.insert slot b).1, by rw [← hid], hs⟩
    case isFalse =>
      -- One round of growing is enough, since half of the slots were in use.
      have ⟨s', hgrow, h', ht', hlen, hcount, _⟩ := h.grow ht
      rw [hgrow]
      rcases h'.find_cases ht' b with ⟨hb', _⟩ | ⟨_, slot', hf', hv'⟩
      case inl => exact absurd hb' hb
      case inr =>
        have ⟨k, hk⟩ := ht.size
        have hpos := Nat.two_pow_pos (k + 1)
        have hroom : names.length * 2 < s'.ids.length := by
          have := ht.room
          omega
        have ⟨hid, hs⟩ := h'.insert_eq ht' hb hv' hroom
        refine ⟨(s'.insert slot' b).1, ?_, hs⟩
        rw [Option.bind_eq_bind, Option.bind_some, internLoop]
        simp only [hf', if_pos (show s'.count * 2 < s'.ids.length by rw [h'.count]; exact hroom)]
        rw [← hid]

theorem Holds.intern_eq (b : List Byte) :
    ∃ s', s.intern hash b = some (s', (internName names b).2) ∧
      s'.Holds hash (internName names b).1 := by
  rw [intern]
  rcases h.table with ⟨hempty, hnames⟩ | ht
  case inl =>
    subst hnames
    have hrefs : s.refs = [] := List.length_eq_zero_iff.mp (h.refs.trans hempty)
    rw [if_pos hempty]
    have htabled : Tabled hash { s.initTable 4 with arena := some (s.arena.getD .new) } [] := by
      refine ⟨⟨1, rfl⟩, Nat.zero_le _, rfl, ?_⟩
      rw [initTable, slotsOf_replicate _ _ List.length_replicate]
      exact Probe.table_replicate _ 4
    have holds : Holds hash { s.initTable 4 with arena := some (s.arena.getD .new) } [] :=
      ⟨fun _ => rfl, h.buf, h.limit, h.small, h.starts, h.lengths, h.count, h.nodup, rfl, .inr htabled⟩
    exact holds.internLoop_eq htabled b _
  case inr =>
    have ⟨k, hk⟩ := ht.size
    rw [if_neg (by rw [hk]; exact (Nat.two_pow_pos _).ne')]
    have htabled : Tabled hash { s with arena := some (s.arena.getD .new) } names :=
      ⟨ht.size, ht.room, ht.next, ht.table⟩
    have holds : Holds hash { s with arena := some (s.arena.getD .new) } names :=
      ⟨(nomatch ·), h.buf, h.limit, h.small, h.starts, h.lengths, h.count, h.nodup, h.refs,
        .inr htabled⟩
    exact holds.internLoop_eq htabled b _

theorem Holds.reset : s.reset.Holds hash [] := by
  have hbuf : (s.reset.arena.getD .new).buf = [] := by
    rw [SymbolInterner.reset]
    cases s.arena <;> rfl
  have hlimit : (s.reset.arena.getD .new).maxBytes = maxUint32 := by
    have := h.limit
    rw [SymbolInterner.reset]
    cases ha : s.arena
    case none => rfl
    case some a => rwa [ha] at this
  refine ⟨fun _ => rfl, hbuf, hlimit, Nat.zero_le _, rfl, rfl, rfl, .nil, ?_, ?_⟩
  · simpa [SymbolInterner.reset] using h.refs
  rcases h.table with ⟨hempty, _⟩ | ht
  case inl => exact .inl ⟨by simpa [SymbolInterner.reset] using hempty, rfl⟩
  case inr =>
    have ⟨k, hk⟩ := ht.size
    refine .inr ⟨⟨k, by simpa [SymbolInterner.reset] using hk⟩, Nat.zero_le _, rfl, ?_⟩
    have hzero : s.reset.ids = List.replicate s.ids.length 0 := by
      simp [SymbolInterner.reset]
    rw [hzero, slotsOf_replicate _ s.reset.refs h.refs]
    exact Probe.table_replicate _ _

end Intern

theorem holds_zero (hash : List Byte → BitVec 64) : zero.Holds hash [] :=
  ⟨fun _ => rfl, rfl, rfl, Nat.zero_le _, rfl, rfl, rfl, .nil, rfl, .inl ⟨rfl, rfl⟩⟩

theorem exists_nextPow2 (n : Nat) : ∃ k, max (nextPow2 n) 4 = 2 ^ (k + 1) := by
  rw [nextPow2]
  split
  case isTrue => exact ⟨1, rfl⟩
  case isFalse =>
    cases (n - 1).log2
    case zero => exact ⟨1, rfl⟩
    case succ k =>
      refine ⟨k + 1, Nat.max_eq_left ?_⟩
      exact Nat.pow_le_pow_right (n := 2) (by decide) (Nat.le_add_left 2 k)

theorem holds_new (hash : List Byte → BitVec 64) (hint : Nat) : (new hint).Holds hash [] := by
  have hlen : (new hint).ids.length = max (nextPow2 (2 * hint)) 4 := List.length_replicate
  refine ⟨fun _ => rfl, rfl, rfl, Nat.zero_le _, rfl, rfl, rfl, .nil, ?_,
    .inr ⟨?_, Nat.zero_le _, rfl, ?_⟩⟩
  · simp [new]
  · rw [hlen]
    exact exists_nextPow2 _
  · rw [new, slotsOf_replicate _ _ List.length_replicate]
    exact Probe.table_replicate _ _

def stepNames (names : List (List Byte)) : Op → List (List Byte) × Answer
  | .intern b => ((internName names b).1, .symbol (internName names b).2)
  | .lookup b => (names, .found (if b ∈ names then some (names.idxOf b + 1) else none))
  | .bytes id => (names, .text (if id = 0 then none else names[id - 1]?))
  | .reset => ([], .done)

def runNames (names : List (List Byte)) : List Op → List (List Byte) × List Answer
  | [] => (names, [])
  | op :: ops =>
    ((runNames (stepNames names op).1 ops).1,
      (stepNames names op).2 :: (runNames (stepNames names op).1 ops).2)

theorem Holds.step_eq (h : s.Holds hash names) (op : Op) :
    ∃ s', s.step hash op = some (s', (stepNames names op).2) ∧
      s'.Holds hash (stepNames names op).1 := by
  cases op
  case intern b =>
    have ⟨s', hs', h'⟩ := h.intern_eq b
    exact ⟨s', by rw [step, hs']; rfl, h'⟩
  case lookup b => exact ⟨s, by rw [step, h.lookup_eq]; rfl, h⟩
  case bytes id => exact ⟨s, by rw [step, h.bytes_eq]; rfl, h⟩
  case reset => exact ⟨s.reset, rfl, h.reset⟩

theorem Holds.run_eq (h : s.Holds hash names) (ops : List Op) :
    ∃ s', s.run hash ops = some (s', (runNames names ops).2) ∧
      s'.Holds hash (runNames names ops).1 := by
  induction ops generalizing s names
  case nil => exact ⟨s, rfl, h⟩
  case cons op ops ih =>
    have ⟨s₁, hstep, h₁⟩ := h.step_eq op
    have ⟨s₂, hrun, h₂⟩ := ih h₁
    exact ⟨s₂, by simp [run, hstep, hrun, runNames], h₂⟩

theorem holds_start (hash : List Byte → BitVec 64) : ∀ hint, (start hint).Holds hash []
  | none => holds_zero hash
  | some hint => holds_new hash hint

section Names

variable {id : Nat}

theorem getElem?_internName (h : (internName names b).2 = some id) :
    names <+: (internName names b).1 ∧ id ≠ 0 ∧ (internName names b).1[id - 1]? = some b := by
  revert h
  fun_cases internName names b
  all_goals intro h; cases h
  case case1 hb => exact ⟨List.prefix_refl _, Nat.succ_ne_zero _, List.getElem?_idxOf hb⟩
  case case3 => exact ⟨List.prefix_append .., Nat.succ_ne_zero _, by simp⟩

theorem idxOf_eq_some_iff (h : names.Nodup) :
    (if b ∈ names then some (names.idxOf b + 1) else none) = some id ↔
      id ≠ 0 ∧ names[id - 1]? = some b := by
  split
  case isTrue hb =>
    rw [Option.some.injEq]
    constructor
    · rintro rfl
      exact ⟨Nat.succ_ne_zero _, List.getElem?_idxOf hb⟩
    · rintro ⟨hne, hget⟩
      have ⟨hlt, hget⟩ := List.getElem?_eq_some_iff.mp hget
      rw [← hget, h.idxOf_getElem]
      omega
  case isFalse hb =>
    simp only [reduceCtorEq, false_iff]
    exact fun ⟨_, hget⟩ => hb (List.mem_of_getElem? hget)

theorem nodup_internName (h : names.Nodup) (b : List Byte) : (internName names b).1.Nodup := by
  fun_cases internName names b
  case case3 hb _ => exact List.concat_eq_append ▸ h.concat hb
  all_goals exact h

theorem prefix_internName (names : List (List Byte)) (b : List Byte) :
    names <+: (internName names b).1 := by
  fun_cases internName names b
  case case3 => exact List.prefix_append ..
  all_goals exact List.prefix_refl _

theorem prefix_runNames {ops : List Op} (h : Op.reset ∉ ops) : names <+: (runNames names ops).1 := by
  induction ops generalizing names
  case nil => exact List.prefix_refl _
  case cons op ops ih =>
    rw [List.mem_cons, not_or] at h
    have ⟨hop, hops⟩ := h
    refine List.IsPrefix.trans ?_ (ih hops)
    cases op
    case intern b => exact prefix_internName names b
    case lookup => exact List.prefix_refl _
    case bytes => exact List.prefix_refl _
    case reset => exact absurd rfl hop

theorem mem_internName (names : List (List Byte)) (b c : List Byte) :
    c ∈ (internName names b).1 ↔ c ∈ names ∨ c = b ∧ ∃ id, (internName names b).2 = some id := by
  fun_cases internName names b
  case case1 hb =>
    simp only [Option.some.injEq, exists_eq', and_true]
    exact ⟨.inl, fun h => h.elim id fun he => he ▸ hb⟩
  all_goals simp

-- A symbol was interned by one of the calls, and there was no reset since.
def Interned (c : List Byte) (ops : List Op) (answers : List Answer) : Prop :=
  ∃ i id, ops[i]? = some (.intern c) ∧ answers[i]? = some (.symbol (some id)) ∧
    ∀ j : Nat, i < j → ops[j]? ≠ some .reset

theorem interned_cons {c : List Byte} {op : Op} {ops : List Op} {answer : Answer}
    {answers : List Answer} :
    Interned c (op :: ops) (answer :: answers) ↔
      Interned c ops answers ∨
      op = .intern c ∧ (∃ id, answer = .symbol (some id)) ∧ .reset ∉ ops := by
  have later (i : Nat) : (∀ j : Nat, i + 1 < j → (op :: ops)[j]? ≠ some .reset) ↔
      ∀ j : Nat, i < j → ops[j]? ≠ some .reset := by
    constructor
    · intro h j hj
      exact h (j + 1) (Nat.succ_lt_succ hj)
    · intro h j hj
      cases j
      case zero => omega
      case succ j => exact h j (Nat.lt_of_succ_lt_succ hj)
  have first : (∀ j : Nat, 0 < j → (op :: ops)[j]? ≠ some .reset) ↔ .reset ∉ ops := by
    rw [List.mem_iff_getElem?, not_exists]
    constructor
    · exact fun h j => h (j + 1) (Nat.succ_pos j)
    · intro h j hj
      cases j
      case zero => omega
      case succ j => exact h j
  constructor
  · rintro ⟨i, id, hop, hanswer, hlater⟩
    cases i
    case zero =>
      cases hop
      cases hanswer
      exact .inr ⟨rfl, ⟨id, rfl⟩, first.mp hlater⟩
    case succ i => exact .inl ⟨i, id, hop, hanswer, (later i).mp hlater⟩
  · rintro (⟨i, id, hop, hanswer, hlater⟩ | ⟨rfl, ⟨id, rfl⟩, hlater⟩)
    · exact ⟨i + 1, id, hop, hanswer, (later i).mpr hlater⟩
    · exact ⟨0, id, rfl, rfl, first.mpr hlater⟩

theorem mem_runNames (names : List (List Byte)) (ops : List Op) (c : List Byte) :
    c ∈ (runNames names ops).1 ↔
      c ∈ names ∧ .reset ∉ ops ∨ Interned c ops (runNames names ops).2 := by
  induction ops generalizing names
  case nil => simp [runNames, Interned]
  case cons op ops ih =>
    rw [runNames, ih, interned_cons, List.mem_cons, not_or]
    cases op
    case intern b =>
      simp only [stepNames, mem_internName, Op.intern.injEq, Answer.symbol.injEq, reduceCtorEq,
        not_false_eq_true, true_and]
      constructor
      · rintro (⟨hc | ⟨rfl, hid⟩, hops⟩ | hi)
        · exact .inl ⟨hc, hops⟩
        · exact .inr (.inr ⟨rfl, hid, hops⟩)
        · exact .inr (.inl hi)
      · rintro (⟨hc, hops⟩ | hi | ⟨rfl, hid, hops⟩)
        · exact .inl ⟨.inl hc, hops⟩
        · exact .inr hi
        · exact .inl ⟨.inr ⟨rfl, hid⟩, hops⟩
    case lookup => simp [stepNames]
    case bytes => simp [stepNames]
    case reset => simp [stepNames]

end Names

-- What an interner holds after some calls. The symbols are those that were interned since the last
-- reset, and their IDs are their positions.
structure Exact (hash : List Byte → BitVec 64) (s : SymbolInterner) (ops : List Op)
    (answers : List Answer) (names : List (List Byte)) : Prop where
  nodup : names.Nodup
  mem : ∀ b, b ∈ names ↔ Interned b ops answers
  len : s.len = names.length
  bytes : ∀ id, s.bytes id = if id = 0 then none else names[id - 1]?
  lookup : ∀ b, ∃ found, s.lookup hash b = some found ∧
    ∀ id, found = some id ↔ id ≠ 0 ∧ names[id - 1]? = some b

-- Interning a symbol either gives it an ID, which later calls confirm until the next reset, or fails
-- because there is no room for its bytes and then changes no answer of later calls.
structure Stable (hash : List Byte → BitVec 64) (s : SymbolInterner) (names : List (List Byte))
    (b : List Byte) (s' : SymbolInterner) (id : Option Nat) : Prop where
  known : ∀ i, id = some i → b ∈ names → names[i - 1]? = some b
  fresh : ∀ i, id = some i → b ∉ names → i = names.length + 1
  bytes : ∀ i, id = some i → s'.bytes i = some b
  same_iff : ∀ i, id = some i → ∀ ops, .reset ∉ ops → ∀ s₁ answers, s'.run hash ops = some (s₁, answers) →
    ∀ b' s₂ i', s₁.intern hash b' = some (s₂, some i') → (i' = i ↔ b' = b)
  failed : id = none → b ∉ names ∧ maxUint32 < names.flatten.length + b.length ∧
    s'.len = s.len ∧ s'.byteLen = s.byteLen ∧
    ∀ ops, (s'.run hash ops).map (·.2) = (s.run hash ops).map (·.2)

theorem Holds.byteLen_eq (h : s.Holds hash names) : s.byteLen = names.flatten.length := by
  have hbuf := h.buf
  have hsmall := h.small
  rw [byteLen]
  cases ha : s.arena
  case none =>
    rw [h.arena ha]
    rfl
  case some a =>
    rw [ha] at hbuf
    simp only [maxUint32] at hsmall
    simp only [show a.buf = names.flatten from hbuf]
    exact Nat.mod_eq_of_lt (by omega)

theorem Holds.stable (h : s.Holds hash names) {s' : SymbolInterner} {id : Option Nat}
    (hi : s.intern hash b = some (s', id)) : Stable hash s names b s' id := by
  have ⟨s'', hs', h'⟩ := h.intern_eq b
  rw [hi] at hs'
  cases hs'
  refine ⟨fun i hid hb => ?_, fun i hid hb => ?_, fun i hid => ?_, ?_, fun hid => ?_⟩
  · rw [internName, if_pos hb] at hid
    cases hid
    rw [Nat.add_sub_cancel]
    exact List.getElem?_idxOf hb
  · rw [internName, if_neg hb] at hid
    split at hid
    case isTrue => cases hid
    case isFalse => exact (Option.some.inj hid).symm
  · have ⟨_, hne, hget⟩ := getElem?_internName hid
    rw [h'.bytes_eq, if_neg hne, hget]
  · intro i hid ops hops s₁ answers hrun b' s₂ i' hintern
    have ⟨s₁', hrun', h₁⟩ := h'.run_eq ops
    rw [hrun] at hrun'
    cases hrun'
    have ⟨s₂', hintern', h₂⟩ := h₁.intern_eq b'
    rw [hintern] at hintern'
    have hid' : (internName (runNames (internName names b).1 ops).1 b').2 = some i' := by
      injection hintern' with heq
      exact (Prod.mk.inj heq).2.symm
    have ⟨_, hne, hget⟩ := getElem?_internName hid
    have ⟨hpre, hne', hget'⟩ := getElem?_internName hid'
    -- Both symbols are at their positions in the final list.
    have hfinal := Ragged.getElem?_of_prefix (List.IsPrefix.trans (prefix_runNames hops) hpre) hget
    constructor
    · rintro rfl
      rw [hget'] at hfinal
      exact Option.some.inj hfinal
    · rintro rfl
      have ⟨hlt, _⟩ := List.getElem?_eq_some_iff.mp hget'
      have := (List.getElem?_inj hlt (nodup_internName h₁.nodup b')).mp (hget'.trans hfinal.symm)
      omega
  · rw [internName] at hid
    split at hid
    case isTrue => cases hid
    case isFalse hb =>
      split at hid
      case isFalse => cases hid
      case isTrue hfull =>
        have hnames : (internName names b).1 = names := by rw [internName, if_neg hb, if_pos hfull]
        rw [hnames] at h'
        refine ⟨hb, hfull.2, ?_, ?_, fun ops => ?_⟩
        · rw [len, len, h'.count, h.count]
        · rw [h'.byteLen_eq, h.byteLen_eq]
        · have ⟨_, h₁, _⟩ := h.run_eq ops
          have ⟨_, h₂, _⟩ := h'.run_eq ops
          rw [h₁, h₂]
          rfl

-- Whatever the hash is, every sequence of calls ends with an interner that holds exactly the symbols
-- that were interned since the last reset, with the IDs from one on. The same is true of every further
-- symbol that is interned.
theorem run_exact (hash : List Byte → BitVec 64) (hint : Option Nat) (ops : List Op) :
    ∃ s answers names, (start hint).run hash ops = some (s, answers) ∧
      Exact hash s ops answers names ∧
      ∀ b, ∃ s' id, s.intern hash b = some (s', id) ∧ Stable hash s names b s' id := by
  have ⟨s, hrun, h⟩ := (holds_start hash hint).run_eq ops
  refine ⟨s, _, _, hrun, ⟨h.nodup, fun b => ?_, h.count, h.bytes_eq, fun b => ?_⟩, fun b => ?_⟩
  · rw [mem_runNames]
    simp
  · exact ⟨_, h.lookup_eq b, fun id => idxOf_eq_some_iff h.nodup⟩
  · have ⟨s', hs', _⟩ := h.intern_eq b
    exact ⟨s', _, hs', h.stable hs'⟩

end SymbolInterner
end NornRune
