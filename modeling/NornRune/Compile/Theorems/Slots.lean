import Mathlib.Data.List.Perm.Subperm
import NornRune.Lib.Ragged
import NornRune.Compile.Slots

open Bitplane Checked

namespace NornRune

-- Sharing a slot is safe: a slot is given to another row only when its value is not used any more.
structure Allocated (lastUses : List Nat) (live : List Bool) (n : Nat) (slots : List Nat)
    (peak : Nat) : Prop where
  length : slots.length = n
  slot : ∀ i < n, live.getD i false → slots.getD i 0 ≠ 0 ∧ slots.getD i 0 ≤ peak
  safe : ∀ i j, i < j → j < n → live.getD i false → live.getD j false →
    slots.getD i 0 = slots.getD j 0 → lastUses.getD i 0 ≤ j

-- What holds of the pool while the values of the rows in `active` are still used: a slot is free or
-- it is that of exactly one of these rows, and no free slot is before the word at which the search
-- starts.
structure SlotPool.Holds (pool : SlotPool) (n : Nat) (slots : List Nat) (active : Nat → Prop) :
    Prop where
  length : pool.free.length = wordCount n
  hint : ∀ b, bit pool.free b → pool.firstFreeWord ≤ b / 64
  free_lt : ∀ b, bit pool.free b → b < pool.peak
  slot : ∀ i, active i → slots.getD i 0 ≠ 0 ∧ slots.getD i 0 ≤ pool.peak
  taken : ∀ i, active i → bit pool.free (slots.getD i 0 - 1) = false
  distinct : ∀ i j, active i → active j → slots.getD i 0 = slots.getD j 0 → i = j
  used : ∀ b < pool.peak, bit pool.free b = false → ∃ i, active i ∧ slots.getD i 0 = b + 1

namespace SlotPool

variable {pool : SlotPool} {slots : List Nat} {n row : Nat} {active : Nat → Prop}

theorem Holds.congr {slots' : List Nat} {active' : Nat → Prop} (h : pool.Holds n slots active)
    (hslot : ∀ i, active i → slots'.getD i 0 = slots.getD i 0) (hiff : ∀ i, active' i ↔ active i) :
    pool.Holds n slots' active' := by
  obtain rfl : active' = active := funext fun i => propext (hiff i)
  refine ⟨h.length, h.hint, h.free_lt, fun i ha => ?_, fun i ha => ?_, fun i j ha ha' he => ?_,
    fun b hb hf => ?_⟩
  · rw [hslot i ha]
    exact h.slot i ha
  · rw [hslot i ha]
    exact h.taken i ha
  · rw [hslot i ha, hslot j ha'] at he
    exact h.distinct i j ha ha' he
  · have ⟨i, ha, he⟩ := h.used b hb hf
    exact ⟨i, ha, (hslot i ha).trans he⟩

theorem Holds.markSlotFree {i : Nat} (h : pool.Holds n slots active) (ha : active i)
    (hn : pool.peak ≤ n) :
    ∃ pool', pool.markSlotFree (slots.getD i 0) = .ok pool' ∧ pool'.peak = pool.peak ∧
      pool'.Holds n slots fun j => active j ∧ j ≠ i := by
  have ⟨h0, hle⟩ := h.slot i ha
  have hword : (slots.getD i 0 - 1) / 64 < pool.free.length := by
    rw [h.length]
    exact div_lt_wordCount (by omega)
  have hok : ¬(slots.getD i 0 = 0 ∨ pool.free.length ≤ (slots.getD i 0 - 1) / 64 ∨
      bit pool.free (slots.getD i 0 - 1)) := by
    rw [h.taken i ha, not_or, not_or, Nat.not_le]
    exact ⟨h0, hword, Bool.false_ne_true⟩
  have hbit := bit_setBit hword
  refine ⟨_, if_neg hok, rfl, (length_setBit ..).trans h.length, fun b hb => ?_, fun b hb => ?_,
    fun j hj => h.slot j hj.1, fun j hj => ?_, fun j k hj hk => h.distinct j k hj.1 hk.1,
    fun b hb hf => ?_⟩
  case refine_1 =>
    rw [hbit, Bool.or_eq_true, decide_eq_true_eq] at hb
    rcases hb with hb | rfl
    · exact Nat.le_trans (Nat.min_le_right ..) (h.hint b hb)
    · exact Nat.min_le_left ..
  case refine_2 =>
    rw [hbit, Bool.or_eq_true, decide_eq_true_eq] at hb
    rcases hb with hb | rfl
    · exact h.free_lt b hb
    · exact (by omega : slots.getD i 0 - 1 < pool.peak)
  case refine_3 =>
    rw [hbit, h.taken j hj.1, Bool.false_or, decide_eq_false_iff_not]
    intro he
    have := (h.slot j hj.1).1
    exact hj.2 (h.distinct j i hj.1 ha (by omega))
  case refine_4 =>
    rw [hbit, Bool.or_eq_false_iff, decide_eq_false_iff_not] at hf
    have ⟨j, hj, he⟩ := h.used b hb hf.1
    refine ⟨j, ⟨hj, ?_⟩, he⟩
    rintro rfl
    omega

theorem Holds.release {released : List Nat} (h : pool.Holds n slots active)
    (hrel : ∀ i ∈ released, active i) (hnodup : released.Nodup) (hn : pool.peak ≤ n) :
    ∃ pool', released.foldlM (fun pool i => pool.markSlotFree (slots.getD i 0)) pool = .ok pool' ∧
      pool'.peak = pool.peak ∧ pool'.Holds n slots fun j => active j ∧ j ∉ released := by
  induction released generalizing pool active
  case nil => exact ⟨pool, rfl, rfl, h.congr (fun _ _ => rfl) (by simp)⟩
  case cons i released ih =>
    have ⟨pool₁, h₁, hp₁, hh₁⟩ := h.markSlotFree (hrel i List.mem_cons_self) hn
    have hnd := List.nodup_cons.mp hnodup
    have ⟨pool₂, h₂, hp₂, hh₂⟩ := ih hh₁
      (fun j hj => ⟨hrel j (List.mem_cons_of_mem _ hj), fun he => hnd.1 (he ▸ hj)⟩) hnd.2 (hp₁ ▸ hn)
    refine ⟨pool₂, bind_eq_ok_iff.mpr ⟨pool₁, h₁, h₂⟩, hp₂.trans hp₁,
      hh₂.congr (fun _ _ => rfl) fun j => ?_⟩
    rw [List.mem_cons, not_or, and_assoc]

section

variable {pool' : SlotPool} {slot : Nat}

theorem Holds.insert (h : pool.Holds n slots active) (hlen : pool'.free.length = wordCount n)
    (hhint : ∀ b, bit pool'.free b → pool'.firstFreeWord ≤ b / 64)
    (hbit : ∀ b, bit pool'.free b = (bit pool.free b && decide (b ≠ slot)))
    (hpeak : ∀ b, b < pool'.peak ↔ b < pool.peak ∨ b = slot)
    (hfresh : ∀ i, active i → slots.getD i 0 ≠ slot + 1) (hrow : slots.getD row 0 = slot + 1) :
    pool'.Holds n slots fun j => active j ∨ j = row := by
  have hslot : slot < pool'.peak := (hpeak slot).mpr (.inr rfl)
  refine ⟨hlen, hhint, fun b hb => ?_, ?_, ?_, ?_, fun b hb hf => ?_⟩
  case refine_1 =>
    rw [hbit, Bool.and_eq_true] at hb
    exact (hpeak b).mpr (.inl (h.free_lt b hb.1))
  case refine_2 =>
    rintro i (ha | rfl)
    · have hs := h.slot i ha
      have := (hpeak (slots.getD i 0 - 1)).mpr (.inl (by omega))
      exact ⟨hs.1, by omega⟩
    · rw [hrow]
      exact ⟨Nat.succ_ne_zero _, hslot⟩
  case refine_3 =>
    rintro i (ha | rfl)
    · rw [hbit, h.taken i ha, Bool.false_and]
    · rw [hbit, hrow, Nat.add_sub_cancel, decide_eq_false (not_not_intro rfl), Bool.and_false]
  case refine_4 =>
    rintro i j (ha | rfl) (ha' | rfl) he
    · exact h.distinct i j ha ha' he
    · exact absurd (he.trans hrow) (hfresh i ha)
    · exact absurd (he.symm.trans hrow) (hfresh j ha')
    · rfl
  case refine_5 =>
    by_cases hb' : b = slot
    case pos => exact ⟨row, .inr rfl, hb' ▸ hrow⟩
    case neg =>
      rw [hbit, decide_eq_true hb', Bool.and_true] at hf
      have ⟨i, ha, he⟩ := h.used b (((hpeak b).mp hb).resolve_right hb') hf
      exact ⟨i, .inl ha, he⟩

end

-- The row gets a slot that none of the active rows has, and a new one only if all of them are taken.
theorem Holds.take (h : ∀ slot, pool.Holds n (slots ++ [slot]) active) (hlen : slots.length = row)
    (hmax : pool.peak < maxUint32) :
    ∃ pool' slot, pool.take = .ok (pool', slot) ∧
      (∀ i, active i → (slots ++ [slot]).getD i 0 ≠ slot) ∧
      (pool'.Holds n (slots ++ [slot]) fun j => active j ∨ j = row) ∧
      (pool'.peak = pool.peak ∨ pool'.peak = pool.peak + 1 ∧ ∀ b, bit pool'.free b = false) := by
  cases htake : lowest pool.free pool.firstFreeWord
  case some b =>
    have h := h (b + 1)
    have ⟨hfree, hmin⟩ := lowest_eq_some htake
    have hlt := h.free_lt b hfree
    have hfresh : ∀ i, active i → (slots ++ [b + 1]).getD i 0 ≠ b + 1 := fun i ha he => by
      have := h.taken i ha
      rw [he, Nat.add_sub_cancel, hfree] at this
      cases this
    have ht : pool.take = .ok ({ pool with
        free := clearBit pool.free b
        firstFreeWord :=
          if (clearBit pool.free b).getD (b / 64) 0#64 = 0#64 then b / 64 + 1 else b / 64 }, b + 1) := by
      rw [SlotPool.take, takeLowestFreeSlot, htake]
      rfl
    refine ⟨_, _, ht, hfresh, h.insert ((length_clearBit ..).trans h.length) (fun b' hb' => ?_)
      (bit_clearBit _ _) (fun b' => ?_) hfresh (Ragged.getD_concat_length hlen), .inl rfl⟩
    case refine_1 =>
      have hb : bit pool.free b' := by
        rw [bit_clearBit, Bool.and_eq_true] at hb'
        exact hb'.1
      have hle := hmin b' (h.hint b' hb) hb
      split
      case isFalse => exact hle
      case isTrue hz =>
        -- The word of the slot has no other free slot.
        rcases Nat.eq_or_lt_of_le hle with he | hlt
        · rw [bit, ← he, hz] at hb'
          simp at hb'
        · exact hlt
    case refine_2 => exact ⟨.inl, fun hb => hb.elim id (· ▸ hlt)⟩
  case none =>
    have h := h (pool.peak + 1)
    have hnone : ∀ b, bit pool.free b = false := fun b => by
      cases hb : bit pool.free b
      case false => rfl
      case true => rw [← hb, bit_of_lowest_eq_none htake (h.hint b hb)]
    have hfresh : ∀ i, active i → (slots ++ [pool.peak + 1]).getD i 0 ≠ pool.peak + 1 := fun i ha => by
      have := (h.slot i ha).2
      omega
    have ht : pool.take = .ok ({ pool with firstFreeWord := pool.free.length, peak := pool.peak + 1 },
        pool.peak + 1) := by
      rw [SlotPool.take, takeLowestFreeSlot, htake]
      exact if_neg hmax.ne
    refine ⟨_, _, ht, hfresh, h.insert h.length (fun b hb => ?_) (fun b => ?_)
      (fun b => Nat.lt_succ_iff_lt_or_eq) hfresh (Ragged.getD_concat_length hlen), .inr ⟨rfl, hnone⟩⟩
    case refine_1 =>
      rw [hnone b] at hb
      cases hb
    case refine_2 => rw [hnone b, Bool.false_and]

-- If no slot is free, then there are as many active rows as slots.
theorem Holds.length_of_full {rows : List Nat} (h : pool.Holds n slots active)
    (hfull : ∀ b, bit pool.free b = false) (hnodup : rows.Nodup) (hrows : ∀ i, i ∈ rows ↔ active i) :
    rows.length = pool.peak := by
  have hperm : (rows.map (slots.getD · 0)).Perm (List.range' 1 pool.peak) := by
    refine (List.perm_ext_iff_of_nodup ?_ List.nodup_range').mpr fun slot => ?_
    case refine_1 =>
      refine (List.nodup_map_iff_inj_on hnodup).mpr fun i hi j hj he => ?_
      exact h.distinct i j ((hrows i).mp hi) ((hrows j).mp hj) he
    case refine_2 =>
      rw [List.mem_map, List.mem_range'_1]
      constructor
      case mp =>
        rintro ⟨i, hi, rfl⟩
        have := h.slot i ((hrows i).mp hi)
        omega
      case mpr =>
        intro hs
        have ⟨i, ha, he⟩ := h.used (slot - 1) (by omega) (hfull _)
        exact ⟨i, (hrows i).mpr ha, by omega⟩
  simpa using hperm.length_eq

end SlotPool

-- The rows whose values have to be kept when row `r` has its own.
def occupied (lastUses : List Nat) (live : List Bool) (r : Nat) : List Nat :=
  (List.range (r + 1)).filter fun i => live.getD i false && (i == r || decide (r < lastUses.getD i 0))

structure Filling (lastUses : List Nat) (live : List Bool) (n row : Nat) (s : SlotPool × List Nat) :
    Prop extends Allocated lastUses live row s.2 s.1.peak where
  pool : s.1.Holds n s.2 fun i => i < row ∧ live.getD i false ∧ row ≤ lastUses.getD i 0
  reached : s.1.peak = 0 ∨ ∃ r < row, (occupied lastUses live r).length = s.1.peak

section

variable {lastUses : List Nat} {live : List Bool} {slots : List Nat} {n row : Nat}
  {s : SlotPool × List Nat}

theorem mem_occupied {r i : Nat} : i ∈ occupied lastUses live r ↔
    i ≤ r ∧ live.getD i false ∧ (i = r ∨ r < lastUses.getD i 0) := by
  rw [occupied, List.mem_filter, List.mem_range, Nat.lt_succ_iff]
  simp

theorem Allocated.extend {slot peak peak' : Nat} (h : Allocated lastUses live row slots peak)
    (hpeak : peak ≤ peak')
    (hslot : live.getD row false → (slot ≠ 0 ∧ slot ≤ peak') ∧ ∀ i < row, live.getD i false →
      slots.getD i 0 = slot → lastUses.getD i 0 ≤ row) :
    Allocated lastUses live (row + 1) (slots ++ [slot]) peak' := by
  have hold : ∀ i < row, (slots ++ [slot]).getD i 0 = slots.getD i 0 := fun i hi =>
    List.getD_append _ _ _ _ (h.length ▸ hi)
  have hnew : (slots ++ [slot]).getD row 0 = slot := Ragged.getD_concat_length h.length
  refine ⟨by simp [h.length], fun i hi hl => ?_, fun i j hij hj hl hl' he => ?_⟩
  case refine_1 =>
    rcases Nat.lt_succ_iff_lt_or_eq.mp hi with hi | rfl
    · rw [hold i hi]
      exact (h.slot i hi hl).imp_right (Nat.le_trans · hpeak)
    · rw [hnew]
      exact (hslot hl).1
  case refine_2 =>
    rcases Nat.lt_succ_iff_lt_or_eq.mp hj with hj | rfl
    · rw [hold i (by omega), hold j hj] at he
      exact h.safe i j hij hj hl hl' he
    · rw [hold i hij, hnew] at he
      exact (hslot hl').2 i hij hl he

theorem Filling.peak_le (h : Filling lastUses live n row s) : s.1.peak ≤ row := by
  rcases h.reached with he | ⟨r, hr, he⟩
  · exact he ▸ Nat.zero_le _
  · rw [← he]
    refine (List.length_filter_le ..).trans ?_
    rwa [List.length_range]

theorem Filling.step (hlast : ∀ i < n, live.getD i false → i ≤ lastUses.getD i 0)
    (hn : n ≤ maxUint32) (hrow : row < n) (h : Filling lastUses live n row s) :
    ∃ s', allocateSlot lastUses live s row = .ok s' ∧ Filling lastUses live n (row + 1) s' := by
  obtain ⟨pool, slots⟩ := s
  have hbound : pool.peak ≤ row := h.peak_le
  obtain ⟨alloc, holds, hreached⟩ := h
  have hrel : ∀ i, i ∈ releasedAt lastUses live row ↔
      i < row ∧ live.getD i false ∧ lastUses.getD i 0 = row := by
    simp [releasedAt]
  have ⟨pool₁, h₁, (hpeak₁ : pool₁.peak = pool.peak), holds₁⟩ := holds.release
    (fun i hi => ((hrel i).mp hi).imp_right (.imp_right fun he => Nat.le_of_eq he.symm))
    (List.nodup_reverse.mpr (List.nodup_range.filter _)) (Nat.le_trans hbound hrow.le)
  -- From here on the values that are used again after this row are active.
  have holds₁ : ∀ slot, pool₁.Holds n (slots ++ [slot]) fun i =>
      i < row ∧ live.getD i false ∧ row < lastUses.getD i 0 := fun slot =>
    holds₁.congr (fun i hi => List.getD_append _ _ _ _ (alloc.length ▸ hi.1.1)) fun i => by
      rw [hrel]
      grind
  have hreached : pool₁.peak = 0 ∨ ∃ r < row + 1, (occupied lastUses live r).length = pool₁.peak :=
    hpeak₁ ▸ hreached.imp_right fun ⟨r, hr, he⟩ => ⟨r, Nat.lt_succ_of_lt hr, he⟩
  cases hl : live.getD row false
  case false =>
    refine ⟨(pool₁, slots ++ [0]), ?_, alloc.extend hpeak₁.ge (fun hl' => ?_),
      (holds₁ 0).congr (fun _ _ => rfl) fun i => ?_, hreached⟩
    case refine_1 => simp only [allocateSlot, h₁, ok_bind, hl, Bool.not_false, if_true]
    case refine_2 =>
      rw [hl] at hl'
      cases hl'
    case refine_3 => grind
  case true =>
    have ⟨pool₂, slot, h₂, hfresh, holds₂, hpeak₂⟩ := SlotPool.Holds.take holds₁ alloc.length (by omega)
    have hslot := Ragged.getD_concat_length alloc.length (x := slot) (d := 0)
    have hpeak : pool.peak ≤ pool₂.peak ∧ pool₂.peak ≤ n := by
      rcases hpeak₂ with he | ⟨he, _⟩ <;> omega
    have hreached : pool₂.peak = 0 ∨ ∃ r < row + 1, (occupied lastUses live r).length = pool₂.peak := by
      rcases hpeak₂ with he | ⟨_, hfull⟩
      · exact he ▸ hreached
      · refine .inr ⟨row, Nat.lt_succ_self row,
          holds₂.length_of_full hfull (List.nodup_range.filter _) fun i => ?_⟩
        rw [mem_occupied]
        grind
    have alloc₂ : Allocated lastUses live (row + 1) (slots ++ [slot]) pool₂.peak :=
      alloc.extend hpeak.1 fun _ => ⟨hslot ▸ holds₂.slot row (.inr rfl), fun i hi hli he => by
        by_contra hgt
        refine hfresh i ⟨hi, hli, Nat.not_le.mp hgt⟩ ?_
        rwa [List.getD_append _ _ _ _ (alloc.length ▸ hi)]⟩
    have hs : allocateSlot lastUses live (pool, slots) row = (do
        let pool ← if lastUses.getD row 0 = row then pool₂.markSlotFree slot else .ok pool₂
        return (pool, slots ++ [slot])) := by
      simp only [allocateSlot, h₁, ok_bind, hl, Bool.not_true, Bool.false_eq_true, if_false, h₂]
    have := hlast row hrow hl
    by_cases hlast' : lastUses.getD row 0 = row
    case pos =>
      -- Nothing reads the value, so that its slot is free again.
      have ⟨pool₃, h₃, hpeak₃, holds₃⟩ := holds₂.markSlotFree (.inr rfl) hpeak.2
      rw [hslot] at h₃
      refine ⟨(pool₃, slots ++ [slot]), ?_, hpeak₃ ▸ alloc₂, holds₃.congr (fun _ _ => rfl) fun i => ?_,
        hpeak₃.symm ▸ hreached⟩
      case refine_1 =>
        rw [hs, if_pos hlast', h₃]
        rfl
      case refine_2 => grind
    case neg =>
      refine ⟨(pool₂, slots ++ [slot]), ?_, alloc₂, holds₂.congr (fun _ _ => rfl) fun i => ?_, hreached⟩
      case refine_1 =>
        rw [hs, if_neg hlast']
        rfl
      case refine_2 => grind

theorem Allocated.retain {s : List Nat × Nat} (h : Allocated lastUses live row s.1 s.2)
    (hle : s.2 ≤ row) (hrow : row < maxUint32) :
    ∃ s', retainSlot live s row = .ok s' ∧ Allocated lastUses live (row + 1) s'.1 s'.2 ∧
      s'.2 ≤ row + 1 := by
  cases hl : live.getD row false
  case false =>
    refine ⟨(s.1 ++ [0], s.2), by rw [retainSlot, hl]; rfl, h.extend (Nat.le_refl _) fun hl' => ?_,
      Nat.le_succ_of_le hle⟩
    rw [hl] at hl'
    cases hl'
  case true =>
    refine ⟨(s.1 ++ [s.2 + 1], s.2 + 1), ?_, h.extend (Nat.le_succ _) fun _ =>
      ⟨⟨Nat.succ_ne_zero _, Nat.le_refl _⟩, fun i hi hli he => ?_⟩, Nat.succ_le_succ hle⟩
    case refine_1 =>
      rw [retainSlot, hl]
      exact (if_neg (by simp)).trans (if_neg (by omega))
    case refine_2 =>
      have := (h.slot i hi hli).2
      omega

structure LastUses (n : Nat) (lastUses : List Nat) (live : List Bool) : Prop where
  length : lastUses.length = n
  rows : live.length = n
  bounds : ∀ i < n, i ≤ lastUses.getD i 0 ∧ lastUses.getD i 0 ≤ n

theorem allocateSlotsIn_ok (mode : SlotMode) (valid : LastUses n lastUses live)
    (hn : n ≤ maxUint32) : ∃ slots peak, allocateSlotsIn mode lastUses live = .ok (slots, peak) ∧
      Allocated lastUses live n slots peak ∧ peak ≤ n ∧
      (mode = .reuse → peak = 0 ∨ ∃ r < n, (occupied lastUses live r).length = peak) := by
  obtain ⟨rfl, hlen, hlast⟩ := valid
  cases mode
  case reuse =>
    have hstart : Filling lastUses live lastUses.length 0
        (⟨List.replicate (wordCount lastUses.length) 0#64, wordCount lastUses.length, 0⟩, []) :=
      ⟨⟨rfl, by omega, by omega⟩,
        ⟨List.length_replicate, by simp, by simp, by omega, by omega, by omega, by simp⟩, .inl rfl⟩
    have ⟨⟨pool, slots⟩, hs, h⟩ := exists_foldlM_range (f := allocateSlot lastUses live) hstart
      fun row s hrow h => h.step (fun i hi _ => (hlast i hi).1) hn hrow
    have hcheck : (List.range lastUses.length).all (fun i => !live.getD i false ||
        (decide (i ≤ lastUses.getD i 0) && decide (lastUses.getD i 0 ≤ lastUses.length))) = true := by
      refine List.all_eq_true.mpr fun i hi => ?_
      have := hlast i (List.mem_range.mp hi)
      rw [decide_eq_true this.1, decide_eq_true this.2]
      exact Bool.or_true _
    refine ⟨slots, pool.peak, ?_, h.toAllocated, h.peak_le, fun _ => h.reached⟩
    simp only [allocateSlotsIn, allocateSlots, hlen, ne_eq, not_true_eq_false, if_false, hcheck,
      Bool.not_true, Bool.false_eq_true, hs, ok_bind]
    rfl
  case retainAll =>
    have ⟨⟨slots, peak⟩, hs, h, hpeak⟩ := exists_foldlM_range (n := lastUses.length)
      (f := retainSlot live) (P := fun row s => Allocated lastUses live row s.1 s.2 ∧ s.2 ≤ row)
      (s := ([], 0)) ⟨⟨rfl, by omega, by omega⟩, Nat.le_refl 0⟩
      fun row s hrow h => h.1.retain h.2 (Nat.lt_of_lt_of_le hrow hn)
    exact ⟨slots, peak, (if_neg (not_not_intro hlen)).trans hs, h, hpeak, nofun⟩

end

section

variable {rows : List InstructionRow} {row : InstructionRow} {i : Nat}

theorem length_foldl_set {α : Type} (x : α) (operands : List Nat) (xs : List α) :
    (operands.foldl (fun xs operand => xs.set (operand - 1) x) xs).length = xs.length := by
  induction operands generalizing xs
  case nil => rfl
  case cons o operands ih => rw [List.foldl_cons, ih, List.length_set]

theorem getD_foldl_set {α : Type} (x d : α) {operands : List Nat} (h0 : ∀ o ∈ operands, o ≠ 0)
    (xs : List α) (hi : i < xs.length) :
    (operands.foldl (fun xs operand => xs.set (operand - 1) x) xs).getD i d =
      if i + 1 ∈ operands then x else xs.getD i d := by
  induction operands generalizing xs
  case nil => rfl
  case cons o operands ih =>
    rw [List.forall_mem_cons] at h0
    rw [List.foldl_cons, ih h0.2 _ (by rwa [List.length_set])]
    by_cases hm : i + 1 ∈ operands
    case pos => rw [if_pos hm, if_pos (List.mem_cons_of_mem _ hm)]
    case neg =>
      rw [if_neg hm]
      by_cases ho : i + 1 = o
      case pos =>
        subst ho
        simp [hi]
      case neg =>
        rw [if_neg (by simp [ho, hm])]
        simp [List.getElem?_set_ne (show o - 1 ≠ i by omega)]

def OperandsBefore (rows : List InstructionRow) : Prop :=
  ∀ i row, rows[i]? = some row → ∀ o ∈ row.operands, o ≠ 0 ∧ o ≤ i

variable (before : OperandsBefore rows)
include before

-- The operands of a row are marked.
theorem marked_iff {live : List Bool} (hi : rows[i]? = some row) (hlen : live.length = rows.length)
    (j : Nat) :
    (row.operands.foldl (fun live operand => live.set (operand - 1) true) live).getD j false ↔
      live.getD j false ∨ j + 1 ∈ row.operands := by
  by_cases hj : j < live.length
  case pos =>
    rw [getD_foldl_set true false (fun o ho => (before i row hi o ho).1) _ hj]
    split <;> simp_all
  case neg =>
    have hm : j + 1 ∉ row.operands := fun hm => by
      have := (before i row hi _ hm).2
      have := (List.getElem?_eq_some_iff.mp hi).1
      omega
    rw [List.getD_eq_default _ _ (by rw [length_foldl_set]; omega),
      List.getD_eq_default _ _ (Nat.not_lt.mp hj)]
    simp [hm]

-- The last of the rows below `row` that has an operand, as far as there is one.
structure UsesBelow (rows : List InstructionRow) (row : Nat) (uses : List Nat) : Prop where
  length : uses.length = rows.length
  ge : ∀ c < row, ∀ user, rows[c]? = some user → ∀ i, i + 1 ∈ user.operands → c ≤ uses.getD i 0
  exact : ∀ i < rows.length,
    uses.getD i 0 = i ∨ ∃ user, rows[uses.getD i 0]? = some user ∧ i + 1 ∈ user.operands

theorem usesBelow_operandUses : UsesBelow rows rows.length (operandUses rows) := by
  unfold operandUses
  refine Loop.foldl_zipIdx ⟨List.length_range, by omega, fun i hi => .inl (by simp [hi])⟩
    fun c user uses hc h => ?_
  have hget : ∀ i < rows.length, _ := fun i hi =>
    getD_foldl_set c 0 (fun o ho => (before c user hc o ho).1) uses (h.length ▸ hi)
  refine ⟨(length_foldl_set ..).trans h.length, fun c' hc' user' hu i hm => ?_, fun i hi => ?_⟩
  case refine_1 =>
    have := (before c' user' hu _ hm).2
    have := (List.getElem?_eq_some_iff.mp hu).1
    rw [hget i (by omega)]
    split
    case isTrue => omega
    case isFalse hn =>
      rcases Nat.lt_succ_iff_lt_or_eq.mp hc' with hc' | rfl
      · exact h.ge c' hc' user' hu i hm
      · rw [hc, Option.some.injEq] at hu
        exact absurd (hu ▸ hm) hn
  case refine_2 =>
    rw [hget i hi]
    split
    case isTrue hm => exact .inr ⟨user, hc, hm⟩
    case isFalse => exact h.exact i hi

theorem length_computeLastUses : (computeLastUses rows).length = rows.length := by
  simpa [computeLastUses] using (usesBelow_operandUses before).length

theorem getD_computeLastUses (hi : rows[i]? = some row) :
    (computeLastUses rows).getD i 0 =
      if row.rootFlags != 0#8 then rows.length else (operandUses rows).getD i 0 := by
  have hlt : i < (operandUses rows).length := by
    rw [(usesBelow_operandUses before).length]
    exact (List.getElem?_eq_some_iff.mp hi).1
  simp only [computeLastUses, List.getD_eq_getElem?_getD, List.getElem?_map, List.getElem?_zipIdx,
    List.getElem?_eq_getElem hlt, hi, Option.map_some, Option.getD_some, Nat.zero_add]

theorem lastUses_of_root (hi : rows[i]? = some row) (hroot : row.rootFlags ≠ 0#8) :
    (computeLastUses rows).getD i 0 = rows.length := by
  rw [getD_computeLastUses before hi, if_pos (bne_iff_ne.mpr hroot)]

theorem le_lastUses {c : Nat} (hc : rows[c]? = some row) (hm : i + 1 ∈ row.operands) :
    c ≤ (computeLastUses rows).getD i 0 := by
  have hlen := (List.getElem?_eq_some_iff.mp hc).1
  have := (before c row hc _ hm).2
  rw [getD_computeLastUses before (List.getElem?_eq_getElem (show i < rows.length by omega))]
  split
  case isTrue => omega
  case isFalse => exact (usesBelow_operandUses before).ge c hlen row hc i hm

theorem lastUses_valid {live : List Bool} (hlen : live.length = rows.length) :
    LastUses rows.length (computeLastUses rows) live := by
  refine ⟨length_computeLastUses before, hlen, fun i hi => ?_⟩
  rw [getD_computeLastUses before (List.getElem?_eq_getElem hi)]
  split
  case isTrue => exact ⟨Nat.le_of_lt hi, Nat.le_refl _⟩
  case isFalse =>
    rcases (usesBelow_operandUses before).exact i hi with he | ⟨user, hu, hm⟩
    · rw [he]
      exact ⟨Nat.le_refl _, Nat.le_of_lt hi⟩
    · have := (before _ user hu _ hm).2
      have := (List.getElem?_eq_some_iff.mp hu).1
      omega

end

def Opcode.Composite (opcode : Opcode) : Prop :=
  opcode = .all ∨ opcode = .any ∨ opcode = .not

-- The rows whose reasons are needed: the roots, and the operands of the groups and negations among
-- these rows.
inductive ReasonNeeded (rows : List InstructionRow) : Nat → Prop
  | root {i : Nat} {row : InstructionRow} (hi : rows[i]? = some row) (hr : row.rootFlags ≠ 0#8) :
    ReasonNeeded rows i
  | operand {i c : Nat} {user : InstructionRow} (hn : ReasonNeeded rows c) (hc : rows[c]? = some user)
    (ho : user.opcode.Composite) (hm : i + 1 ∈ user.operands) : ReasonNeeded rows i

-- The rows whose reasons are needed, as far as the rows from `start` on tell.
def ReasonNeededFrom (rows : List InstructionRow) (start i : Nat) : Prop :=
  (∃ row, rows[i]? = some row ∧ row.rootFlags ≠ 0#8) ∨
  ∃ c user, start ≤ c ∧ rows[c]? = some user ∧ ReasonNeeded rows c ∧ user.opcode.Composite ∧
    i + 1 ∈ user.operands

section

variable {rows : List InstructionRow} {i : Nat} (before : OperandsBefore rows)
include before

theorem reasonNeeded_iff {start : Nat} (hi : start ≤ i + 1) :
    ReasonNeeded rows i ↔ ReasonNeededFrom rows start i := by
  constructor
  case mp =>
    rintro (⟨hi, hr⟩ | ⟨hn, hc, ho, hm⟩)
    · exact .inl ⟨_, hi, hr⟩
    · exact .inr ⟨_, _, hi.trans (before _ _ hc _ hm).2, hc, hn, ho, hm⟩
  case mpr =>
    rintro (⟨_, hi, hr⟩ | ⟨_, _, _, hc, hn, ho, hm⟩)
    · exact .root hi hr
    · exact .operand hn hc ho hm

omit before in
theorem reasonNeededFrom_iff {row : InstructionRow} {j : Nat} (hi : rows[i]? = some row) :
    ReasonNeededFrom rows i j ↔ ReasonNeededFrom rows (i + 1) j ∨
      ReasonNeeded rows i ∧ row.opcode.Composite ∧ j + 1 ∈ row.operands := by
  constructor
  case mp =>
    rintro (hroot | ⟨c, user, hle, hc, hn, ho, hm⟩)
    · exact .inl (.inl hroot)
    · rcases Nat.eq_or_lt_of_le hle with rfl | hlt
      · rw [hi, Option.some.injEq] at hc
        exact .inr ⟨hn, hc ▸ ho, hc ▸ hm⟩
      · exact .inl (.inr ⟨c, user, hlt, hc, hn, ho, hm⟩)
  case mpr =>
    rintro ((hroot | ⟨c, user, hle, hc⟩) | ⟨hn, ho, hm⟩)
    · exact .inl hroot
    · exact .inr ⟨c, user, Nat.le_of_succ_le hle, hc⟩
    · exact .inr ⟨i, row, Nat.le_refl i, hi, hn, ho, hm⟩

theorem computeReasonLive_spec : (computeReasonLive rows).length = rows.length ∧
    ∀ i, (computeReasonLive rows).getD i false ↔ ReasonNeededFrom rows 0 i := by
  unfold computeReasonLive
  refine Loop.foldl_range_reverse (P := fun start (live : List Bool) => live.length = rows.length ∧
    ∀ i, live.getD i false ↔ ReasonNeededFrom rows start i) ⟨by simp, fun i => ?_⟩ ?_
  case refine_1 =>
    have hlast : ¬∃ c user, rows.length ≤ c ∧ rows[c]? = some user ∧ ReasonNeeded rows c ∧
        user.opcode.Composite ∧ i + 1 ∈ user.operands := fun ⟨c, user, hle, hc, _⟩ =>
      Nat.not_lt.mpr hle (List.getElem?_eq_some_iff.mp hc).1
    rw [ReasonNeededFrom, or_iff_left hlast]
    cases hi : rows[i]? <;> simp [hi]
  case refine_2 =>
    intro i live hi h
    have hrow : rows[i]? = some rows[i] := List.getElem?_eq_getElem hi
    have hneeded := (h.2 i).trans (reasonNeeded_iff before (Nat.le_refl _)).symm
    simp only [hrow]
    split
    all_goals
      rename_i hc
      simp only [Bool.and_eq_true, Bool.or_eq_true, beq_iff_eq, or_assoc, hneeded] at hc
    case isTrue =>
      refine ⟨(length_foldl_set ..).trans h.1, fun j => ?_⟩
      rw [marked_iff before hrow h.1, h.2, reasonNeededFrom_iff hrow, and_iff_right hc.1,
        and_iff_right (show rows[i].opcode.Composite from hc.2)]
    case isFalse =>
      refine ⟨h.1, fun j => ?_⟩
      rw [h.2, reasonNeededFrom_iff hrow, or_iff_left fun hn => hc ⟨hn.1, hn.2.1⟩]

theorem reasonLive_iff : (computeReasonLive rows).getD i false ↔ ReasonNeeded rows i :=
  ((computeReasonLive_spec before).2 i).trans (reasonNeeded_iff before (Nat.zero_le _)).symm

end

def AllUsed (rows : List InstructionRow) : Prop :=
  ∀ (i : Nat) (row : InstructionRow), rows[i]? = some row → row.rootFlags ≠ 0#8 ∨
    ∃ (c : Nat) (user : InstructionRow), rows[c]? = some user ∧ user.opcode.Composite ∧
      i + 1 ∈ user.operands

-- By induction from the last row on: a row that is not a root is an operand of a later one.
theorem reasonLive_of_allUsed {rows : List InstructionRow} {i : Nat} (before : OperandsBefore rows)
    (used : AllUsed rows) (hi : i < rows.length) : (computeReasonLive rows).getD i false := by
  rw [reasonLive_iff before]
  induction hk : rows.length - i using Nat.strong_induction_on generalizing i
  case h k ih =>
    rcases used i _ (List.getElem?_eq_getElem hi) with hroot | ⟨c, user, hc, ho, hm⟩
    · exact .root (List.getElem?_eq_getElem hi) hroot
    · have := (before c user hc _ hm).2
      have hlt := (List.getElem?_eq_some_iff.mp hc).1
      exact .operand (ih (rows.length - c) (by omega) hlt rfl) hc ho hm

structure SlotsAssigned (t : InstructionTable) (s : Slots) : Prop where
  rows : t.rows.length ≤ maxUint32
  before : OperandsBefore t.rows
  opcode : ∀ row ∈ t.rows, row.opcode.valid
  flags : ∀ row ∈ t.rows, row.rootFlags &&& ~~~knownRootFlags = 0#8
  truth : Allocated (computeLastUses t.rows) (List.replicate t.rows.length true) t.rows.length
    s.truthSlots s.truthSlotCount
  reason : Allocated (computeLastUses t.rows) (computeReasonLive t.rows) t.rows.length
    s.reasonSlots s.reasonSlotCount
  count_le : s.truthSlotCount ≤ t.rows.length ∧ s.reasonSlotCount ≤ t.rows.length

section

variable {t : InstructionTable}

theorem validateScheduleColumns_eq_ok (h : validateScheduleColumns t = .ok ()) :
    (∀ row ∈ t.rows, row.opcode.valid) ∧
      ∀ ids ∈ t.nodeMap, ∀ id ∈ ids, id ≠ 0 ∧ id ≤ t.rows.length := by
  unfold validateScheduleColumns at h
  have ⟨hv, h⟩ := of_check h
  simpa only [Bool.and_eq_true, List.all_eq_true, bne_iff_ne, decide_eq_true_eq] using hv

theorem validateSlotProgram_eq_ok (h : validateSlotProgram t = .ok ()) :
    t.rows.length ≤ maxUint32 ∧ validateScheduleColumns t = .ok () ∧ OperandsBefore t.rows ∧
      ∀ row ∈ t.rows, row.rootFlags &&& ~~~knownRootFlags = 0#8 := by
  have ⟨hmax, h⟩ := of_guard h
  have ⟨_, hcol, h⟩ := of_bind h
  have hrow : ∀ i row, t.rows[i]? = some row → validateSlotRow row i := by
    have ⟨hall, h⟩ := of_check h
    intro i row hi
    rw [List.all_eq_true] at hall
    exact hall (row, i) (List.mk_mem_zipIdx_iff_getElem?.mpr hi)
  simp only [validateSlotRow, Bool.and_eq_true, beq_iff_eq, List.all_eq_true, bne_iff_ne,
    decide_eq_true_eq] at hrow
  refine ⟨Nat.le_of_not_lt hmax, hcol, ?_, ?_⟩
  case refine_1 =>
    intro i row hi o ho
    exact ⟨((hrow i row hi).2 o ho).1, Nat.lt_succ_iff.mp ((hrow i row hi).2 o ho).2⟩
  case refine_2 =>
    intro row hm
    have ⟨i, hi⟩ := List.mem_iff_getElem?.mp hm
    exact (hrow i row hi).1

-- Every table that passes the check gets its slots, in either mode.
theorem assignSlotsIn_ok (mode : SlotMode) (h : validateSlotProgram t = .ok ()) :
    ∃ s, assignSlotsIn mode t = .ok s ∧ SlotsAssigned t s ∧ (mode = .reuse →
      (s.truthSlotCount = 0 ∨ ∃ r < t.rows.length, (occupied (computeLastUses t.rows)
        (List.replicate t.rows.length true) r).length = s.truthSlotCount) ∧
      (s.reasonSlotCount = 0 ∨ ∃ r < t.rows.length, (occupied (computeLastUses t.rows)
        (computeReasonLive t.rows) r).length = s.reasonSlotCount)) := by
  have ⟨hmax, hcol, before, flags⟩ := validateSlotProgram_eq_ok h
  have ⟨truths, truthCount, ht, truth, htle, htr⟩ := allocateSlotsIn_ok mode
    (lastUses_valid before (List.length_replicate (a := true))) hmax
  have ⟨reasons, reasonCount, hr, reason, hrle, hrr⟩ := allocateSlotsIn_ok mode
    (lastUses_valid before (computeReasonLive_spec before).1) hmax
  refine ⟨⟨truths, reasons, truthCount, reasonCount⟩, ?_,
    ⟨hmax, before, (validateScheduleColumns_eq_ok hcol).1, flags, truth, reason, htle, hrle⟩,
    fun hm => ⟨htr hm, hrr hm⟩⟩
  simp only [assignSlotsIn, h, ok_bind, ht, hr]
  rfl

theorem assignSlots_eq_ok {s : Slots} (h : assignSlots t = .ok s) : SlotsAssigned t s := by
  have ⟨_, hv, _⟩ := of_bind h
  have ⟨s', hs, assigned, _⟩ := assignSlotsIn_ok .reuse hv
  rw [assignSlots, hs, Except.ok.injEq] at h
  exact h ▸ assigned

end
end NornRune
