import Mathlib.Data.Finset.Lattice.Fold
import Mathlib.Order.Lattice.Nat
import NornRune.Compile.Theorems.Slots

open Bitplane Checked

-- Slots are shared as far as this is possible: the allocation of slots succeeds, it never lets two
-- values that are needed share a slot, and no allocation that does so has fewer slots.
namespace NornRune

variable {rows : List InstructionRow}

def neededAfter (rows : List InstructionRow) (i j : Nat) : Bool :=
  (rows[i]?.map (·.rootFlags)).getD 0#8 != 0#8 || (rows.drop (j + 1)).any (·.operands.contains (i + 1))

-- No two rows have the same slot while the value of the first is needed after the second. If the
-- second row is the last to read the value of the first, then it takes over its slot.
structure InterferenceFree (rows : List InstructionRow) (has : Nat → Prop) (slots : List Nat)
    (count : Nat) : Prop where
  length : slots.length = rows.length
  slot : ∀ i < rows.length, has i → slots.getD i 0 ≠ 0 ∧ slots.getD i 0 ≤ count
  apart : ∀ i j, i < j → j < rows.length → has i → has j → slots.getD i 0 = slots.getD j 0 →
    neededAfter rows i j = false

def liveAfter (rows : List InstructionRow) (has : Nat → Bool) (r : Nat) : List Nat :=
  (List.range (r + 1)).filter fun i => has i && neededAfter rows i r

def heldAfter (rows : List InstructionRow) (has : Nat → Bool) (r : Nat) : List Nat :=
  (List.range (r + 1)).filter fun i => has i && (i == r || neededAfter rows i r)

def maxLive (rows : List InstructionRow) (has : Nat → Bool) : Nat :=
  (Finset.range rows.length).sup fun r => (liveAfter rows has r).length

def maxHeld (rows : List InstructionRow) (has : Nat → Bool) : Nat :=
  (Finset.range rows.length).sup fun r => (heldAfter rows has r).length

variable {i : Nat} {live : List Bool} {slots : List Nat} {count : Nat}

theorem neededAfter_iff (before : OperandsBefore rows) {j : Nat} (hij : i ≤ j)
    (hj : j < rows.length) : neededAfter rows i j ↔ j < (computeLastUses rows).getD i 0 := by
  have hi : i < rows.length := by omega
  have hrow := List.getElem?_eq_getElem hi
  simp only [neededAfter, hrow, Option.map_some, Option.getD_some, Bool.or_eq_true, bne_iff_ne,
    List.any_eq_true, List.contains_iff_mem]
  constructor
  case mp =>
    rintro (hroot | ⟨user, hm, ho⟩)
    · rwa [lastUses_of_root before hrow hroot]
    · have ⟨c, hc⟩ := List.mem_iff_getElem?.mp hm
      rw [List.getElem?_drop] at hc
      have := le_lastUses before hc ho
      omega
  case mpr =>
    intro hlt
    by_cases hroot : rows[i].rootFlags = 0#8
    case neg => exact .inl hroot
    case pos =>
      rw [getD_computeLastUses before hrow, if_neg (by simp [hroot])] at hlt
      rcases (usesBelow_operandUses before).exact i hi with he | ⟨user, hc, ho⟩
      · omega
      · refine .inr ⟨user, List.mem_iff_getElem?.mpr ⟨(operandUses rows).getD i 0 - (j + 1), ?_⟩, ho⟩
        rw [List.getElem?_drop, Nat.add_sub_cancel' hlt]
        exact hc

theorem Allocated.length_occupied_le {lastUses : List Nat} {n r : Nat}
    (h : Allocated lastUses live n slots count) (hr : r < n) :
    (occupied lastUses live r).length ≤ count := by
  have hinj : ∀ i ∈ occupied lastUses live r, ∀ j ∈ occupied lastUses live r,
      i < j → slots.getD i 0 ≠ slots.getD j 0 := fun i hi j hj hij he => by
    have ⟨_, hl, hu⟩ := mem_occupied.mp hi
    have ⟨hle, hl', _⟩ := mem_occupied.mp hj
    have := h.safe i j hij (by omega) hl hl' he
    omega
  have hnodup : ((occupied lastUses live r).map (slots.getD · 0)).Nodup := by
    refine (List.nodup_map_iff_inj_on (List.nodup_range.filter _)).mpr fun i hi j hj he => ?_
    rcases Nat.lt_trichotomy i j with hlt | heq | hgt
    · exact absurd he (hinj i hi j hj hlt)
    · exact heq
    · exact absurd he.symm (hinj j hj i hi hgt)
  have hsub : (occupied lastUses live r).map (slots.getD · 0) ⊆ List.range' 1 count := fun s hs => by
    have ⟨i, hi, he⟩ := List.mem_map.mp hs
    have ⟨hle, hl, _⟩ := mem_occupied.mp hi
    have := h.slot i (by omega) hl
    rw [List.mem_range'_1]
    omega
  simpa using (List.subperm_of_subset hnodup hsub).length_le

theorem Allocated.count_eq {lastUses : List Nat} {n : Nat} (h : Allocated lastUses live n slots count)
    (reached : count = 0 ∨ ∃ r < n, (occupied lastUses live r).length = count) :
    count = (Finset.range n).sup fun r => (occupied lastUses live r).length := by
  refine Nat.le_antisymm ?_ (Finset.sup_le fun r hr => h.length_occupied_le (Finset.mem_range.mp hr))
  rcases reached with rfl | ⟨r, hr, rfl⟩
  · exact Nat.zero_le _
  · exact Finset.le_sup (f := fun r => (occupied lastUses live r).length) (Finset.mem_range.mpr hr)

theorem interferenceFree_iff {has : Nat → Prop} (before : OperandsBefore rows)
    (hlive : ∀ i < rows.length, live.getD i false ↔ has i) :
    InterferenceFree rows has slots count ↔
      Allocated (computeLastUses rows) live rows.length slots count := by
  constructor
  case mp =>
    intro h
    refine ⟨h.length, fun i hi hl => h.slot i hi ((hlive i hi).mp hl),
      fun i j hij hj hl hl' he => ?_⟩
    have := h.apart i j hij hj ((hlive i (by omega)).mp hl) ((hlive j hj).mp hl') he
    refine Nat.le_of_not_lt fun hlt => ?_
    rw [(neededAfter_iff before hij.le hj).mpr hlt] at this
    cases this
  case mpr =>
    intro h
    refine ⟨h.length, fun i hi hs => h.slot i hi ((hlive i hi).mpr hs),
      fun i j hij hj hs hs' he => ?_⟩
    have := h.safe i j hij hj ((hlive i (by omega)).mpr hs) ((hlive j hj).mpr hs') he
    rw [← Bool.not_eq_true, neededAfter_iff before hij.le hj]
    omega

theorem maxHeld_eq {holds : Nat → Bool} (before : OperandsBefore rows)
    (hlive : ∀ i < rows.length, holds i = live.getD i false) :
    ((Finset.range rows.length).sup fun r => (occupied (computeLastUses rows) live r).length) =
      maxHeld rows holds := by
  refine Finset.sup_congr rfl fun r hr => congrArg List.length (List.filter_congr fun i hi => ?_)
  have hr := Finset.mem_range.mp hr
  have hi : i ≤ r := Nat.lt_succ_iff.mp (List.mem_range.mp hi)
  rw [hlive i (by omega), Bool.eq_iff_iff.mpr ((neededAfter_iff before hi hr).trans
    (decide_eq_true_iff (p := _ < _)).symm)]

variable {t : InstructionTable}

theorem truth_interferenceFree_iff (before : OperandsBefore rows) :
    InterferenceFree rows (fun _ => True) slots count ↔ Allocated (computeLastUses rows)
      (List.replicate rows.length true) rows.length slots count :=
  interferenceFree_iff before fun i hi => by simp [hi]

theorem reason_interferenceFree_iff (before : OperandsBefore rows) :
    InterferenceFree rows (ReasonNeeded rows) slots count ↔
      Allocated (computeLastUses rows) (computeReasonLive rows) rows.length slots count :=
  interferenceFree_iff before fun _ _ => reasonLive_iff before

-- Every table that passes the check gets its slots, in either mode.
theorem slots_interference_free (mode : SlotMode) (h : validateSlotProgram t = .ok ()) :
    ∃ s, assignSlotsIn mode t = .ok s ∧
      InterferenceFree t.rows (fun _ => True) s.truthSlots s.truthSlotCount ∧
      InterferenceFree t.rows (ReasonNeeded t.rows) s.reasonSlots s.reasonSlotCount := by
  have ⟨s, hs, a, _⟩ := assignSlotsIn_ok mode h
  exact ⟨s, hs, (truth_interferenceFree_iff a.before).mpr a.truth,
    (reason_interferenceFree_iff a.before).mpr a.reason⟩

-- A group that reads two values, one of them twice, and takes over the slot of one of them. The other
-- one is a root.
def sharedTable : InstructionTable where
  rows := [{ opcode := .exists, rootFlags := .evidence, node := 1, span := ⟨0, 0⟩ },
    { opcode := .defined, rootFlags := 0#8, node := 2, span := ⟨0, 0⟩ },
    { opcode := .all, operands := [1, 2, 1], rootFlags := .assertion, node := 3, span := ⟨0, 0⟩ }]
  nodeMap := [[1], [2], [3]]

theorem slots_interference_free_shared : validateSlotProgram sharedTable = .ok () ∧
    ∃ s, assignSlotsIn .reuse sharedTable = .ok s ∧
      InterferenceFree sharedTable.rows (fun _ => True) s.truthSlots s.truthSlotCount ∧
      InterferenceFree sharedTable.rows (ReasonNeeded sharedTable.rows) s.reasonSlots
        s.reasonSlotCount :=
  ⟨by decide, slots_interference_free .reuse (by decide)⟩

theorem maxHeld_eq_maxLive (h : ∀ r < rows.length, neededAfter rows r r) (has : Nat → Bool) :
    maxHeld rows has = maxLive rows has := by
  refine Finset.sup_congr rfl fun r hr => ?_
  refine congrArg List.length (List.filter_congr fun i _ => ?_)
  by_cases hi : i = r
  case pos => rw [hi, h r (Finset.mem_range.mp hr), Bool.or_true]
  case neg => rw [beq_false_of_ne hi, Bool.false_or]

-- No assignment of slots without interference has fewer slots, and as many as are given are needed.
theorem slot_counts_optimal (h : validateSlotProgram t = .ok ()) :
    ∃ s, assignSlots t = .ok s ∧
      s.truthSlotCount = maxHeld t.rows (fun _ => true) ∧
      s.reasonSlotCount = maxHeld t.rows ((computeReasonLive t.rows).getD · false) ∧
      (∀ i < t.rows.length, (computeReasonLive t.rows).getD i false ↔ ReasonNeeded t.rows i) ∧
      ((∀ r < t.rows.length, neededAfter t.rows r r) →
        s.truthSlotCount = maxLive t.rows (fun _ => true) ∧
        s.reasonSlotCount = maxLive t.rows ((computeReasonLive t.rows).getD · false)) ∧
      (∀ slots count, InterferenceFree t.rows (fun _ => True) slots count →
        s.truthSlotCount ≤ count) ∧
      ∀ slots count, InterferenceFree t.rows (ReasonNeeded t.rows) slots count →
        s.reasonSlotCount ≤ count := by
  have ⟨s, hs, a, reached⟩ := assignSlotsIn_ok .reuse h
  have hcount := a.truth.count_eq (reached rfl).1
  have hcount' := a.reason.count_eq (reached rfl).2
  have htruth : s.truthSlotCount = maxHeld t.rows (fun _ => true) :=
    hcount.trans (maxHeld_eq a.before fun i hi => by simp [hi])
  have hreason : s.reasonSlotCount = maxHeld t.rows ((computeReasonLive t.rows).getD · false) :=
    hcount'.trans (maxHeld_eq a.before fun _ _ => rfl)
  refine ⟨s, hs, htruth, hreason, fun _ _ => reasonLive_iff a.before, fun hall => ?_,
    fun slots count hi => ?_, fun slots count hi => ?_⟩
  case refine_1 =>
    exact ⟨htruth.trans (maxHeld_eq_maxLive hall _), hreason.trans (maxHeld_eq_maxLive hall _)⟩
  case refine_2 =>
    rw [hcount]
    exact Finset.sup_le fun r hr =>
      ((truth_interferenceFree_iff a.before).mp hi).length_occupied_le (Finset.mem_range.mp hr)
  case refine_3 =>
    rw [hcount']
    exact Finset.sup_le fun r hr =>
      ((reason_interferenceFree_iff a.before).mp hi).length_occupied_le (Finset.mem_range.mp hr)

theorem slot_counts_optimal_shared : validateSlotProgram sharedTable = .ok () ∧
    ∃ s, assignSlots sharedTable = .ok s ∧ s.truthSlotCount = maxHeld sharedTable.rows fun _ => true := by
  have ⟨s, hs, hcount, _⟩ := slot_counts_optimal (t := sharedTable) (by decide)
  exact ⟨by decide, s, hs, hcount⟩

def unreadTable : InstructionTable where
  rows := [{ opcode := .exists, rootFlags := 0#8, node := 1, span := ⟨0, 0⟩ }]
  nodeMap := [[1]]

-- Its value is never live, and it has a slot all the same.
theorem unread_value_has_slot : validateSlotProgram unreadTable = .ok () ∧
    (assignSlots unreadTable).toOption.map (·.truthSlotCount) = some 1 ∧
    maxLive unreadTable.rows (fun _ => true) = 0 := by
  decide

end NornRune
