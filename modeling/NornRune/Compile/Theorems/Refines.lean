import NornRune.Compile.Theorems.Trace

open Checked

-- A compiled program computes on each row what the expressions of its document say.
namespace NornRune

namespace Candidate

variable {p : Program} {c : Candidate} {instr : Instr}

theorem instr_of_leaf (h : ¬c.opcode.Composite) : Candidate.instr p { c with operands := [] } = c.instr p := by
  cases ho : c.opcode
  case all | any | not => exact absurd (by simp [Opcode.Composite, ho]) h
  all_goals simp only [Candidate.instr, ho, predicate, operand]

theorem lane_congr_of_leaf (h : ¬c.opcode.Composite) (hi : c.instr p = .ok instr)
    (stateReasons : List Nat) (facts : Row) (v v' : Nat → Lane) :
    instr.lane stateReasons facts v = instr.lane stateReasons facts v' := by
  cases ho : c.opcode
  all_goals simp only [Candidate.instr, ho] at hi
  case all | any | not => exact absurd (by simp [Opcode.Composite, ho]) h
  case invalid => cases hi
  case evidence =>
    obtain ⟨_, hi⟩ := require_bind_eq_ok_iff.mp hi
    cases hi
    rfl
  all_goals
    obtain ⟨_, _, hi⟩ := of_bind hi
    cases hi
    rfl

theorem lane_eq_denote (hi : c.instr p = .ok instr) (hnot : c.opcode = .not → c.operands ≠ [])
    (stateReasons : List Nat) (facts : Row) (v : Nat → Lane) :
    instr.lane stateReasons facts v = c.denote (leafValue p stateReasons facts) v := by
  by_cases hleaf : c.opcode.Composite
  case neg =>
    rw [denote_of_leaf hleaf, leafValue, instr_of_leaf hleaf, hi]
    exact lane_congr_of_leaf hleaf hi stateReasons facts v _
  case pos =>
    rcases hleaf with ho | ho | ho
    all_goals
      simp only [Candidate.instr, ho] at hi
      cases hi
      simp only [denote, ho]
    case inl => rfl
    case inr.inl => rfl
    case inr.inr =>
      obtain ⟨o, rest, he⟩ := List.exists_cons_of_ne_nil (hnot ho)
      rw [he]
      rfl

end Candidate

namespace Lineage

variable {doc : Document} {fields : Schema} {symbols : Interner} {p : Program}
  (h : Lineage doc fields symbols p)
include h

theorem instr {j : Nat} {row : InstructionRow} (hj : h.t.rows[j]? = some row) :
    (∃ instr, row.toCandidate.instr p = .ok instr) ∧
      (row.opcode.isGroup → row.operands ≠ []) ∧ (row.opcode = .not → row.operands.length = 1) := by
  obtain ⟨cand, _, _, _, _, made, he⟩ := h.tr.origin hj
  rw [he]
  simp only
  by_cases hleaf : cand.opcode.Composite
  case neg =>
    obtain ⟨instr, hi, _⟩ := made.leaf h.low h.named h.parts hleaf
    have hnil := made.operands_of_leaf hleaf
    refine ⟨⟨instr, by rw [hnil, List.map_nil, Candidate.instr_of_leaf hleaf, hi]⟩, fun hg => ?_, fun hn => ?_⟩
    · exact absurd (by cases ho : cand.opcode <;> simp_all [Opcode.isGroup, Opcode.Composite]) hleaf
    · exact absurd (.inr (.inr hn)) hleaf
  case pos =>
    rcases made.of_composite hleaf with ⟨kind, children, hk, hg, hc, rfl⟩ | ⟨child, hk, hc, rfl⟩
    case inl =>
      have valid := Document.validated h.low.valid
      obtain ⟨hne, _⟩ := valid.groupChildren hk hg hc
      obtain ⟨children', hc', hcontribution, _⟩ := made.of_group hk hg
      cases hc.symm.trans hc'
      refine ⟨?_, fun _ hnil => ?_, fun hn => ?_⟩
      case refine_1 => by_cases ha : kind = .all <;> simp [Candidate.instr, ha]
      case refine_2 =>
        obtain ⟨child, rest, he⟩ := List.exists_cons_of_ne_nil hne
        have hm : child ∈ children := he ▸ List.mem_cons_self
        exact hcontribution child hm (List.flatMap_eq_nil_iff.mp (List.map_eq_nil_iff.mp hnil) child hm)
      case refine_3 =>
        simp only at hn
        split at hn <;> cases hn
    case inr => exact ⟨⟨_, rfl⟩, (by rintro ⟨⟩), fun _ => rfl⟩

theorem code : ∃ code, p.code = .ok code ∧
    ∀ (j : Nat) (row : InstructionRow), h.t.rows[j]? = some row →
      ∃ instr, code[j]? = some instr ∧ row.toCandidate.instr p = .ok instr := by
  have hlen := h.length_opcodes
  have hresolve : ∀ i ∈ List.range p.opcodes.length, ∃ instr, resolveInstr p i = .ok instr := by
    intro i hi
    have hlt : i < h.t.rows.length := hlen ▸ List.mem_range.mp hi
    have hrow := List.getElem?_eq_getElem hlt
    rw [Candidate.resolveInstr_eq (h.low.columns.hasRow hrow)]
    exact (h.instr hrow).1
  have ⟨code, hcode⟩ := mapM_ok_of_forall hresolve
  refine ⟨code, hcode, fun j row hj => ?_⟩
  have hlt := (List.getElem?_eq_some_iff.mp hj).1
  have ⟨instr, hi, hr⟩ := getElem?_of_mapM_eq_ok hcode (List.getElem?_range (hlen ▸ hlt))
  exact ⟨instr, hi, Candidate.resolveInstr_eq (h.low.columns.hasRow hj) ▸ hr⟩

theorem scheduled : Scheduled p := by
  have assigned := assignSlots_eq_ok h.low.slots
  have a := h.low.columns
  have hlen := h.length_opcodes
  refine {
    fields := by rw [a.fields, hlen, List.length_map]
    values := by rw [a.values, hlen, List.length_map]
    truths := by rw [a.truthSlots, hlen, assigned.truth.length]
    reasons := by rw [a.reasonSlots, hlen, assigned.reason.length]
    row := fun i hi => ?_ }
  rw [hlen] at hi
  have hrow : h.t.rows[i]? = some h.t.rows[i] := List.getElem?_eq_getElem hi
  have has := a.hasRow hrow
  have ⟨_, hgroup, hnot⟩ := h.instr hrow
  have ⟨_, hnode, _⟩ := h.tr.origin hrow
  have hreason := reasonLive_of_allUsed assigned.before h.tr.used hi
  have htruth : (List.replicate h.t.rows.length true).getD i false := by simp [hi]
  have hvalid := assigned.opcode _ (List.getElem_mem hi)
  rw [← has.opcode] at hgroup hnot hvalid
  exact {
    opcode := fun he => by rw [he] at hvalid; cases hvalid
    truthSlot := by
      have ⟨hne, hle⟩ := assigned.truth.slot i hi htruth
      rw [a.truthSlots]
      exact ⟨hne, a.truthSlotCount ▸ hle⟩
    reasonSlot := by
      have ⟨hne, hle⟩ := assigned.reason.slot i hi hreason
      rw [a.reasonSlots]
      exact ⟨hne, a.reasonSlotCount ▸ hle⟩
    node := by
      rw [a.instructionNodes, getD_map_rows hrow]
      exact (Lowering.nodeInRange_iff.mp (h.tr.sound.inRange _ hnode)).1
    operands_ne_nil := fun hg => has.operands ▸ hgroup hg
    length_of_not := fun hn => has.operands ▸ hnot hn
    operand_ne := fun o ho => (assigned.before i _ hrow o (has.operands ▸ ho)).1
    operand_le := fun o ho => (assigned.before i _ hrow o (has.operands ▸ ho)).2 }

theorem slotsKept : p.slotsKept := by
  have assigned := assignSlots_eq_ok h.low.slots
  have a := h.low.columns
  have hlen := h.length_opcodes
  simp only [Program.slotsKept, List.all_eq_true, List.mem_range, Bool.or_eq_true, Bool.not_eq_true',
    Bool.and_eq_true, bne_iff_ne]
  intro row hrow i hi
  rw [hlen] at hrow
  have hri : h.t.rows[i]? = some h.t.rows[i] := List.getElem?_eq_getElem (Nat.lt_trans hi hrow)
  cases hneed : p.needed (row + 1) (i + 1)
  case false => exact .inl rfl
  case true =>
    -- The last use of the earlier row is behind the later one.
    have hlast : row < (computeLastUses h.t.rows).getD i 0 := by
      rcases Program.needed_iff.mp hneed with hroot | ⟨user, hu, hlt, hm⟩
      case inl =>
        rw [a.rootFlags, Nat.add_sub_cancel, getD_map_rows hri] at hroot
        rw [lastUses_of_root assigned.before hri hroot]
        exact hrow
      case inr =>
        rw [hlen] at hlt
        have hru : h.t.rows[user]? = some h.t.rows[user] := List.getElem?_eq_getElem hlt
        rw [(a.hasRow hru).operands] at hm
        have := le_lastUses assigned.before hru hm
        omega
    have htruth : ∀ j < h.t.rows.length, (List.replicate h.t.rows.length true).getD j false :=
      fun j hj => by simp [hj]
    have hreason : ∀ j < h.t.rows.length, (computeReasonLive h.t.rows).getD j false :=
      fun j hj => reasonLive_of_allUsed assigned.before h.tr.used hj
    refine .inr ⟨fun he => ?_, fun he => ?_⟩
    · rw [a.truthSlots] at he
      have := assigned.truth.safe i row hi hrow (htruth i (by omega)) (htruth row hrow) he
      omega
    · rw [a.reasonSlots] at he
      have := assigned.reason.safe i row hi hrow (hreason i (by omega)) (hreason row hrow) he
      omega

end Lineage
end NornRune
