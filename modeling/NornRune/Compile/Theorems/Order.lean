import Mathlib.Data.Finset.Card
import NornRune.Compile.Theorems.Schedule

open Bitplane Checked

-- The instructions can be scheduled: the scheduler always finds an instruction that is ready and never
-- looks for one in vain.
namespace NornRune.Schedule

variable {rows : List InstructionRow} {s s' : Schedule}

theorem count_users (dependency start user : Nat) :
    ((rows.zipIdx start).flatMap fun (row, consumer) =>
      (row.operands.filter (· == dependency + 1)).map fun _ => consumer).count user =
      if start ≤ user then (rows[user - start]?.map (·.operands.count (dependency + 1))).getD 0 else 0 := by
  induction rows generalizing start
  case nil => simp
  case cons row rows ih =>
    have hhead : ((row.operands.filter (· == dependency + 1)).map fun _ => start).count user =
        if user = start then row.operands.count (dependency + 1) else 0 := by
      rw [List.map_const', List.count_replicate, List.count, List.countP_eq_length_filter]
      by_cases h : user = start
      · simp [h]
      · simp [h, Ne.symm h]
    rw [List.zipIdx_cons, List.flatMap_cons, List.count_append, ih, hhead]
    rcases Nat.lt_trichotomy user start with hlt | rfl | hgt
    · rw [if_neg (by omega), if_neg (by omega), if_neg (by omega)]
    · rw [if_pos rfl, if_neg (by omega), if_pos (Nat.le_refl _), Nat.sub_self]
      rfl
    · rw [if_neg (by omega), if_pos (by omega), if_pos (by omega),
        show user - start = user - (start + 1) + 1 by omega, List.getElem?_cons_succ, Nat.zero_add]

structure Users (rows : List InstructionRow) (users : List (List Nat)) : Prop where
  count : ∀ id user row, rows[user]? = some row → id < rows.length →
    (users.getD id []).count user = row.operands.count (id + 1)
  lt : ∀ id, ∀ user ∈ users.getD id [], user < rows.length

theorem buildScheduleUsers_ok (before : OperandsBefore rows)
    (hedges : (rows.map (·.operands.length)).sum ≤ maxUint32) :
    ∃ users, buildScheduleUsers rows = .ok users ∧ Users rows users := by
  have hids : rows.all (·.operands.all fun id => id != 0 && decide (id ≤ rows.length)) = true := by
    refine List.all_eq_true.mpr fun row hr => List.all_eq_true.mpr fun o ho => ?_
    have ⟨i, hi⟩ := List.mem_iff_getElem?.mp hr
    have := before i row hi o ho
    have := (List.getElem?_eq_some_iff.mp hi).1
    simp only [Bool.and_eq_true, bne_iff_ne, decide_eq_true_eq]
    omega
  refine ⟨_, (if_neg (Nat.not_lt.mpr hedges)).trans (if_neg (by rw [hids]; simp)), ?_, ?_⟩
  case refine_1 =>
    intro id user row hu hid
    rw [List.getD_eq_getElem?_getD, List.getElem?_map, List.getElem?_range hid, Option.map_some,
      Option.getD_some, count_users, if_pos (Nat.zero_le _), Nat.sub_zero, hu]
    rfl
  case refine_2 =>
    intro id user hm
    have hcount := List.count_pos_iff.mpr hm
    by_contra hge
    by_cases hid : id < rows.length
    case pos =>
      rw [List.getD_eq_getElem?_getD, List.getElem?_map, List.getElem?_range hid, Option.map_some,
        Option.getD_some, count_users, if_pos (Nat.zero_le _), Nat.sub_zero,
        List.getElem?_eq_none (Nat.le_of_not_lt hge)] at hcount
      exact Nat.lt_irrefl 0 hcount
    case neg =>
      rw [List.getD_eq_default _ _ (by simpa using hid)] at hm
      cases hm

variable {n id : Nat} {opcode : Opcode} {order : List Nat} {row : InstructionRow}
  {users : List (List Nat)}

theorem card_setBit {ws : List Word} (hword : id / 64 < ws.length) (hid : id < n)
    (hbit : bit ws id = false) : ((Finset.range n).filter fun j => bit (setBit ws id) j).card =
      ((Finset.range n).filter fun j => bit ws j).card + 1 := by
  have hins : ((Finset.range n).filter fun j => bit (setBit ws id) j) =
      insert id ((Finset.range n).filter fun j => bit ws j) := by
    ext j
    simp only [Finset.mem_filter, Finset.mem_range, Finset.mem_insert, bit_setBit hword,
      Bool.or_eq_true, decide_eq_true_eq]
    constructor
    · rintro ⟨hj, hb | rfl⟩
      · exact .inr ⟨hj, hb⟩
      · exact .inl rfl
    · rintro (rfl | ⟨hj, hb⟩)
      · exact ⟨hid, .inr rfl⟩
      · exact ⟨hj, .inl hb⟩
  rw [hins, Finset.card_insert_of_notMem (by simp [hbit])]

theorem card_clearBit {ws : List Word} (hid : id < n) (hbit : bit ws id = true) :
    ((Finset.range n).filter fun j => bit (clearBit ws id) j).card =
      ((Finset.range n).filter fun j => bit ws j).card - 1 := by
  have hera : ((Finset.range n).filter fun j => bit (clearBit ws id) j) =
      ((Finset.range n).filter fun j => bit ws j).erase id := by
    ext j
    simp only [Finset.mem_filter, Finset.mem_range, Finset.mem_erase, bit_clearBit, Bool.and_eq_true,
      decide_eq_true_eq]
    constructor
    · rintro ⟨hj, hb, hne⟩
      exact ⟨hne, hj, hb⟩
    · rintro ⟨hne, hj, hb⟩
      exact ⟨hj, hb, hne⟩
  rw [hera, Finset.card_erase_of_mem (by simp [hid, hbit])]

structure Counted (n : Nat) (s : Schedule) : Prop where
  bits : ∀ opcode, (s.readyBits opcode).length = wordCount n
  count : ∀ opcode, s.readyCount opcode =
    ((Finset.range n).filter fun id => bit (s.readyBits opcode) id).card

theorem Counted.update {count : Nat} {bits : List Word} {indegree : List Nat}
    {runs : List OpcodeRun} {current : Option RunState} (h : s.Counted n)
    (hlen : bits.length = wordCount n)
    (hcount : count = ((Finset.range n).filter fun id => bit bits id).card) :
    Counted n ⟨indegree, Function.update s.readyBits opcode bits,
      Function.update s.readyCount opcode count, order, runs, current⟩ where
  bits opcode' := by
    by_cases ho : opcode' = opcode
    case pos => simp only [ho, Function.update_self, hlen]
    case neg => simp only [Function.update_of_ne ho, h.bits]
  count opcode' := by
    by_cases ho : opcode' = opcode
    case pos => simp only [ho, Function.update_self, hcount]
    case neg => simp only [Function.update_of_ne ho, h.count]

theorem Counted.setScheduleReady (h : s.Counted n) (hop : opcode.valid) (hid : id < n)
    (hbit : bit (s.readyBits opcode) id = false) :
    ∃ s', s.setScheduleReady opcode id = .ok s' ∧ s'.Counted n ∧ s'.current = s.current := by
  have hword : id / 64 < (s.readyBits opcode).length := by
    rw [h.bits]
    exact div_lt_wordCount hid
  have hok : ¬((!opcode.valid) = true ∨ (s.readyBits opcode).length ≤ id / 64 ∨
      bit (s.readyBits opcode) id) := by
    rw [hop, hbit, not_or, not_or, Nat.not_le]
    exact ⟨Bool.false_ne_true, hword, Bool.false_ne_true⟩
  refine ⟨_, if_neg hok, h.update ?_ ?_, rfl⟩
  case refine_1 => rw [length_setBit, h.bits]
  case refine_2 => rw [card_setBit hword hid hbit, h.count]

theorem setScheduleReady_eq_ok (h : s.setScheduleReady opcode id = .ok s') :
    s'.indegree = s.indegree ∧ s'.order = s.order ∧ opcode.valid ∧
      ∀ opcode' id', bit (s'.readyBits opcode') id' =
        (bit (s.readyBits opcode') id' || decide (opcode' = opcode ∧ id' = id)) := by
  have ⟨hn, h⟩ := of_guard h
  cases h
  simp only [not_or, Nat.not_le, Bool.not_eq_true, Bool.not_eq_false'] at hn
  refine ⟨rfl, rfl, hn.1, fun opcode' id' => ?_⟩
  by_cases ho : opcode' = opcode
  case pos =>
    subst ho
    simp [bit_setBit hn.2.1]
  case neg => simp [ho]

-- What holds between two rounds, and within a round when the users `us` still have to be told that
-- an operand of theirs is scheduled. An instruction waits for its operands that are not scheduled, and
-- is ready as soon as there are none.
structure Pending (rows : List InstructionRow) (us : List Nat) (s : Schedule) : Prop
    extends Counted rows.length s where
  length : s.indegree.length = rows.length
  ready : ∀ opcode id, bit (s.readyBits opcode) id ↔ rows[id]?.map (·.opcode) = some opcode ∧
    s.indegree.getD id 0 = 0 ∧ id ∉ s.order
  nodup : s.order.Nodup
  ordered : ∀ id ∈ s.order, id < rows.length ∧ s.indegree.getD id 0 = 0
  pending : ∀ i row, rows[i]? = some row →
    s.indegree.getD i 0 = row.operands.countP (fun o => o - 1 ∉ s.order) + us.count i

theorem Pending.releaseUser (valid : ∀ row ∈ rows, row.opcode.valid) {u : Nat} {us : List Nat}
    (hu : u < rows.length) (h : s.Pending rows (u :: us)) :
    ∃ s', releaseUser rows s u = .ok s' ∧ s'.Pending rows us ∧ s'.order = s.order ∧
      s'.current = s.current ∧
      ∀ opcode i, bit (s'.readyBits opcode) i → bit (s.readyBits opcode) i ∨ i = u := by
  have hrow : rows[u]? = some rows[u] := List.getElem?_eq_getElem hu
  have hdeg : s.indegree.getD u 0 ≠ 0 := by
    rw [h.pending u _ hrow, List.count_cons_self]
    omega
  have hord : u ∉ s.order := fun hm => hdeg (h.ordered u hm).2
  have hself : (s.indegree.set u (s.indegree.getD u 0 - 1)).getD u 0 = s.indegree.getD u 0 - 1 := by
    rw [Ragged.getD_set (h.length ▸ hu), if_pos rfl]
  have hother : ∀ i, i ≠ u →
      (s.indegree.set u (s.indegree.getD u 0 - 1)).getD i 0 = s.indegree.getD i 0 := fun i hi => by
    rw [Ragged.getD_set (h.length ▸ hu), if_neg hi]
  have hpending : ∀ i row, rows[i]? = some row →
      (s.indegree.set u (s.indegree.getD u 0 - 1)).getD i 0 =
        row.operands.countP (fun o => o - 1 ∉ s.order) + us.count i := fun i row hi => by
    by_cases he : i = u
    case pos =>
      subst he
      rw [hself, h.pending i row hi, List.count_cons_self]
      omega
    case neg => rw [hother i he, h.pending i row hi, List.count_cons_of_ne (Ne.symm he)]
  have hordered : ∀ id ∈ s.order, id < rows.length ∧
      (s.indegree.set u (s.indegree.getD u 0 - 1)).getD id 0 = 0 := fun id hm => by
    rw [hother id (ne_of_mem_of_not_mem hm hord)]
    exact h.ordered id hm
  have hnot : ∀ opcode, ¬bit (s.readyBits opcode) u := fun opcode hb =>
    hdeg ((h.ready opcode u).mp hb).2.1
  by_cases hz : s.indegree.getD u 0 - 1 = 0
  case pos =>
    have counted : Counted rows.length
        { s with indegree := s.indegree.set u (s.indegree.getD u 0 - 1) } := ⟨h.bits, h.count⟩
    have ⟨s', hs', counted', hcur⟩ := counted.setScheduleReady
      (valid _ (List.getElem_mem hu)) hu (Bool.not_eq_true _ ▸ hnot _)
    have hs : Schedule.releaseUser rows s u = .ok s' := by
      simp only [Schedule.releaseUser, if_neg hdeg, if_pos hz, hrow, Option.map_some, Option.getD_some]
      exact hs'
    have ⟨hdeg', hord', _, hbits⟩ := setScheduleReady_eq_ok hs'
    refine ⟨s', hs, ⟨counted', ?_, fun opcode i => ?_, ?_, ?_, ?_⟩, hord', hcur, fun opcode i hb => ?_⟩
    case refine_1 => rw [hdeg', List.length_set, h.length]
    case refine_2 =>
      rw [hbits, Bool.or_eq_true, decide_eq_true_eq, hdeg', hord']
      by_cases he : i = u
      case pos =>
        subst he
        rw [or_iff_right (hnot opcode), hself, hrow, Option.map_some, Option.some.injEq, and_iff_left rfl]
        exact eq_comm.trans (and_iff_left ⟨hz, hord⟩).symm
      case neg => rw [hother i he, ← h.ready opcode i, or_iff_left fun hi => he hi.2]
    case refine_3 => rw [hord']; exact h.nodup
    case refine_4 => rw [hord', hdeg']; exact hordered
    case refine_5 => rw [hord', hdeg']; exact hpending
    case refine_6 =>
      rw [hbits, Bool.or_eq_true, decide_eq_true_eq] at hb
      exact hb.imp_right And.right
  case neg =>
    refine ⟨{ s with indegree := s.indegree.set u (s.indegree.getD u 0 - 1) }, ?_,
      ⟨⟨h.bits, h.count⟩, List.length_set.trans h.length, fun opcode i => ?_, h.nodup, hordered, hpending⟩,
      rfl, rfl, fun _ _ hb => .inl hb⟩
    case refine_1 => simp only [Schedule.releaseUser, if_neg hdeg, if_neg hz]
    case refine_2 =>
      by_cases he : i = u
      case pos =>
        subst he
        refine iff_of_false (hnot opcode) fun hr => hz ?_
        rw [← hself]
        exact hr.2.1
      case neg =>
        rw [h.ready opcode i]
        simp only [hother i he]

theorem Pending.releaseUsers (valid : ∀ row ∈ rows, row.opcode.valid) {us : List Nat}
    (hus : ∀ u ∈ us, u < rows.length) (h : s.Pending rows us) :
    ∃ s', us.foldlM (Schedule.releaseUser rows) s = .ok s' ∧ s'.Pending rows [] ∧
      s'.order = s.order ∧ s'.current = s.current ∧
      ∀ opcode i, bit (s'.readyBits opcode) i → bit (s.readyBits opcode) i ∨ i ∈ us := by
  induction us generalizing s
  case nil => exact ⟨s, rfl, h, rfl, rfl, fun _ _ hb => .inl hb⟩
  case cons u us ih =>
    have ⟨hu, hus⟩ := List.forall_mem_cons.mp hus
    have ⟨s₁, h₁, hp₁, ho₁, hc₁, hb₁⟩ := h.releaseUser valid hu
    have ⟨s₂, h₂, hp₂, ho₂, hc₂, hb₂⟩ := ih hus hp₁
    refine ⟨s₂, bind_eq_ok_iff.mpr ⟨s₁, h₁, h₂⟩, hp₂, ho₂.trans ho₁, hc₂.trans hc₁,
      fun opcode i hb => ?_⟩
    rcases hb₂ opcode i hb with hb | hm
    · exact (hb₁ opcode i hb).imp_right fun he => List.mem_cons.mpr (.inl he)
    · exact .inr (List.mem_cons_of_mem _ hm)

theorem Topological.append (h : Topological rows order)
    (hid : ∀ row, rows[id]? = some row → ∀ o ∈ row.operands, o - 1 ∈ order) :
    Topological rows (order ++ [id]) := by
  intro k i row hk hi o ho
  by_cases hlt : k < order.length
  case pos =>
    rw [List.getElem?_append_left hlt] at hk
    have ⟨k', hk', he⟩ := h k i row hk hi o ho
    exact ⟨k', hk', by rwa [List.getElem?_append_left (hk'.trans hlt)]⟩
  case neg =>
    rw [List.getElem?_append_right (by omega), List.getElem?_singleton] at hk
    have ⟨_, hk⟩ := Option.ite_none_right_eq_some.mp hk
    cases hk
    have ⟨k', he⟩ := List.mem_iff_getElem?.mp (hid row hi o ho)
    have := (List.getElem?_eq_some_iff.mp he).1
    exact ⟨k', by omega, by rwa [List.getElem?_append_left this]⟩

structure Between (rows : List InstructionRow) (s : Schedule) : Prop extends Pending rows [] s where
  topological : Topological rows s.order
  cursor : ∀ run, s.current = some run → ∀ id, bit (s.readyBits run.opcode) id →
    run.cursor ≤ id / 64
  start_le : ∀ run, s.current = some run → run.start ≤ s.order.length
  fresh : ∀ run, s.current = some run → run.start = s.order.length →
    s.readyCount run.opcode ≠ 0

theorem Pending.operands_mem (h : s.Pending rows []) {i : Nat} (hi : rows[i]? = some row)
    (hd : s.indegree.getD i 0 = 0) : ∀ o ∈ row.operands, o - 1 ∈ s.order := by
  intro o ho
  have hz := h.pending i row hi
  rw [hd, List.count_nil, Nat.add_zero] at hz
  have := List.countP_eq_zero.mp hz.symm o ho
  simpa using this

theorem countP_not_mem_append {operands : List Nat} (hid : id ∉ order) (h0 : ∀ o ∈ operands, o ≠ 0) :
    operands.countP (fun o => o - 1 ∉ order) =
      operands.countP (fun o => o - 1 ∉ order ++ [id]) + operands.count (id + 1) := by
  induction operands
  case nil => rfl
  case cons o operands ih =>
    have ⟨ho, h0⟩ := List.forall_mem_cons.mp h0
    rw [List.countP_cons, List.countP_cons, List.count_cons, ih h0]
    by_cases he : o = id + 1
    case pos => simp [he, hid]; omega
    case neg =>
      have hne : o - 1 ≠ id := by omega
      simp [he, hne]
      omega

theorem Between.emit (before : OperandsBefore rows) (valid : ∀ row ∈ rows, row.opcode.valid)
    (hu : Users rows users) (h : s.Between rows) {run : RunState} (hcur : s.current = some run)
    (hpop : s.popScheduleReady run = some id) :
    ∃ s', s.emit rows users run id = .ok s' ∧ s'.Between rows ∧ id < rows.length ∧
      s'.order = s.order ++ [id] ∧ s'.current = some { run with cursor := id / 64 } := by
  have hbit := (lowest_eq_some hpop).1
  have ⟨hop, hdeg, hord⟩ := (h.ready _ _).mp hbit
  have ⟨row, hrow, _⟩ := Option.map_eq_some_iff.mp hop
  have hlt := (List.getElem?_eq_some_iff.mp hrow).1
  -- The state in which the users of the instruction are to be told.
  have hmid : Pending rows (users.getD id []) { s with
      readyBits := Function.update s.readyBits run.opcode (clearBit (s.readyBits run.opcode) id)
      readyCount := Function.update s.readyCount run.opcode (s.readyCount run.opcode - 1)
      order := s.order ++ [id]
      current := some { run with cursor := id / 64 } } := by
    have hbits : ∀ opcode i, bit (Function.update s.readyBits run.opcode
        (clearBit (s.readyBits run.opcode) id) opcode) i ↔ bit (s.readyBits opcode) i ∧ i ≠ id :=
      fun opcode i => by
        by_cases ho : opcode = run.opcode
        case pos => rw [ho, Function.update_self, bit_clearBit, Bool.and_eq_true, decide_eq_true_eq]
        case neg =>
          rw [Function.update_of_ne ho]
          refine ⟨fun hb => ⟨hb, ?_⟩, And.left⟩
          rintro rfl
          have := ((h.ready opcode i).mp hb).1
          rw [hop, Option.some.injEq] at this
          exact ho this.symm
    refine ⟨h.toCounted.update ?_ ?_, h.length, fun opcode i => ?_, ?_, fun i hm => ?_,
      fun i row hi => ?_⟩
    case refine_1 => rw [length_clearBit, h.bits]
    case refine_2 => rw [card_clearBit hlt hbit, h.count]
    case refine_3 => rw [hbits, h.ready, List.mem_append, List.mem_singleton, not_or, and_assoc, and_assoc]
    case refine_4 => exact List.Nodup.append h.nodup (List.nodup_singleton id) (by simpa using hord)
    case refine_5 =>
      rcases List.mem_append.mp hm with hm | hm
      · exact h.ordered i hm
      · rw [List.mem_singleton.mp hm]
        exact ⟨hlt, hdeg⟩
    case refine_6 =>
      rw [hu.count id i row hi hlt, ← countP_not_mem_append hord fun o ho => (before i row hi o ho).1]
      exact h.pending i row hi
  have ⟨s', hs', hp, ho, hc, hb⟩ := hmid.releaseUsers valid (hu.lt id)
  have hgrow : s'.order.length = s.order.length + 1 := by rw [ho]; simp
  refine ⟨s', hs', ⟨hp, ?_, ?_, ?_, ?_⟩, hlt, ho, hc⟩
  case refine_1 =>
    rw [ho]
    refine h.topological.append fun row' hr' => ?_
    exact h.toPending.operands_mem hr' hdeg
  case refine_2 =>
    intro run' hr' i hi
    rw [hc, Option.some.injEq] at hr'
    subst hr'
    rcases hb _ i hi with hi | hm
    · have hi : bit (s.readyBits run.opcode) i := by
        simp only [Function.update_self, bit_clearBit, Bool.and_eq_true] at hi
        exact hi.1
      exact (lowest_eq_some hpop).2 i (h.cursor run hcur i hi) hi
    · -- A user comes after its operand.
      have hi := List.getElem?_eq_getElem (hu.lt id i hm)
      have hcount := hu.count id i _ hi hlt
      have hpos := List.count_pos_iff.mpr hm
      rw [hcount] at hpos
      have := (before i _ hi _ (List.count_pos_iff.mp hpos)).2
      exact Nat.div_le_div_right (by omega)
  case refine_3 =>
    intro run' hr'
    rw [hc, Option.some.injEq] at hr'
    subst hr'
    exact hgrow ▸ Nat.le_succ_of_le (h.start_le run hcur)
  case refine_4 =>
    intro run' hr' he
    rw [hc, Option.some.injEq] at hr'
    subst hr'
    have := h.start_le run hcur
    rw [hgrow] at he
    exact absurd he (by dsimp only; omega)

theorem Counted.readyCount_ne_zero (h : s.Counted n) :
    s.readyCount opcode ≠ 0 ↔ ∃ id < n, bit (s.readyBits opcode) id := by
  rw [h.count, Finset.card_ne_zero]
  simp only [Finset.Nonempty, Finset.mem_filter, Finset.mem_range]

theorem Pending.subperm {us : List Nat} (h : s.Pending rows us) :
    s.order.Subperm (List.range rows.length) :=
  List.subperm_of_subset h.nodup fun id hm => List.mem_range.mpr (h.ordered id hm).1

theorem Pending.exists_ready (before : OperandsBefore rows) (h : s.Pending rows [])
    (hlt : s.order.length < rows.length) :
    ∃ i row, rows[i]? = some row ∧ bit (s.readyBits row.opcode) i := by
  by_contra hnone
  have hall : ∀ i < rows.length, i ∈ s.order := fun i => by
    induction i using Nat.strongRecOn
    case ind i ih =>
      intro hi
      have hrow := List.getElem?_eq_getElem hi
      by_contra hord
      refine hnone ⟨i, _, hrow, (h.ready _ i).mpr ⟨by rw [hrow, Option.map_some], ?_, hord⟩⟩
      rw [h.pending i _ hrow, List.count_nil, Nat.add_zero, List.countP_eq_zero]
      intro o ho
      have := before i _ hrow o ho
      simpa using ih (o - 1) (by omega) (by omega)
  have := (List.subperm_of_subset List.nodup_range fun i hi => hall i (List.mem_range.mp hi)).length_le
  rw [List.length_range] at this
  omega

theorem mem_scheduleOpcodes (h : opcode.valid) : opcode ∈ scheduleOpcodes := by
  revert h
  cases opcode <;> decide

-- How many rounds a schedule in the making needs at most. A run that has just started schedules an
-- instruction next.
def rounds (rows : List InstructionRow) (s : Schedule) : Nat :=
  3 * (rows.length - s.order.length) + match s.current with
    | none => 1
    | some run => if run.start < s.order.length then 2 else 0

theorem Between.step (before : OperandsBefore rows) (valid : ∀ row ∈ rows, row.opcode.valid)
    (hu : Users rows users) (h : s.Between rows) :
    (∃ s', step rows users s = .inl s' ∧ s'.Between rows ∧ rounds rows s' < rounds rows s) ∨
      step rows users s = .inr (.ok s) ∧ rows.length ≤ s.order.length := by
  cases hcur : s.current
  case none =>
    by_cases hdone : rows.length ≤ s.order.length
    case pos => exact .inr ⟨by simp only [Schedule.step, hcur, if_pos hdone], hdone⟩
    case neg =>
      obtain ⟨i, row, hi, hb⟩ := h.exists_ready before (by omega)
      have hready : s.readyCount row.opcode ≠ 0 :=
        h.readyCount_ne_zero.mpr ⟨i, (List.getElem?_eq_some_iff.mp hi).1, hb⟩
      have hfind : (scheduleOpcodes.find? fun opcode => s.readyCount opcode != 0).isSome := by
        rw [List.find?_isSome]
        exact ⟨row.opcode, mem_scheduleOpcodes (valid row (List.mem_of_getElem? hi)),
          bne_iff_ne.mpr hready⟩
      obtain ⟨opcode, hop⟩ := Option.isSome_iff_exists.mp hfind
      have hne : s.readyCount opcode ≠ 0 := by simpa using List.find?_some hop
      refine .inl ⟨{ s with current := some ⟨opcode, s.order.length, 0⟩ }, ?_, ?_, ?_⟩
      case refine_1 => simp only [Schedule.step, hcur, if_neg hdone, hop]
      case refine_2 =>
        refine ⟨⟨⟨h.bits, h.count⟩, h.length, h.ready, h.nodup, h.ordered, h.pending⟩,
          h.topological, ?_, ?_, ?_⟩
        all_goals
          rintro run ⟨⟩
          intros
          first | exact Nat.zero_le _ | exact Nat.le_refl _ | exact hne
      case refine_3 => simp [rounds, hcur]
  case some run =>
    by_cases hz : s.readyCount run.opcode = 0
    case pos =>
      have hstart : run.start < s.order.length :=
        Nat.lt_of_le_of_ne (h.start_le run hcur) fun he => h.fresh run hcur he hz
      refine .inl ⟨{ s with
        runs := s.runs ++ [⟨run.opcode, run.start, s.order.length - run.start⟩]
        current := none }, by simp only [Schedule.step, hcur, if_pos hz], ?_, ?_⟩
      case refine_1 =>
        refine ⟨⟨⟨h.bits, h.count⟩, h.length, h.ready, h.nodup, h.ordered, h.pending⟩,
          h.topological, ?_, ?_, ?_⟩
        all_goals rintro run ⟨⟩
      case refine_2 => simp [rounds, hcur, hstart]
    case neg =>
      obtain ⟨id, _, hb⟩ := h.readyCount_ne_zero.mp hz
      cases hpop : s.popScheduleReady run
      case none =>
        -- A ready instruction is not behind the cursor, so that the search finds it.
        rw [bit_of_lowest_eq_none hpop (h.cursor run hcur id hb)] at hb
        cases hb
      case some id =>
        obtain ⟨s', hs', h', hlt, ho, hc⟩ := h.emit before valid hu hcur hpop
        refine .inl ⟨s', ?_, h', ?_⟩
        case refine_1 => simp only [Schedule.step, hcur, if_neg hz, hpop, if_neg (Nat.not_le.mpr hlt), hs']
        case refine_2 =>
          have hle := h'.subperm.length_le
          have hstart := h.start_le run hcur
          rw [ho, List.length_append, List.length_singleton, List.length_range] at hle
          simp only [rounds, hcur, ho, hc, List.length_append, List.length_singleton,
            if_pos (Nat.lt_succ_of_le hstart)]
          omega

structure Starting (rows : List InstructionRow) (n : Nat) (s : Schedule) : Prop
    extends Counted rows.length s where
  indegree : s.indegree = rows.map (·.operands.length)
  order : s.order = []
  current : s.current = none
  ready : ∀ opcode id, bit (s.readyBits opcode) id ↔
    id < n ∧ ∃ row, rows[id]? = some row ∧ row.opcode = opcode ∧ row.operands = []

theorem Starting.step (valid : ∀ row ∈ rows, row.opcode.valid) (hn : rows[n]? = some row)
    (h : s.Starting rows n) :
    ∃ s', (if row.operands.length = 0 then s.setScheduleReady row.opcode n else .ok s) = .ok s' ∧
      s'.Starting rows (n + 1) := by
  by_cases hz : row.operands.length = 0
  case pos =>
    have hbit : bit (s.readyBits row.opcode) n = false := by
      rw [← Bool.not_eq_true, h.ready]
      exact fun hb => Nat.lt_irrefl n hb.1
    have ⟨s', hs', counted, hcur⟩ := h.toCounted.setScheduleReady
      (valid row (List.mem_of_getElem? hn)) (List.getElem?_eq_some_iff.mp hn).1 hbit
    have ⟨hdeg, hord, _, hbits⟩ := setScheduleReady_eq_ok hs'
    refine ⟨s', (if_pos hz).trans hs', counted, hdeg.trans h.indegree, hord.trans h.order,
      hcur.trans h.current, fun opcode id => ?_⟩
    rw [hbits, Bool.or_eq_true, decide_eq_true_eq, h.ready]
    constructor
    · rintro (⟨hlt, hrow⟩ | ⟨rfl, rfl⟩)
      · exact ⟨Nat.lt_succ_of_lt hlt, hrow⟩
      · exact ⟨Nat.lt_succ_self _, row, hn, rfl, List.eq_nil_of_length_eq_zero hz⟩
    · rintro ⟨hlt, row', hrow, ho, hnil⟩
      rcases Nat.lt_succ_iff_lt_or_eq.mp hlt with hlt | rfl
      · exact .inl ⟨hlt, row', hrow, ho, hnil⟩
      · rw [hn, Option.some.injEq] at hrow
        exact .inr ⟨ho ▸ hrow ▸ rfl, rfl⟩
  case neg =>
    refine ⟨s, if_neg hz, h.toCounted, h.indegree, h.order, h.current, fun opcode id => ?_⟩
    rw [h.ready]
    refine and_congr_left fun ⟨row', hrow, _, hnil⟩ => ⟨Nat.lt_succ_of_lt, fun hlt => ?_⟩
    refine Nat.lt_of_le_of_ne (Nat.lt_succ_iff.mp hlt) ?_
    rintro rfl
    rw [hn, Option.some.injEq] at hrow
    exact hz (by rw [hrow, hnil]; rfl)

theorem initial_ok (valid : ∀ row ∈ rows, row.opcode.valid) :
    ∃ s, initial rows = .ok s ∧ s.Between rows ∧ s.order = [] ∧ s.current = none := by
  have ⟨s, hs, h⟩ := exists_foldlM_zipIdx (P := Starting rows)
    (f := fun s ((row, id) : InstructionRow × Nat) =>
      if row.operands.length = 0 then s.setScheduleReady row.opcode id else .ok s)
    (s := ⟨rows.map (·.operands.length), fun _ => List.replicate (wordCount rows.length) 0#64,
      fun _ => 0, [], [], none⟩)
    ⟨⟨fun _ => List.length_replicate, by simp⟩, rfl, rfl, rfl, by simp⟩
    fun n row s hn h => h.step valid hn
  have hdeg : ∀ i row, rows[i]? = some row → s.indegree.getD i 0 = row.operands.length :=
    fun i row hi => by simp [h.indegree, hi]
  refine ⟨s, hs, ⟨⟨h.toCounted, by simp [h.indegree], fun opcode i => ?_, by simp [h.order],
    by simp [h.order], fun i row hi => ?_⟩, ?_, ?_, ?_, ?_⟩, h.order, h.current⟩
  case refine_1 =>
    cases hi : rows[i]?
    case none => simp [h.ready, hi]
    case some row =>
      have hlt := (List.getElem?_eq_some_iff.mp hi).1
      rw [h.ready, hdeg i row hi, h.order, hi, and_iff_right hlt]
      simp
  case refine_2 =>
    rw [hdeg i row hi, h.order]
    simp
  case refine_3 =>
    intro k i row hk
    rw [h.order] at hk
    cases hk
  all_goals
    intro run hr
    rw [h.current] at hr
    cases hr

theorem build_ok (before : OperandsBefore rows) (valid : ∀ row ∈ rows, row.opcode.valid)
    (hedges : (rows.map (·.operands.length)).sum ≤ maxUint32) :
    ∃ s, build rows = .ok s ∧ s.order.Perm (List.range rows.length) ∧ Topological rows s.order := by
  have ⟨users, husers, hu⟩ := buildScheduleUsers_ok before hedges
  have ⟨s₀, h₀, start, hord, hcur⟩ := initial_ok valid
  have ⟨s, hs, h, hle⟩ : ∃ s, Loop.run (.error .programTooLarge) (Schedule.step rows users)
      (3 * rows.length + 2) s₀ = .ok s ∧ s.Between rows ∧ rows.length ≤ s.order.length := by
    refine Loop.run_of_measure (P := Between rows)
      (Q := fun (a : Except CompileError Schedule) => ∃ s, a = .ok s ∧ s.Between rows ∧
        rows.length ≤ s.order.length) (rounds rows) (fun s h => ?_) start ?_
    case refine_1 =>
      rcases h.step before valid hu with ⟨s', hs', h', hlt⟩ | ⟨hs, hle⟩
      · exact .inl ⟨s', hs', h', hlt⟩
      · exact .inr ⟨_, hs, s, rfl, h, hle⟩
    case refine_2 => simp [rounds, hord, hcur]
  refine ⟨s, ?_, h.subperm.perm_of_length_le (by simpa using hle), h.topological⟩
  rw [build, husers, ok_bind, h₀, ok_bind, hs]

end NornRune.Schedule

namespace NornRune

open Schedule

variable {t : InstructionTable}

-- The tables that the scheduler accepts. What it refuses it refuses before it looks for the first
-- instruction.
structure Schedulable (t : InstructionTable) : Prop where
  length : t.rows.length < maxUint32
  columns : validateScheduleColumns t = .ok ()
  edges : (t.rows.map (·.operands.length)).sum ≤ maxUint32

theorem scheduleInstructions_refuses (h : ¬Schedulable t) : ∃ e, scheduleInstructions t = .error e := by
  unfold scheduleInstructions
  split
  case isTrue => exact ⟨_, rfl⟩
  case isFalse hlen =>
    cases hcol : validateScheduleColumns t
    case error e => exact ⟨e, rfl⟩
    case ok =>
      have hedges : maxUint32 < (t.rows.map (·.operands.length)).sum :=
        Nat.lt_of_not_le fun hle => h ⟨Nat.lt_of_not_le hlen, hcol, hle⟩
      have hne : t.rows.length ≠ 0 := fun hz => by
        rw [List.eq_nil_of_length_eq_zero hz] at hedges
        exact absurd hedges (Nat.not_lt_zero _)
      rw [ok_bind, if_neg hne, build, buildScheduleUsers, if_pos hedges]
      exact ⟨_, rfl⟩

theorem scheduleInstructions_ok (before : OperandsBefore t.rows) (h : Schedulable t) :
    ∃ (t' : ScheduledTable) (order : List Nat), scheduleInstructions t = .ok t' ∧
      order.Perm (List.range t.rows.length) ∧ Topological t.rows order ∧
      Reordered t t'.toInstructionTable (oldToNew order) ∧ OperandsBefore t'.rows := by
  by_cases hz : t.rows.length = 0
  case pos =>
    have hnil := List.eq_nil_of_length_eq_zero hz
    have hmap : t.nodeMap.map (·.map (oldToNew [])) = t.nodeMap := by
      refine (List.map_congr_left fun ids hm => ?_).trans (List.map_id _)
      have : ids = [] := List.eq_nil_iff_forall_not_mem.mpr fun id hid => by
        have := (validateScheduleColumns_eq_ok h.columns).2 ids hm id hid
        omega
      rw [this]
      rfl
    refine ⟨{ t with runs := [] }, [], ?_, ?_, ?_, ⟨rfl, by simp [hnil], by simp [hnil], hmap.symm⟩,
      before⟩
    case refine_1 =>
      rw [scheduleInstructions, if_neg (Nat.not_le.mpr h.length), h.columns, ok_bind, if_pos hz]
      rfl
    case refine_2 => rw [hz, List.range_zero]
    case refine_3 =>
      intro k i row hk
      cases hk
  case neg =>
    have ⟨s, hs, hperm, htop⟩ := build_ok before (validateScheduleColumns_eq_ok h.columns).1 h.edges
    have ⟨t', ht', reordered, before'⟩ :=
      permuteScheduledInstructions_ok before h.columns hperm htop
    refine ⟨{ t' with runs := s.runs }, s.order, ?_, hperm, htop, reordered, before'⟩
    rw [scheduleInstructions, if_neg (Nat.not_le.mpr h.length), h.columns, ok_bind, if_neg hz, hs,
      ok_bind, ht', ok_bind]
    rfl

theorem scheduleInstructions_eq_ok {t' : ScheduledTable} (before : OperandsBefore t.rows)
    (h : scheduleInstructions t = .ok t') : ∃ f, Reordered t t'.toInstructionTable f := by
  have hs : Schedulable t := by
    by_contra hn
    have ⟨e, he⟩ := scheduleInstructions_refuses hn
    rw [he] at h
    cases h
  have ⟨t₁, order, h₁, _, _, reordered, _⟩ := scheduleInstructions_ok before hs
  rw [h₁, Except.ok.injEq] at h
  exact ⟨_, h ▸ reordered⟩

-- Scheduling succeeds and keeps what the instructions say about each other.
theorem scheduleInstructions_sound (before : OperandsBefore t.rows) :
    (¬Schedulable t → ∃ e, scheduleInstructions t = .error e) ∧
    (Schedulable t → ∃ (t' : ScheduledTable) (order : List Nat), scheduleInstructions t = .ok t' ∧
      order.Perm (List.range t.rows.length) ∧ Topological t.rows order ∧
      Reordered t t'.toInstructionTable (oldToNew order) ∧ OperandsBefore t'.rows ∧
      ∀ leaf v v', Dataflow.Solves (rowSemantics leaf) t.rows v →
        Dataflow.Solves (rowSemantics leaf) t'.rows v' →
          ∀ id, id ≠ 0 → id ≤ t.rows.length → v id = v' (oldToNew order id)) := by
  refine ⟨scheduleInstructions_refuses, fun h => ?_⟩
  have ⟨t', order, hs, hperm, htop, reordered, before'⟩ := scheduleInstructions_ok before h
  exact ⟨t', order, hs, hperm, htop, reordered, before', fun leaf v v' hv hv' id h0 hle =>
    (reordered.image.embeds leaf).value before hv hv' h0 hle trivial⟩

def groupTable : InstructionTable where
  rows := [{ opcode := .exists, rootFlags := 0#8, node := 1, span := ⟨0, 0⟩ },
    { opcode := .equal, rootFlags := .evidence, node := 2, span := ⟨0, 0⟩ },
    { opcode := .all, operands := [1, 2, 1], rootFlags := 0#8, node := 3, span := ⟨0, 0⟩ },
    { opcode := .not, operands := [3], rootFlags := .assertion, node := 4, span := ⟨0, 0⟩ }]
  nodeMap := [[1], [2], [3], [4]]

theorem before_groupTable : OperandsBefore groupTable.rows := by
  intro i row hi o ho
  have : ∀ x ∈ groupTable.rows.zipIdx, ∀ o ∈ x.1.operands, o ≠ 0 ∧ o ≤ x.2 := by decide
  exact this (row, i) (List.mk_mem_zipIdx_iff_getElem?.mpr hi) o ho

theorem schedulable_groupTable : Schedulable groupTable :=
  ⟨by decide, by decide, by decide⟩

theorem scheduleInstructions_sound_group : OperandsBefore groupTable.rows ∧ Schedulable groupTable ∧
    ∃ (t' : ScheduledTable) (order : List Nat), scheduleInstructions groupTable = .ok t' ∧
      order.Perm (List.range 4) ∧ OperandsBefore t'.rows := by
  have ⟨t', order, hs, hperm, _, _, before, _⟩ :=
    (scheduleInstructions_sound before_groupTable).2 schedulable_groupTable
  exact ⟨before_groupTable, schedulable_groupTable, t', order, hs, hperm, before⟩

end NornRune
