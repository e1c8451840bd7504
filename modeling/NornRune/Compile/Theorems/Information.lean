import NornRune.Compile.Theorems.Correct
import NornRune.Debugging.Theorems.Faithful
import NornRune.Execution.Theorems.Isolation

open Checked

-- What is known about a request stays known when facts are added to it.
namespace NornRune

namespace Truth

variable {a a' b b' : Truth}

def Definite (a : Truth) : Prop := a = .top ∨ a = .bottom

structure Extends (a b : Truth) : Prop where
  positive : a.positive → b.positive
  negative : a.negative → b.negative
  coherent : ¬(b.positive ∧ b.negative)

namespace Extends

theorem not (h : a.Extends b) : a.not.Extends b.not :=
  ⟨h.negative, h.positive, fun hb => h.coherent hb.symm⟩

theorem and (h : a.Extends b) (h' : a'.Extends b') : (a.and a').Extends (b.and b') := by
  simp only [Truth.and]
  refine ⟨?_, ?_, ?_⟩
  all_goals simp only [Bool.and_eq_true, Bool.or_eq_true]
  case refine_1 => exact And.imp h.positive h'.positive
  case refine_2 => exact Or.imp h.negative h'.negative
  case refine_3 =>
    rintro ⟨⟨hp, hp'⟩, hn | hn⟩
    · exact h.coherent ⟨hp, hn⟩
    · exact h'.coherent ⟨hp', hn⟩

theorem or (h : a.Extends b) (h' : a'.Extends b') : (a.or a').Extends (b.or b') :=
  (h.not.and h'.not).not

theorem ofBool (c : Bool) : (Truth.ofBool c).Extends (.ofBool c) := by
  cases c <;> exact ⟨id, id, by decide⟩

theorem foldl {op : Lane → Lane → Lane} (hop : ∀ {l l' m m' : Lane}, l.truth.Extends m.truth →
      l'.truth.Extends m'.truth → (op l l').truth.Extends (op m m').truth)
    {operands : List Nat} {v v' : Nat → Lane} (h : ∀ o ∈ operands, (v o).truth.Extends (v' o).truth)
    {l m : Lane} (hl : l.truth.Extends m.truth) :
    ((operands.map v).foldl op l).truth.Extends ((operands.map v').foldl op m).truth := by
  induction operands generalizing l m
  case nil => exact hl
  case cons o operands ih =>
    have ⟨ho, hs⟩ := List.forall_mem_cons.mp h
    exact ih hs (hop hl ho)

theorem eq_of_definite (h : a.Extends b) (hd : a.Definite) : b = a := by
  have ⟨hp, hn, hc⟩ := h
  obtain ⟨p, n⟩ := b
  rcases hd with rfl | rfl <;> cases p <;> cases n <;> simp_all [top, bottom, Truth.ofBool]

end Extends
end Truth

section Code

variable {p : Program} {code : List Instr} {a b : Row}

theorem leafLane_coherent (opcode : Opcode) (present matched : Bool) :
    ¬((leafLane opcode present matched).truth.positive ∧
      (leafLane opcode present matched).truth.negative) := by
  cases opcode <;> cases present <;> cases matched <;> decide

theorem Predicate.Resolved.extends {q : Predicate} {row : Nat} (h : q.Resolved p row)
    (hd : q.opcode ≠ .defined) (keeps : a.Keeps p q.field b) :
    (q.lane a).truth.Extends (q.lane b).truth := by
  refine ⟨?_, ?_, leafLane_coherent q.opcode (b.present q.field) (q.holds b)⟩
  all_goals
    unfold lane
    cases hp : a.present q.field
    case false => cases ho : q.opcode <;> simp_all [leafLane]
    case true =>
      rw [(keeps hp).1, h.holds_eq keeps hp]
      exact id

def Program.EvidenceApart (p : Program) : Prop :=
  ∀ i < p.opcodes.length, ∀ o ∈ p.operandsOf i, p.opcodes.getD (o - 1) .invalid ≠ .evidence

theorem extends_codeValues (sched : Scheduled p) (hc : p.code = .ok code) (hd : .defined ∉ p.opcodes)
    (apart : p.EvidenceApart) (facts : ∀ field, a.Keeps p field b) (stateReasons : List Nat) {id : Nat}
    (h0 : id ≠ 0) (hle : id ≤ code.length) (hne : p.opcodes.getD (id - 1) .invalid ≠ .evidence) :
    (codeValues code stateReasons a id).truth.Extends (codeValues code stateReasons b id).truth := by
  induction id using Nat.strongRecOn
  case ind id ih =>
    obtain ⟨i, rfl⟩ := Nat.exists_eq_succ_of_ne_zero h0
    have hi : code[i]? = some code[i] := List.getElem?_eq_getElem hle
    generalize code[i] = instr at hi
    have ⟨hlt, hr⟩ := getElem?_code hc hi
    have resolved := resolveInstr_eq_ok hr
    have hoperands : ∀ o ∈ instr.operands, (codeValues code stateReasons a o).truth.Extends
        (codeValues code stateReasons b o).truth := fun o ho => by
      have ⟨ho0, hoi⟩ := operands_le_of_resolveInstr sched hlt hr o ho
      exact ih o (by omega) ho0 (by omega) (apart i hlt o (operands_of_resolveInstr sched hlt hr ho))
    rw [codeValues_succ sched hc hi, codeValues_succ sched hc hi]
    cases instr
    case constant c => exact .ofBool c
    case predicate q =>
      refine resolved.2.extends (fun ho => hd ?_) (facts q.field)
      rw [← ho, resolved.2.opcode, List.getD_eq_getElem _ _ hlt]
      exact List.getElem_mem hlt
    case evidence => exact absurd resolved hne
    case all => exact .foldl Truth.Extends.and hoperands (.ofBool true)
    case any => exact .foldl Truth.Extends.or hoperands (.ofBool false)
    case not o => exact (hoperands o (List.mem_singleton_self o)).not

theorem codeValues_of_definite (sched : Scheduled p) (hc : p.code = .ok code)
    (hd : .defined ∉ p.opcodes) (apart : p.EvidenceApart) (facts : ∀ field, a.Keeps p field b)
    (evidence : a.evidence = b.evidence) (stateReasons : List Nat) {id : Nat} (h0 : id ≠ 0)
    (hle : id ≤ code.length) (definite : (codeValues code stateReasons a id).truth.Definite) :
    (codeValues code stateReasons b id).truth = (codeValues code stateReasons a id).truth := by
  by_cases hne : p.opcodes.getD (id - 1) .invalid = .evidence
  case neg =>
    exact (extends_codeValues sched hc hd apart facts stateReasons h0 hle hne).eq_of_definite definite
  case pos =>
    obtain ⟨i, rfl⟩ := Nat.exists_eq_succ_of_ne_zero h0
    have hi : code[i]? = some code[i] := List.getElem?_eq_getElem hle
    generalize code[i] = instr at hi
    have resolved := resolveInstr_eq_ok (getElem?_code hc hi).2
    rw [Nat.succ_sub_one] at hne
    rw [codeValues_succ sched hc hi, codeValues_succ sched hc hi]
    cases instr
    case evidence q => exact congrArg (fun records => (q.lane stateReasons records).truth) evidence.symm
    case predicate =>
      rw [Instr.Resolved, hne] at resolved
      cases resolved.1
    case constant => cases resolved.symm.trans hne
    all_goals cases resolved.1.symm.trans hne

end Code

section Lineage

variable {doc : Document} {fields : Schema} {symbols : Interner} {p : Program} {w : ValueWalk}
  {nodeRoots : List RootFlags} {l : Lowering} {order : List Nat} {cand : Candidate} {node : Nat}

theorem Made.opcode_ne_evidence {canon : Nat → Nat} {flat : Nat → List Nat}
    (h : Made w doc canon flat node cand) (hk : doc.kind node ≠ some .evidence) :
    cand.opcode ≠ .evidence := by
  cases h
  case evidence hk' _ _ _ _ => exact absurd hk' hk
  case single op _ _ _ ho _ _ _ => cases op <;> cases ho <;> exact nofun
  case bare op _ _ _ ho _ => cases op <;> cases ho <;> exact nofun
  case group kind _ _ _ _ _ =>
    dsimp only
    split <;> exact nofun
  all_goals exact nofun

-- Evidence is no part of an expression, so that no operand is made for it.
theorem Lowering.Sound.operand_opcode (sound : Sound w doc nodeRoots l order)
    (valid : doc.Validated fields) (hn : node ∈ order) (made : Made w doc l.canon l.flat node cand) :
    ∀ o ∈ cand.operands, ∃ row, l.rows[o - 1]? = some row ∧ row.opcode ≠ .evidence := by
  have child_row {child : Nat} (hm : child ∈ order) (hk : doc.kind child ≠ some .evidence) :
      ∃ row, l.rows[l.canon child - 1]? = some row ∧ row.opcode ≠ .evidence := by
    have ⟨row, _, hrow, made, _⟩ := sound.made child hm
    exact ⟨row, hrow, made.opcode_ne_evidence hk⟩
  obtain ⟨done, rest, he⟩ := List.append_of_mem hn
  -- Groups within a group of their kind were visited before it.
  induction hd : done.length using Nat.strongRecOn generalizing done rest node cand
  case ind k ih =>
    cases made
    case group kind children hk hg hc _ =>
      intro o ho
      have ⟨child, hm, ho⟩ := List.mem_flatMap.mp ho
      have hdone := sound.before done node rest he child (doc.children_of_group hk hg hc ▸ hm)
      have hchild : child ∈ order := he ▸ List.mem_append_left _ hdone
      unfold contribution at ho
      split at ho
      case isFalse =>
        rw [List.mem_singleton.mp ho]
        exact child_row hchild ((valid.groupChildren hk hg hc).2 child hm).kind
      case isTrue hkind =>
        have ⟨row, _, _, made, hflat⟩ := sound.made child hchild
        have ⟨done', rest', he'⟩ := List.append_of_mem hdone
        rw [hflat kind hkind hg] at ho
        refine ih done'.length ?_ hchild made done' (rest' ++ node :: rest) ?_ rfl o ho
        · rw [← hd, he', List.length_append, List.length_cons]
          omega
        · rw [he, he', List.append_assoc, List.cons_append]
    case not child hk hc =>
      have hm := sound.before done node rest he child (by simp [doc.children_of_not hk hc])
      rw [List.forall_mem_singleton]
      exact child_row (he ▸ List.mem_append_left _ hm) (valid.notChild hk hc).kind
    all_goals exact nofun

theorem Lineage.evidenceApart (h : Lineage doc fields symbols p) : p.EvidenceApart := by
  obtain ⟨low, _, tr⟩ := h
  intro i hi o ho
  rw [low.columns.opcodes, List.length_map] at hi
  have hrow := List.getElem?_eq_getElem hi
  rw [(low.columns.hasRow hrow).operands] at ho
  have ⟨i₀, row₀, hi₀, hkeep, _, hmap⟩ := tr.image.origin i _ hrow
  rw [hmap] at ho
  have ⟨o₀, ho₀, hfo⟩ := List.mem_map.mp ho
  have ⟨hnode, hcanon, _⟩ := tr.sound.origin i₀ row₀ hi₀
  have ⟨row₁, _, hrow₁, made, _⟩ := tr.sound.made _ hnode
  rw [hcanon, Nat.add_sub_cancel, hi₀, Option.some.injEq] at hrow₁
  subst hrow₁
  have ⟨row, hrow', hne⟩ := tr.sound.operand_opcode (Document.validated low.valid) hnode made o₀ ho₀
  have h0 := (tr.sound.ordered i₀ row₀ hi₀ o₀ ho₀).1
  have hsucc : o₀ - 1 + 1 = o₀ := Nat.sub_add_cancel (Nat.pos_of_ne_zero h0)
  have ⟨j, hj, hrow''⟩ := tr.image.row _ row hrow' (hsucc ▸ tr.image.operand i₀ row₀ hi₀ hkeep o₀ ho₀)
  rw [hsucc, hfo] at hj
  rw [hj, Nat.add_sub_cancel, (low.columns.hasRow hrow'').opcode]
  exact hne

namespace Executor

variable {k k' : Kernels} {heap : Heap} {addr : Nat} {cs cs' : List NornRune.Call} {e e' : Executor}
  {batch batch' : Batch} {mode mode' : ExecutionMode} {dst dst' out out' : ResultBatch} {r r' : Nat}

-- An instruction that is definitely true or definitely false on a row stays so if facts are added to
-- the row, and so does the applicability of each requirement at the end of the schedule.
theorem definite_kept (compiled : lower doc fields symbols = .ok (heap addr))
    (hd : .defined ∉ (heap addr).opcodes)
    (he : prepareExecution heap (calls k heap cs) dst addr batch mode = (e, out, .ok ()))
    (he' : prepareExecution heap (calls k' heap cs') dst' addr batch' mode' = (e', out', .ok ()))
    (hr : r < batch.rows) (hr' : r' < batch'.rows)
    (facts : ∀ field, (batch.row r).Keeps (heap addr) field (batch'.row r'))
    (evidence : batch.rowEvidence r = batch'.rowEvidence r') :
    (∀ instruction, instruction ≠ 0 → instruction ≤ (heap addr).opcodes.length →
      ∃ truth reasons truth' reasons',
        e.straight k heap addr batch mode instruction r = .ok (truth, reasons) ∧
        e'.straight k' heap addr batch' mode' instruction r' = .ok (truth', reasons') ∧
        (truth.Definite → truth' = truth)) ∧
    ∃ e₁ e₁', executeScheduleMode k heap e addr batch mode = (e₁, .ok ()) ∧
      executeScheduleMode k' heap e' addr batch' mode' = (e₁', .ok ()) ∧
      ∀ i < doc.requirementIDs.length,
        ((e₁.lanes batch.rows r).value (heap addr) ((heap addr).requirementRoots.getD i 0)).truth.Definite →
        ((e₁'.lanes batch'.rows r').value (heap addr) ((heap addr).requirementRoots.getD i 0)).truth =
          ((e₁.lanes batch.rows r).value (heap addr) ((heap addr).requirementRoots.getD i 0)).truth := by
  have ⟨prepared, cached⟩ := (cached_calls k heap cs).prepared_cached he
  have ⟨prepared', cached'⟩ := (cached_calls k' heap cs').prepared_cached he'
  have hstates : e.states.reasons = e'.states.reasons := Option.some.inj
    ((cached.states addr prepared.bound.states).symm.trans (cached'.states addr prepared'.bound.states))
  have ⟨e₁, code, he₁, hc, acc, kept, hroots⟩ := executeScheduleMode_values k mode compiled prepared
  have ⟨e₁', code', he₁', hc', acc', _, hroots'⟩ := executeScheduleMode_values k' mode' compiled prepared'
  cases hc.symm.trans hc'
  have ⟨h⟩ := Lineage.of_lower compiled
  have kept_value {id : Nat} (h0 : id ≠ 0) (hle : id ≤ code.length) := codeValues_of_definite acc.sched
    hc hd h.evidenceApart facts evidence e.states.reasons h0 hle
  refine ⟨fun instruction h0 hle => ?_, e₁, e₁', he₁, he₁', fun i hi => ?_⟩
  case refine_1 =>
    rw [← length_code hc] at hle
    refine ⟨_, _, _, _, straight_eq_ok acc prepared.ready prepared.bound kept hc h0 hle hr,
      straight_eq_ok acc' prepared'.ready prepared'.bound kept hc h0 hle hr', ?_⟩
    rw [← hstates]
    exact kept_value h0 hle
  case refine_2 =>
    have ⟨h0, hle, hvalue⟩ := hroots _ _ (.requirement hi)
    rw [(hvalue r hr).1, ((hroots' _ _ (.requirement hi)).2.2 r' hr').1, ← hstates]
    exact kept_value h0 hle

-- The requirement applies if one of two flags exists.
def eitherPolicy : Document :=
  { flagPolicy [.compare, .compare, .any] [0, 1, 0] [0] [2] [1, 2] [] 3 with
    compareFields := [1, 2]
    compareOps := [.exists, .exists]
    compareValues := [0, 0]
    compareListStarts := [0, 0]
    compareListCounts := [0, 0] }

def eitherSchema : Schema :=
  ⟨[1, 2], [.boolean, .boolean], [.subject, .subject], rfl, rfl, by decide, by decide⟩

def eitherSymbols : Interner := fun name => some (bytes (if name = 1 then "flag" else "mark"))

def eitherProgram : Program :=
  (lower eitherPolicy eitherSchema eitherSymbols).toOption.get (by decide +kernel)

theorem lower_eitherPolicy : lower eitherPolicy eitherSchema eitherSymbols = .ok eitherProgram :=
  eq_ok_of_toOption _

def twoFlags (second : BitVec 64) : Batch :=
  { Scheduler.alternating 1 with booleanValues := [0#64, 0#64], presenceMasks := [1#64, second] }

def eitherPrepared (second : BitVec 64) : Executor :=
  (prepareExecution (fun _ => eitherProgram) zero .empty 0 (twoFlags second) .auto).1

-- The second flag is missing, which leaves its own instruction open, but not the other ones. They keep
-- their truth when it is supplied.
theorem definite_kept_either : ∃ e₁ e₁' missing reasons reasons',
    (eitherPrepared 0#64).straight .portable (fun _ => eitherProgram) 0 (twoFlags 0#64) .auto 2 0 =
      .ok (⟨false, false⟩, missing) ∧
    (eitherPrepared 0#64).straight .portable (fun _ => eitherProgram) 0 (twoFlags 0#64) .auto 3 0 =
      .ok (.top, reasons) ∧
    (eitherPrepared 1#64).straight .portable (fun _ => eitherProgram) 0 (twoFlags 1#64) .auto 3 0 =
      .ok (.top, reasons') ∧
    executeScheduleMode .portable (fun _ => eitherProgram) (eitherPrepared 0#64) 0 (twoFlags 0#64) .auto =
      (e₁, .ok ()) ∧
    executeScheduleMode .portable (fun _ => eitherProgram) (eitherPrepared 1#64) 0 (twoFlags 1#64) .auto =
      (e₁', .ok ()) ∧
    ((e₁.lanes 1 0).value eitherProgram (eitherProgram.requirementRoots.getD 0 0)).truth = .top ∧
    ((e₁'.lanes 1 0).value eitherProgram (eitherProgram.requirementRoots.getD 0 0)).truth = .top := by
  have prepare (second : BitVec 64) (h : (prepareExecution (fun _ => eitherProgram) zero .empty 0
      (twoFlags second) .auto).2.2 = .ok ()) : prepareExecution (fun _ => eitherProgram)
      (calls .portable (fun _ => eitherProgram) []) .empty 0 (twoFlags second) .auto =
        (eitherPrepared second, _, .ok ()) := Prod.ext rfl (Prod.ext rfl h)
  have masks (i : Nat) (h : ([1#64, 0#64].getD i 0#64).getLsbD 0) :
      ([1#64, 1#64].getD i 0#64).getLsbD 0 := by
    rcases i with _ | _ | i <;> simp_all
  have ⟨instructions, e₁, e₁', he, he', roots⟩ := definite_kept lower_eitherPolicy (by decide +kernel)
    (prepare 0#64 (by decide +kernel)) (prepare 1#64 (by decide +kernel)) Nat.one_pos Nat.one_pos
    (fun _ hf => ⟨masks _ hf, fun _ _ _ => rfl⟩) rfl
  have ⟨truth, reasons, truth', reasons', hi, hi', kept⟩ := instructions 3 (by decide) (by decide +kernel)
  have htruth : ((eitherPrepared 0#64).straight .portable (fun _ => eitherProgram) 0 (twoFlags 0#64) .auto 3
      0).toOption.map (·.1) = some .top := by decide +kernel
  have hroot : ((executeScheduleMode .portable (fun _ => eitherProgram) (eitherPrepared 0#64) 0 (twoFlags 0#64)
      .auto).1.lanes 1 0).value eitherProgram (eitherProgram.requirementRoots.getD 0 0) =
        ⟨.top, 1#16⟩ := by decide +kernel
  rw [hi] at htruth
  rw [he] at hroot
  cases htruth
  have hkept : truth' = .top := kept (.inl rfl)
  have hdefinite := congrArg Lane.truth hroot
  have hopen : ((eitherPrepared 0#64).straight .portable (fun _ => eitherProgram) 0 (twoFlags 0#64) .auto 2 0) =
      .ok (⟨false, false⟩, 1#16) := by decide +kernel
  exact ⟨e₁, e₁', 1#16, reasons, reasons', hopen, hi, hkept ▸ hi', he, he', hdefinite,
    (roots 0 (by decide) (.inl hdefinite)).trans hdefinite⟩
end Executor
end Lineage
end NornRune
