import NornRune.Scheduling.Theorems.Partition

open Bitplane Checked

-- What an evidence predicate says about a row, in terms of the records that the row refers to.
namespace NornRune

namespace Program

variable (p : Program)

def StateNamed (state : Nat) (name : List Byte) : Prop :=
  state ≠ 0 ∧ ∃ id, p.evidenceStateNames[state - 1]? = some id ∧ p.symbol id = some name

def Conflicted (state : Nat) : Prop :=
  p.StateNamed state (bytes "conflict") ∨ p.StateNamed state (bytes "conflicting")

def StateReason (state reason : Nat) : Prop :=
  p.StateNamed state (bytes "stale") ∧ reason = reasonStale ∨
  p.StateNamed state (bytes "unclear") ∧ reason = reasonUnclear ∨
  p.StateNamed state (bytes "unverifiable") ∧ reason = reasonUnverifiable ∨
  p.StateNamed state (bytes "invalid") ∧ reason = reasonInvalid ∨
  p.Conflicted state ∧ reason = reasonConflict

def Uncertain (state : Nat) : Prop :=
  ∃ reason, p.StateReason state reason

end Program

structure EvidencePredicate.Qualifies (q : EvidencePredicate) (record : EvidenceRecord) : Prop where
  subject : q.subject ≠ 0 → record.subject = q.subject
  scope : q.scope ≠ 0 → record.scope = q.scope
  timing : q.timing ≠ 0 → record.timing = q.timing

namespace EvidenceRecord

variable (p : Program) (q : EvidencePredicate) (record : EvidenceRecord)

def Supports : Prop :=
  record.kind = q.kind ∧
    (record.state = q.state ∧ q.Qualifies record ∨
      record.state ≠ q.state ∧ p.Conflicted record.state)

def Opposes : Prop :=
  record.kind = q.kind ∧ record.state ≠ q.state ∧
    (¬p.Uncertain record.state ∨ p.Conflicted record.state)

def Raises (reason : Nat) : Prop :=
  record.kind = q.kind ∧
    (record.state ≠ q.state ∧ p.StateReason record.state reason ∨
      (q.subject ≠ 0 ∧ record.subject ≠ q.subject) ∧ reason = reasonWrongSubject ∨
      (q.scope ≠ 0 ∧ record.scope ≠ q.scope) ∧ reason = reasonWrongScope ∨
      (q.timing ≠ 0 ∧ record.timing ≠ q.timing) ∧ reason = reasonWrongTiming)

end EvidenceRecord

namespace EvidenceStateIndex

variable {heap : Heap} {addr : Nat} {i i' : EvidenceStateIndex}

def Faithful (heap : Heap) (i : EvidenceStateIndex) : Prop :=
  ∀ addr, i.program = some addr → classify (heap addr) = some i.reasons

theorem Faithful.bind (h : i.Faithful heap) (hb : i.bind heap addr = some i') :
    i'.program = some addr ∧ i'.Faithful heap := by
  unfold EvidenceStateIndex.bind at hb
  split at hb
  case isTrue hp =>
    cases hb
    exact ⟨hp, h⟩
  case isFalse =>
    have ⟨reasons, hc, hi⟩ := Option.map_eq_some_iff.mp hb
    subst hi
    refine ⟨rfl, fun addr' ha => ?_⟩
    cases ha
    exact hc

theorem faithful_binds (heap : Heap) (addrs : List Nat) : (binds heap addrs).Faithful heap := by
  have step (i : EvidenceStateIndex) (a : Nat) (h : i.Faithful heap) :
      ((i.bind heap a).getD i).Faithful heap := by
    cases hb : i.bind heap a
    case none => exact h
    case some => exact (h.bind hb).2
  have run (i : EvidenceStateIndex) (h : i.Faithful heap) :
      (addrs.foldl (fun i a => (i.bind heap a).getD i) i).Faithful heap := by
    induction addrs generalizing i
    case nil => exact h
    case cons a addrs ih => exact ih _ (step i a h)
  exact run empty fun _ h => nomatch h

end EvidenceStateIndex

section Classification

variable {p : Program} {stateReasons : List Nat} {state reason : Nat}

section

variable (h : EvidenceStateIndex.classify p = some stateReasons)
include h

theorem stateNamed_of_classify (h0 : state ≠ 0) (hl : state ≤ p.evidenceStateNames.length) :
    ∃ name, p.StateNamed state name ∧
      stateReasons.getD (state - 1) 0 = EvidenceStateIndex.classifyName name ∧
      ∀ name', p.StateNamed state name' → name' = name := by
  have hlt : state - 1 < p.evidenceStateNames.length := by omega
  have hid := List.getElem?_eq_getElem hlt
  have ⟨reason, hreason, hname⟩ := getElem?_of_mapM_eq_some h hid
  have ⟨name, hsymbol, hclass⟩ := Option.map_eq_some_iff.mp hname
  refine ⟨name, ⟨h0, _, hid, hsymbol⟩, ?_, ?_⟩
  · rw [List.getD_eq_getElem?_getD, hreason, Option.getD_some, hclass]
  · rintro name' ⟨_, id, hid', hsymbol'⟩
    rw [hid] at hid'
    cases hid'
    rw [hsymbol] at hsymbol'
    exact (Option.some.inj hsymbol').symm

-- A state has at most one name, so at most one of the reasons.
theorem stateReason_iff (h0 : state ≠ 0) (hl : state ≤ p.evidenceStateNames.length) :
    p.StateReason state reason ↔ reason ≠ 0 ∧ stateReasons.getD (state - 1) 0 = reason := by
  have ⟨name, hnamed, hclass, hunique⟩ := stateNamed_of_classify h h0 hl
  have named (name' : List Byte) : p.StateNamed state name' ↔ name = name' :=
    ⟨fun h => (hunique name' h).symm, fun h => h ▸ hnamed⟩
  simp only [Program.StateReason, Program.Conflicted, named, hclass, EvidenceStateIndex.classifyName]
  constructor
  · rintro (⟨rfl, rfl⟩ | ⟨rfl, rfl⟩ | ⟨rfl, rfl⟩ | ⟨rfl, rfl⟩ | ⟨rfl | rfl, rfl⟩) <;> decide
  · rintro ⟨hne, rfl⟩
    -- The name is the first of those that the classification tries.
    split_ifs at hne ⊢ with h₁ h₂ h₃ h₄ h₅
    · exact .inl ⟨h₁, rfl⟩
    · exact .inr (.inl ⟨h₂, rfl⟩)
    · exact .inr (.inr (.inl ⟨h₃, rfl⟩))
    · exact .inr (.inr (.inr (.inl ⟨h₄, rfl⟩)))
    · exact .inr (.inr (.inr (.inr ⟨h₅, rfl⟩)))
    · exact absurd rfl hne

theorem uncertain_iff (h0 : state ≠ 0) (hl : state ≤ p.evidenceStateNames.length) :
    p.Uncertain state ↔ stateReasons.getD (state - 1) 0 ≠ 0 := by
  simp only [Program.Uncertain, stateReason_iff h h0 hl]
  exact ⟨fun ⟨_, hne, he⟩ => he ▸ hne, fun hne => ⟨_, hne, rfl⟩⟩

theorem conflicted_iff (h0 : state ≠ 0) (hl : state ≤ p.evidenceStateNames.length) :
    p.Conflicted state ↔ stateReasons.getD (state - 1) 0 = reasonConflict := by
  constructor
  · intro hc
    have : p.StateReason state reasonConflict := .inr (.inr (.inr (.inr ⟨hc, rfl⟩)))
    exact ((stateReason_iff h h0 hl).mp this).2
  · intro hc
    have : p.StateReason state reasonConflict := (stateReason_iff h h0 hl).mpr ⟨by decide, hc⟩
    simpa [Program.StateReason, reasonConflict, reasonStale, reasonUnclear, reasonUnverifiable,
      reasonInvalid] using this

end

theorem mem_allReasons_of_stateReason (h : p.StateReason state reason) : reason ∈ allReasons := by
  rcases h with ⟨_, rfl⟩ | ⟨_, rfl⟩ | ⟨_, rfl⟩ | ⟨_, rfl⟩ | ⟨_, rfl⟩ <;> decide

end Classification

section Wrong

variable {expected actual reason k : Nat}

theorem wrong_eq_zero_iff (h : reason ∈ allReasons) :
    (if (expected != 0) = true ∧ (actual != expected) = true then ReasonMask.reasonBit reason
      else 0#16) = 0#16 ↔ (expected ≠ 0 → actual = expected) := by
  have hne : ReasonMask.reasonBit reason ≠ 0#16 := by
    intro hz
    have := ReasonMask.has_reasonBit h (k := reason)
    simp [hz] at this
  split
  case isTrue hw => simp_all
  case isFalse hw => simp_all

theorem has_wrong (h : reason ∈ allReasons) :
    ReasonMask.has (if expected != 0 && actual != expected then ReasonMask.reasonBit reason else 0#16) k
      = true ↔ (expected ≠ 0 ∧ actual ≠ expected) ∧ k = reason := by
  split
  case isTrue hw => simp_all [ReasonMask.has_reasonBit h]
  case isFalse hw => simp_all

end Wrong

section Record

variable {p : Program} {q : EvidencePredicate} {stateReasons : List Nat} {record : EvidenceRecord}
  (h : EvidenceStateIndex.classify p = some stateReasons) (h0 : record.state ≠ 0)
  (hl : record.state ≤ p.evidenceStateNames.length)
include h h0 hl

theorem supports_iff :
    record.Supports p q ↔ record.kind = q.kind ∧ (q.classify stateReasons record).positive = true := by
  have hq : q.Qualifies record ↔ (q.subject ≠ 0 → record.subject = q.subject) ∧
      (q.scope ≠ 0 → record.scope = q.scope) ∧ (q.timing ≠ 0 → record.timing = q.timing) :=
    ⟨fun h => ⟨h.subject, h.scope, h.timing⟩, fun ⟨hs, hc, ht⟩ => ⟨hs, hc, ht⟩⟩
  rw [EvidenceRecord.Supports, conflicted_iff h h0 hl, hq]
  simp only [EvidencePredicate.classify, classifyEvidenceRecord, Bool.or_eq_true, Bool.and_eq_true,
    beq_iff_eq, BitVec.or_eq_zero_iff, wrong_eq_zero_iff (by decide : reasonWrongSubject ∈ allReasons),
    wrong_eq_zero_iff (by decide : reasonWrongScope ∈ allReasons),
    wrong_eq_zero_iff (by decide : reasonWrongTiming ∈ allReasons)]
  by_cases hs : record.state = q.state <;> simp [hs, and_assoc, reasonConflict]

theorem opposes_iff :
    record.Opposes p q ↔ record.kind = q.kind ∧ (q.classify stateReasons record).negative = true := by
  rw [EvidenceRecord.Opposes, uncertain_iff h h0 hl, conflicted_iff h h0 hl, not_not]
  simp only [EvidencePredicate.classify, classifyEvidenceRecord, Bool.or_eq_true, Bool.and_eq_true,
    Bool.not_eq_true', beq_iff_eq, beq_eq_false_iff_ne]
  by_cases hs : record.state = q.state <;> simp [hs]

theorem raises_iff (reason : Nat) :
    record.Raises p q reason ↔
      record.kind = q.kind ∧ (q.classify stateReasons record).reasons.has reason = true := by
  rw [EvidenceRecord.Raises]
  simp only [EvidencePredicate.classify, classifyEvidenceRecord, ReasonMask.has_or, Bool.or_eq_true,
    has_wrong (by decide : reasonWrongSubject ∈ allReasons),
    has_wrong (by decide : reasonWrongScope ∈ allReasons),
    has_wrong (by decide : reasonWrongTiming ∈ allReasons)]
  have hstate : (ReasonMask.reasonBit (if record.state == q.state then 0
      else stateReasons.getD (record.state - 1) 0)).has reason = true ↔
      record.state ≠ q.state ∧ p.StateReason record.state reason := by
    by_cases hs : record.state = q.state
    case pos => simp [hs, ReasonMask.reasonBit, reasonMissing]
    case neg =>
      rw [if_neg (by simpa using hs), stateReason_iff h h0 hl]
      by_cases hz : stateReasons.getD (record.state - 1) 0 = 0
      case pos =>
        rw [hz]
        simp [ReasonMask.reasonBit, reasonMissing]
        omega
      case neg =>
        have := (stateReason_iff h h0 hl).mpr ⟨hz, rfl⟩
        rw [ReasonMask.has_reasonBit (mem_allReasons_of_stateReason this), decide_eq_true_eq]
        constructor
        · rintro rfl
          exact ⟨hs, hz, rfl⟩
        · exact fun hr => hr.2.2.symm
  rw [hstate, or_assoc]

end Record

namespace EvidencePredicate

variable {p : Program} {q : EvidencePredicate} {stateReasons : List Nat} {records : List EvidenceRecord}

def scan (q : EvidencePredicate) (stateReasons : List Nat) (records : List EvidenceRecord) :
    EvidenceScan :=
  records.foldl (q.step stateReasons) ⟨false, false, false, 0#16⟩

variable {f : EvidenceScan → Bool} {g : EvidenceRecord → Bool}

section

variable (hstep : ∀ s r, f (q.step stateReasons s r) = (f s || decide (r.kind = q.kind) && g r))
include hstep

theorem foldl_step_iff (s : EvidenceScan) :
    f (records.foldl (q.step stateReasons) s) = true ↔
      f s = true ∨ ∃ r ∈ records, r.kind = q.kind ∧ g r = true := by
  induction records generalizing s
  case nil => simp
  case cons r records ih =>
    rw [List.foldl_cons, ih, hstep, Bool.or_eq_true, Bool.and_eq_true, decide_eq_true_eq, or_assoc]
    simp only [List.mem_cons, exists_eq_or_imp]

theorem scan_iff (hstart : f ⟨false, false, false, 0#16⟩ = false) :
    f (q.scan stateReasons records) = true ↔ ∃ r ∈ records, r.kind = q.kind ∧ g r = true := by
  rw [scan, foldl_step_iff hstep, hstart]
  simp

end

theorem foundKind_scan (q : EvidencePredicate) (stateReasons : List Nat)
    (records : List EvidenceRecord) :
    (q.scan stateReasons records).foundKind = true ↔ ∃ r ∈ records, r.kind = q.kind := by
  have hstep (s : EvidenceScan) (r : EvidenceRecord) : (q.step stateReasons s r).foundKind =
      (s.foundKind || decide (r.kind = q.kind) && true) := by
    unfold step
    split <;> simp_all
  simpa using scan_iff (f := (·.foundKind)) hstep rfl

section Scan

variable (h : EvidenceStateIndex.classify p = some stateReasons) (fits : EvidenceFits p records)
include h fits

theorem positive_scan :
    (q.scan stateReasons records).positive = true ↔ ∃ r ∈ records, r.Supports p q := by
  have hstep (s : EvidenceScan) (r : EvidenceRecord) : (q.step stateReasons s r).positive =
      (s.positive || decide (r.kind = q.kind) && (q.classify stateReasons r).positive) := by
    unfold step
    split <;> simp_all
  rw [scan_iff (f := (·.positive)) hstep rfl]
  exact exists_congr fun r => and_congr_right fun hr =>
    (supports_iff h (fits.state_ne r hr) (fits.state_le r hr)).symm

theorem negative_scan :
    (q.scan stateReasons records).negative = true ↔ ∃ r ∈ records, r.Opposes p q := by
  have hstep (s : EvidenceScan) (r : EvidenceRecord) : (q.step stateReasons s r).negative =
      (s.negative || decide (r.kind = q.kind) && (q.classify stateReasons r).negative) := by
    unfold step
    split <;> simp_all
  rw [scan_iff (f := (·.negative)) hstep rfl]
  exact exists_congr fun r => and_congr_right fun hr =>
    (opposes_iff h (fits.state_ne r hr) (fits.state_le r hr)).symm

theorem has_reasons_scan (reason : Nat) :
    (q.scan stateReasons records).reasons.has reason = true ↔ ∃ r ∈ records, r.Raises p q reason := by
  have hstep (s : EvidenceScan) (r : EvidenceRecord) : (q.step stateReasons s r).reasons.has reason =
      (s.reasons.has reason ||
        decide (r.kind = q.kind) && (q.classify stateReasons r).reasons.has reason) := by
    unfold step
    split <;> simp_all
  rw [scan_iff (f := (·.reasons.has reason)) hstep (ReasonMask.has_zero reason)]
  exact exists_congr fun r => and_congr_right fun hr =>
    (raises_iff h (fits.state_ne r hr) (fits.state_le r hr) reason).symm

theorem has_reasons_lane (reason : Nat) :
    (q.lane stateReasons records).reasons.has reason = true ↔
      (∃ r ∈ records, r.Raises p q reason) ∨
      (¬∃ r ∈ records, r.kind = q.kind) ∧ reason = reasonMissing ∨
      ((∃ r ∈ records, r.Supports p q) ∧ ∃ r ∈ records, r.Opposes p q) ∧ reason = reasonConflict := by
  rw [← has_reasons_scan h fits reason, ← foundKind_scan q stateReasons records,
    ← positive_scan h fits, ← negative_scan h fits]
  simp only [lane, ← scan.eq_1, EvidenceScan.lane]
  generalize q.scan stateReasons records = s
  have hconflict : reasonConflict ∈ allReasons := by decide
  cases s.foundKind <;> cases s.positive <;> cases s.negative <;>
    simp [ReasonMask.has_with reasonMissing_mem, ReasonMask.has_with hconflict, or_assoc]

end Scan
end EvidencePredicate

structure Lane.Reports (lane : Lane) (p : Program) (q : EvidencePredicate)
    (records : List EvidenceRecord) : Prop where
  positive : lane.truth.positive = true ↔ ∃ r ∈ records, r.Supports p q
  negative : lane.truth.negative = true ↔ ∃ r ∈ records, r.Opposes p q
  reasons : ∀ reason, lane.reasons.has reason = true ↔
    (∃ r ∈ records, r.Raises p q reason) ∨
    (¬∃ r ∈ records, r.kind = q.kind) ∧ reason = reasonMissing ∨
    ((∃ r ∈ records, r.Supports p q) ∧ ∃ r ∈ records, r.Opposes p q) ∧ reason = reasonConflict

namespace EvidencePredicate

variable {p : Program} {q : EvidencePredicate} {stateReasons : List Nat}
  {records records' : List EvidenceRecord}
  (h : EvidenceStateIndex.classify p = some stateReasons)
include h

theorem lane_reports (fits : EvidenceFits p records) : (q.lane stateReasons records).Reports p q records :=
  ⟨positive_scan h fits, negative_scan h fits, has_reasons_lane h fits⟩

theorem lane_congr (fits : EvidenceFits p records) (fits' : EvidenceFits p records')
    (hrecords : ∀ r : EvidenceRecord, r.kind = q.kind → (r ∈ records ↔ r ∈ records')) :
    q.lane stateReasons records = q.lane stateReasons records' := by
  have same {P : EvidenceRecord → Prop} (hP : ∀ r, P r → r.kind = q.kind) :
      (∃ r ∈ records, P r) ↔ ∃ r ∈ records', P r :=
    exists_congr fun r => and_congr_left fun hr => hrecords r (hP r hr)
  have reports := lane_reports (q := q) h fits
  have reports' := lane_reports (q := q) h fits'
  have supports := same (P := (·.Supports p q)) fun _ hr => hr.1
  have opposes := same (P := (·.Opposes p q)) fun _ hr => hr.1
  have raises (reason : Nat) := same (P := (·.Raises p q reason)) fun _ hr => hr.1
  have kinds := same (P := (·.kind = q.kind)) fun _ hr => hr
  have htruth : (q.lane stateReasons records).truth = (q.lane stateReasons records').truth :=
    Truth.ext (Bool.eq_iff_iff.mpr (by rw [reports.positive, reports'.positive, supports]))
      (Bool.eq_iff_iff.mpr (by rw [reports.negative, reports'.negative, opposes]))
  have hreasons : (q.lane stateReasons records).reasons = (q.lane stateReasons records').reasons :=
    ReasonMask.ext_has (q.lane_valid _ _) (q.lane_valid _ _) fun reason => Bool.eq_iff_iff.mpr (by
      rw [reports.reasons, reports'.reasons, supports, opposes, raises, kinds])
  exact Lane.ext htruth hreasons

end EvidencePredicate

structure EvidenceCall (p : Program) where
  dst : Planes
  reasons : List Word
  batch : Batch
  shaped : dst.Shaped (wordCount batch.rows)
  length : reasons.length = reasonCount * wordCount batch.rows
  valid : validEvidenceBatch batch p

namespace EvidenceCall

def eval (heap : Heap) (addr : Nat) (call : EvidenceCall (heap addr)) (states : EvidenceStateIndex)
    (q : EvidencePredicate) : Except Panic Leaf :=
  evalEvidence call.dst call.reasons call.batch heap addr states q

def lane {p : Program} (call : EvidenceCall p) (leaf : Leaf) (row : Nat) : Lane :=
  ⟨leaf.truth.lane row, ReasonPlanes.lane leaf.reasons (wordCount call.batch.rows) row⟩

theorem eval_eq_ok {heap : Heap} {addr : Nat} (call : EvidenceCall (heap addr))
    {states : EvidenceStateIndex} {q : EvidencePredicate} (hp : states.program = some addr)
    (h : EvidenceStateIndex.classify (heap addr) = some states.reasons)
    (hkind : q.kind ≠ 0 ∧ q.kind ≤ (heap addr).evidenceKindNames.length)
    (hstate : q.state ≠ 0 ∧ q.state ≤ (heap addr).evidenceStateNames.length) :
    ∃ leaf, eval heap addr call states q = .ok leaf ∧ ∀ row < call.batch.rows,
      call.lane leaf row = q.lane states.reasons (call.batch.rowEvidence row) := by
  have hl : states.reasons.length = (heap addr).evidenceStateNames.length := length_of_mapM_eq_some h
  have ⟨leaf, hleaf, holds⟩ := evalEvidenceUnchecked_holds (q := q) call.shaped call.length
    (evidenceFits_of_valid call.valid) hl
  refine ⟨leaf, ?_, fun row hr => Lane.ext (holds.truth row hr) (holds.reasons row hr)⟩
  simp only [eval, evalEvidence, requireEvidencePredicate, requireEvidenceBatch, hp, hl, call.valid,
    require]
  simp [hkind, hstate, hleaf]

-- A predicate is evaluated on a row by what the records of its kind say, however often and in whatever
-- order the row refers to them. A record in a conflict state speaks for and against the predicate,
-- unless the predicate asks for that state.
theorem eval_exact (heap : Heap) (addrs : List Nat) (addr : Nat) (states : EvidenceStateIndex)
    (hbind : (EvidenceStateIndex.binds heap addrs).bind heap addr = some states) (q : EvidencePredicate)
    (hkind : q.kind ≠ 0 ∧ q.kind ≤ (heap addr).evidenceKindNames.length)
    (hstate : q.state ≠ 0 ∧ q.state ≤ (heap addr).evidenceStateNames.length)
    (call : EvidenceCall (heap addr)) :
    ∃ leaf, eval heap addr call states q = .ok leaf ∧
      (∀ row < call.batch.rows,
        (call.lane leaf row).Reports (heap addr) q (call.batch.rowEvidence row)) ∧
      ∀ (call' : EvidenceCall (heap addr)) (leaf' : Leaf), eval heap addr call' states q = .ok leaf' →
        ∀ row < call.batch.rows, ∀ row' < call'.batch.rows,
          (∀ r : EvidenceRecord, r.kind = q.kind →
            (r ∈ call.batch.rowEvidence row ↔ r ∈ call'.batch.rowEvidence row')) →
          call'.lane leaf' row' = call.lane leaf row := by
  have ⟨hp, faithful⟩ := (EvidenceStateIndex.faithful_binds heap addrs).bind hbind
  have h := faithful addr hp
  have ⟨leaf, hleaf, hlane⟩ := call.eval_eq_ok hp h hkind hstate
  refine ⟨leaf, hleaf, fun row hr => ?_, fun call' leaf' hleaf' row hr row' hr' hrecords => ?_⟩
  · rw [hlane row hr]
    exact EvidencePredicate.lane_reports h (evidenceFits_of_valid call.valid row)
  · have ⟨leaf'', heq, hlane'⟩ := call'.eval_eq_ok hp h hkind hstate
    obtain rfl : leaf' = leaf'' := Except.ok.inj (hleaf'.symm.trans heq)
    rw [hlane row hr, hlane' row' hr']
    exact (EvidencePredicate.lane_congr h (evidenceFits_of_valid call.valid row)
      (evidenceFits_of_valid call'.valid row') hrecords).symm

def disputed : Program :=
  { Scheduler.definedField with
    symbolBytes := bytes "-conflict"
    symbolStarts := [0, 1]
    symbolLengths := [1, 8]
    evidenceKindNames := [1]
    evidenceStateNames := [1, 2]
    programSymbolCount := 2
    programSymbolCount_le := Scheduler.two_le_maxUint32 }

def dispute : EvidenceCall disputed where
  dst := ⟨[0#64], [0#64]⟩
  reasons := List.replicate reasonCount 0#64
  batch :=
    { Scheduler.alternating 1 with
      evidenceOffsets := [0, 1]
      evidenceRefs := [0]
      evidence := ⟨[1], [1], [2], [2], [0], [0], [0], [0]⟩ }
  shaped := ⟨rfl, rfl⟩
  length := rfl
  valid := by decide +kernel

def disputeRecord : EvidenceRecord := ⟨1, 1, 2, 2, 0, 0, 0, 0⟩

theorem bind_disputed : EvidenceStateIndex.empty.bind (fun _ => disputed) 0 =
    some ⟨some 0, [0, reasonConflict]⟩ := by
  rfl

-- The same record and one in the first state, referred to in some order and any number of times.
def disputeBatch (refs : List Nat) : Batch :=
  { Scheduler.alternating 1 with
    evidenceOffsets := [0, refs.length]
    evidenceRefs := refs
    evidence := ⟨[1, 2], [1, 1], [2, 1], [2, 2], [0, 0], [0, 0], [0, 0], [0, 0]⟩ }

def disputeOnce : EvidenceCall disputed where
  dst := ⟨[0#64], [0#64]⟩
  reasons := List.replicate reasonCount 0#64
  batch := disputeBatch [0, 1]
  shaped := ⟨rfl, rfl⟩
  length := rfl
  valid := by decide +kernel

def disputeRepeated : EvidenceCall disputed where
  dst := ⟨[0#64], [0#64]⟩
  reasons := List.replicate reasonCount 0#64
  batch := disputeBatch [1, 0, 1]
  shaped := ⟨rfl, rfl⟩
  length := rfl
  valid := by decide +kernel

-- Both records speak for a predicate that asks for the first state, and one of them against it as well.
theorem eval_exact_dispute : ∃ leaf leaf',
    eval (fun _ => disputed) 0 disputeOnce ⟨some 0, [0, reasonConflict]⟩ ⟨1, 1, 0, 0, 0⟩ = .ok leaf ∧
    eval (fun _ => disputed) 0 disputeRepeated ⟨some 0, [0, reasonConflict]⟩ ⟨1, 1, 0, 0, 0⟩ =
      .ok leaf' ∧
    (disputeOnce.lane leaf 0).Reports disputed ⟨1, 1, 0, 0, 0⟩
      [disputeRecord, ⟨2, 1, 1, 2, 0, 0, 0, 0⟩] ∧
    disputeRepeated.lane leaf' 0 = disputeOnce.lane leaf 0 := by
  have exact_of (call : EvidenceCall disputed) := eval_exact (fun _ => disputed) [] 0
    ⟨some 0, [0, reasonConflict]⟩ bind_disputed ⟨1, 1, 0, 0, 0⟩ (by decide) (by decide) call
  have ⟨leaf, hleaf, hreports, hsame⟩ := exact_of disputeOnce
  have ⟨leaf', hleaf', _⟩ := exact_of disputeRepeated
  refine ⟨leaf, leaf', hleaf, hleaf', hreports 0 (by decide), hsame _ leaf' hleaf' 0 (by decide) 0
    (by decide) fun r _ => ?_⟩
  change r ∈ [disputeRecord, ⟨2, 1, 1, 2, 0, 0, 0, 0⟩] ↔
    r ∈ [⟨2, 1, 1, 2, 0, 0, 0, 0⟩, disputeRecord, ⟨2, 1, 1, 2, 0, 0, 0, 0⟩]
  simp only [List.mem_cons, List.not_mem_nil, or_false]
  tauto

-- A record in a conflict state does not speak for a predicate that asks for that state and for another
-- subject.
theorem conflict_asked_for :
    disputed.Conflicted disputeRecord.state ∧ disputeRecord ∈ dispute.batch.rowEvidence 0 ∧
    (eval (fun _ => disputed) 0 dispute ⟨some 0, [0, reasonConflict]⟩
        ⟨1, 2, 1, 0, 0⟩).toOption.map (fun leaf => (leaf.truth.positive, leaf.truth.negative)) =
      some ([0#64], [0#64]) := by
  refine ⟨.inl ⟨by decide, 2, rfl, by decide +kernel⟩, ?_, by decide +kernel⟩
  exact List.mem_singleton.mpr rfl

end EvidenceCall
end NornRune
