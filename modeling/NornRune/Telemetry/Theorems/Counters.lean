import Mathlib.Algebra.BigOperators.Fin
import NornRune.Telemetry.Counters

open Threads

-- Concurrent additions are neither lost nor made twice, and their order makes no difference.
namespace NornRune.Telemetry

def Capped (a b : Nat) : Prop := min a maxUint64 = min b maxUint64

theorem Capped.add {a b : Nat} (h : Capped a b) (x : Nat) : Capped (a + x) (b + x) := by
  unfold Capped at *
  omega

theorem toNat_le (a : Word) : a.toNat ≤ maxUint64 := by
  have := a.isLt
  unfold maxUint64
  omega

theorem toNat_saturated (current delta : Word) :
    (if current + delta < current then BitVec.allOnes 64 else current + delta).toNat =
      min (current.toNat + delta.toNat) maxUint64 := by
  have hc := current.isLt
  have hd := delta.isLt
  split
  case isTrue h =>
    rw [BitVec.lt_def, BitVec.toNat_add] at h
    rw [BitVec.toNat_allOnes, maxUint64]
    omega
  case isFalse h =>
    rw [BitVec.lt_def, BitVec.toNat_add] at h
    rw [BitVec.toNat_add, maxUint64]
    omega

theorem toNat_add_of_not_lt {left right : Word} (h : ¬BitVec.allOnes 64 - left < right) :
    (left + right).toNat = left.toNat + right.toNat := by
  have hl := left.isLt
  have hr := right.isLt
  rw [BitVec.lt_def, BitVec.toNat_sub, BitVec.toNat_allOnes] at h
  rw [BitVec.toNat_add]
  omega

theorem toNat_saturatingSum (left right : Word) :
    (saturatingSum left right).toNat = min (left.toNat + right.toNat) maxUint64 := by
  have hl := left.isLt
  have hr := right.isLt
  rw [saturatingSum]
  split
  case isTrue h =>
    rw [BitVec.lt_def, BitVec.toNat_sub, BitVec.toNat_allOnes] at h
    rw [BitVec.toNat_allOnes, maxUint64]
    omega
  case isFalse h =>
    have := toNat_le (left + right)
    rw [toNat_add_of_not_lt h] at this ⊢
    omega

theorem toNat_foldl_saturatingSum (words : List Word) (start : Word) :
    (words.foldl saturatingSum start).toNat = min (start.toNat + (words.map (·.toNat)).sum) maxUint64 := by
  induction words generalizing start
  case nil => simp [toNat_le]
  case cons word words ih =>
    rw [List.foldl_cons, ih, toNat_saturatingSum, List.map_cons, List.sum_cons]
    omega

def owed (counter : Counter) (updates : List (Counter × Word)) : Nat :=
  ((updates.filter (·.1 = counter)).map (·.2.toNat)).sum

theorem owed_cons (counter : Counter) (update : Counter × Word) (updates : List (Counter × Word)) :
    owed counter (update :: updates) =
      (if update.1 = counter then update.2.toNat else 0) + owed counter updates := by
  rw [owed, List.filter_cons]
  split
  case isTrue h => rw [if_pos (of_decide_eq_true h), List.map_cons, List.sum_cons, owed]
  case isFalse h => rw [if_neg (fun he => h (decide_eq_true he)), Nat.zero_add, owed]

def AddPoint.pending : AddPoint → List (Counter × Word)
  | .idle => []
  | .adding pending => pending
  | .swapping counter delta _ pending => (counter, delta) :: pending

def BatchDelta.count (delta : BatchDelta) : Counter → Nat
  | .decision row => (delta.decisions row).toNat
  | .reason row => (delta.reasons row).toNat
  | .audit row => (delta.audits row).toNat
  | .reload row => (delta.reloads row).toNat
  | .latency bucket => if durationBucket delta.duration = bucket then delta.batches.toNat else 0
  | .queue bucket => if delta.queueObserved ∧ durationBucket delta.queueWait = bucket then 1 else 0
  | .failures => delta.failures.toNat
  | .rows => delta.rows.toNat
  | .durationNanoseconds => delta.duration.toNat
  | .queueWaitNanoseconds => if delta.queueObserved then delta.queueWait.toNat else 0
  | .shutdownFailures | .exportDrops => 0

theorem owed_append (counter : Counter) (us us' : List (Counter × Word)) :
    owed counter (us ++ us') = owed counter us + owed counter us' := by
  rw [owed, List.filter_append, List.map_append, List.sum_append, owed, owed]

theorem owed_nil (counter : Counter) : owed counter [] = 0 := rfl

theorem owed_map {α : Type} {K : α → Counter} (f : α → Word) {rows : List α} (counter : Counter) :
    owed counter (rows.map fun row => (K row, f row)) =
      ((rows.filter (K · = counter)).map fun row => (f row).toNat).sum := by
  rw [owed, List.filter_map, List.map_map]
  rfl

theorem owed_updates (delta : BatchDelta) (counter : Counter) :
    owed counter delta.updates = delta.count counter := by
  have hlatency : owed counter (if delta.batches ≠ 0#64 then
      [(.latency (durationBucket delta.duration), delta.batches)] else []) =
      if .latency (durationBucket delta.duration) = counter then delta.batches.toNat else 0 := by
    by_cases h : delta.batches = 0#64 <;> simp [h, owed_cons, owed_nil]
  have hqueue : owed counter (if delta.queueObserved then
      [(.queue (durationBucket delta.queueWait), 1#64), (.queueWaitNanoseconds, delta.queueWait)] else []) =
      (if delta.queueObserved ∧ .queue (durationBucket delta.queueWait) = counter then 1 else 0) +
        if delta.queueObserved ∧ .queueWaitNanoseconds = counter then delta.queueWait.toNat else 0 := by
    cases delta.queueObserved <;> simp [owed_cons, owed_nil]
  simp only [BatchDelta.updates, owed_append, owed_map, hlatency, hqueue, owed_cons, owed_nil]
  cases counter
  case decision row => cases row <;> simp [BatchDelta.count, Decision.all]
  case reason row => cases row <;> simp [BatchDelta.count, Reason.all]
  case audit row => cases row <;> simp [BatchDelta.count, AuditOutcome.all]
  case reload row => cases row <;> simp [BatchDelta.count, ReloadOutcome.all]
  all_goals simp [BatchDelta.count]

def accepted (es : List (Nat × AddEvent)) : List BatchDelta :=
  es.filterMap fun e => match e.2 with
    | .add delta => if delta.valid then some delta else none
    | .go => none

theorem valid_of_mem_accepted {es : List (Nat × AddEvent)} {delta : BatchDelta} (h : delta ∈ accepted es) :
    delta.valid := by
  have ⟨⟨_, e⟩, _, he⟩ := List.mem_filterMap.mp h
  cases e
  case go => cases he
  case add delta' =>
    rw [Option.ite_none_right_eq_some] at he
    exact Option.some.inj he.2 ▸ he.1

def AddEvent.count (e : AddEvent) (counter : Counter) : Nat :=
  match e with
  | .add delta => if delta.valid then delta.count counter else 0
  | .go => 0

theorem sum_count_accepted (es : List (Nat × AddEvent)) (counter : Counter) :
    ((accepted es).map (·.count counter)).sum = (es.map (·.2.count counter)).sum := by
  induction es
  case nil => rfl
  case cons e es ih =>
    obtain ⟨t, e⟩ := e
    rw [List.map_cons, List.sum_cons, ← ih, accepted, List.filterMap_cons]
    cases e
    case go => exact (Nat.zero_add _).symm
    case add delta =>
      cases hv : delta.valid <;> simp [AddEvent.count, hv, accepted]

namespace Counters

variable {counters counters' : Counters} {point point' : AddPoint} {e : AddEvent} {t : Nat}

theorem capped_of_step (h : step t counters point e = some (counters', point')) (counter : Counter) :
    Capped ((counters'.values counter).toNat + owed counter point'.pending)
      ((counters.values counter).toNat + owed counter point.pending + e.count counter) := by
  unfold step at h
  split at h
  case h_1 delta =>
    cases h
    cases hv : delta.valid <;> simp [AddPoint.pending, AddEvent.count, hv, owed_updates, owed_nil, Capped]
  case h_2 =>
    cases h
    rfl
  case h_3 target delta pending =>
    split at h
    case isTrue hz =>
      cases h
      simp [AddPoint.pending, AddEvent.count, owed_cons, hz, Capped]
    case isFalse =>
      cases h
      rfl
  case h_4 target delta current pending =>
    simp only at h
    split at h
    case isFalse =>
      cases h
      rfl
    case isTrue hc =>
      cases h
      simp only [AddPoint.pending, AddEvent.count, owed_cons, Capped]
      by_cases he : target = counter
      case pos =>
        subst he
        rw [Function.update_self, toNat_saturated, if_pos rfl, hc]
        omega
      case neg => rw [Function.update_of_ne (Ne.symm he), if_neg he, Nat.zero_add, Nat.add_zero]
  case h_5 => cases h

variable {c c' : Config Counters AddPoint} {es : List (Nat × AddEvent)} {T : Finset Nat}

theorem capped_of_run (h : run step c es = some c') (ht : ∀ e ∈ es, e.1 ∈ T) (counter : Counter) :
    Capped ((c'.shared.values counter).toNat + held T (owed counter ·.pending) c')
      ((c.shared.values counter).toNat + held T (owed counter ·.pending) c +
        (es.map (·.2.count counter)).sum) := by
  induction es generalizing c
  case nil =>
    cases h
    rfl
  case cons e es ih =>
    have ⟨c₁, h₁, h⟩ := Option.bind_eq_some_iff.mp h
    have ⟨hm, ht⟩ := List.forall_mem_cons.mp ht
    have ⟨rest, hrest, hrest₁⟩ := Outline.exists_held_turn h₁ hm (owed counter ·.pending)
    have hstep := (capped_of_step (Outline.turn_eq_some h₁).1 counter).add
      (rest + (es.map (·.2.count counter)).sum)
    refine (ih h ht).trans ?_
    rw [hrest₁, hrest, List.map_cons, List.sum_cons]
    simpa only [Capped, Nat.add_assoc, Nat.add_left_comm] using hstep

def start : Config Counters AddPoint := ⟨zero, fun _ => .idle⟩

theorem toNat_values (h : run step start es = some c) (quiet : ∀ t, c.threads t = .idle)
    (counter : Counter) :
    (c.shared.values counter).toNat = min ((accepted es).map (·.count counter)).sum maxUint64 := by
  have hrun := capped_of_run h (fun e he => List.mem_toFinset.mpr (List.mem_map_of_mem he)) counter
  have hstart : held (es.map (·.1)).toFinset (owed counter ·.pending) start = 0 :=
    Finset.sum_eq_zero fun _ _ => rfl
  have hend : held (es.map (·.1)).toFinset (owed counter ·.pending) c = 0 :=
    Finset.sum_eq_zero fun t _ => by rw [quiet t]; rfl
  have hle := toNat_le (c.shared.values counter)
  rw [hstart, hend, show (start.shared.values counter).toNat = 0 from rfl, Capped] at hrun
  rw [sum_count_accepted]
  omega

end Counters

theorem toNat_decisionTotal {delta : BatchDelta} {total : Word} (h : delta.decisionTotal = some total) :
    (Decision.all.map fun row => (delta.decisions row).toNat).sum = total.toNat := by
  have general {rows : List Decision} {start : Word} (h : rows.foldlM (fun total row =>
      if BitVec.allOnes 64 - total < delta.decisions row then none
      else some (total + delta.decisions row)) start = some total) :
      start.toNat + (rows.map fun row => (delta.decisions row).toNat).sum = total.toNat := by
    induction rows generalizing start
    case nil =>
      cases h
      rfl
    case cons row rows ih =>
      rw [List.foldlM_cons, Option.bind_eq_bind, Option.bind_eq_some_iff] at h
      obtain ⟨next, hn, h⟩ := h
      rw [Option.ite_none_left_eq_some, Option.some.injEq] at hn
      rw [← ih h, ← hn.2, toNat_add_of_not_lt hn.1, List.map_cons, List.sum_cons, Nat.add_assoc]
  have := general h
  rwa [BitVec.toNat_ofNat, Nat.zero_mod, Nat.zero_add] at this

theorem sum_decisions_of_valid {delta : BatchDelta} (h : delta.valid) (hf : delta.failures = 0#64) :
    (Decision.all.map fun row => (delta.decisions row).toNat).sum = delta.rows.toNat := by
  unfold BatchDelta.valid at h
  rw [Bool.if_false_left, Bool.and_eq_true] at h
  replace h := h.2
  split at h
  case h_1 => cases h
  case h_2 decisions hd =>
    rw [toNat_decisionTotal hd]
    split at h
    case isTrue =>
      simp only [Bool.and_eq_true, beq_iff_eq] at h
      rw [h.1.2, h.2]
    case isFalse =>
      rw [hf, if_neg (BitVec.not_lt_zero), if_neg (by simp)] at h
      simp only [Bool.or_eq_true, Bool.and_eq_true, beq_iff_eq] at h
      rcases h with ⟨hr, hd⟩ | hd
      · rw [hr, hd]
      · rw [hd]

theorem sum_swap {α β : Type} (xs : List α) (ys : List β) (f : α → β → Nat) :
    (xs.map fun x => (ys.map (f x)).sum).sum = (ys.map fun y => (xs.map (f · y)).sum).sum := by
  induction xs
  case nil => simp
  case cons x xs ih => rw [List.map_cons, List.sum_cons, ih, ← List.sum_map_add]; rfl

theorem capped_sum {α : Type} (xs : List α) (f : α → Nat) :
    Capped (xs.map fun x => min (f x) maxUint64).sum (xs.map f).sum := by
  induction xs
  case nil => rfl
  case cons x xs ih =>
    simp only [Capped, List.map_cons, List.sum_cons] at ih ⊢
    omega

theorem sum_latency (delta : BatchDelta) :
    ((List.finRange 8).map fun row => delta.count (.latency row)).sum = delta.batches.toNat := by
  simp only [BatchDelta.count]
  rw [← List.sum_toFinset _ (List.nodup_finRange 8)]
  exact (Finset.sum_ite_eq _ _ _).trans (if_pos (List.mem_toFinset.mpr (List.mem_finRange _)))

-- Once all calls have returned, each counter is the sum of what was added to it, up to saturation. So
-- are the batches, which are counted by their latency. Unless a counter is saturated or a batch has
-- failed, each row was decided.
theorem Counters.additions_exact {es : List (Nat × AddEvent)} {c : Config Counters AddPoint}
    (h : run step start es = some c) (quiet : ∀ t, c.threads t = .idle) :
    (∀ counter, (c.shared.values counter).toNat =
      min ((accepted es).map (·.count counter)).sum maxUint64) ∧
    c.shared.snapshot.batches.toNat =
      min ((List.finRange 8).map fun row => (c.shared.snapshot.latencyBuckets row).toNat).sum maxUint64 ∧
    c.shared.snapshot.batches.toNat = min ((accepted es).map (·.batches.toNat)).sum maxUint64 ∧
    ((∀ counter, ((accepted es).map (·.count counter)).sum ≤ maxUint64) →
      (∀ delta ∈ accepted es, delta.failures = 0#64) →
      (Decision.all.map fun row => (c.shared.snapshot.decisions row).toNat).sum =
        c.shared.snapshot.rows.toNat) := by
  have hvalues := toNat_values h quiet
  have hbatches : c.shared.snapshot.batches.toNat =
      min ((List.finRange 8).map fun row => (c.shared.snapshot.latencyBuckets row).toNat).sum maxUint64 := by
    refine (toNat_foldl_saturatingSum _ _).trans ?_
    rw [BitVec.toNat_ofNat, Nat.zero_mod, Nat.zero_add, List.map_map]
    rfl
  refine ⟨hvalues, hbatches, ?_, fun fits hf => ?_⟩
  case refine_1 =>
    rw [hbatches]
    simp only [snapshot, hvalues]
    rw [capped_sum, sum_swap]
    simp only [sum_latency]
  case refine_2 =>
    simp only [snapshot, hvalues, Nat.min_eq_left (fits _)]
    rw [sum_swap]
    refine congrArg List.sum (List.map_congr_left fun delta hd => ?_)
    exact sum_decisions_of_valid (valid_of_mem_accepted hd) (hf delta hd)

def approval : BatchDelta where
  decisions row := if row = .approve then 1#64 else 0#64
  reasons _ := 0#64
  audits _ := 0#64
  reloads _ := 0#64
  duration := 5#64
  queueWait := 0#64
  queueObserved := false
  batches := 1#64
  failures := 0#64
  rows := 1#64

-- Two threads read the same counter before one of them swaps it, so that the other one tries again.
def contended : List (Nat × AddEvent) :=
  (0, .add approval) :: (1, .add approval) ::
    ((List.replicate 28 [(0, .go), (1, .go)]).flatten ++ [(1, .go), (1, .go)])

theorem Counters.isSome_contended : (run step start contended).isSome := by decide +kernel

theorem Counters.additions_exact_contended :
    ∃ c, run step start contended = some c ∧ (c.shared.values .rows).toNat = 2 := by
  have h := (Option.some_get isSome_contended).symm
  have quiet : ∀ t ∈ contended.map (·.1),
      ((run step start contended).get isSome_contended).threads t = .idle := by decide +kernel
  refine ⟨_, h, ((additions_exact h fun t => ?_).1 .rows).trans (by decide +kernel)⟩
  by_cases ht : t ∈ contended.map (·.1)
  case pos => exact quiet t ht
  case neg => exact Outline.threads_of_run h ht

namespace Counters

variable {counters counters' : Counters} {point point' : AddPoint} {e : AddEvent} {t : Nat}
  {c c' : Config Counters AddPoint} {es es' : List (Nat × AddEvent)}

theorem le_of_step (h : step t counters point e = some (counters', point')) (counter : Counter) :
    (counters.values counter).toNat ≤ (counters'.values counter).toNat := by
  unfold step at h
  repeat' split at h
  case h_4.isTrue target delta current pending hc =>
    cases h
    have hle := toNat_le current
    simp only [Function.update_apply]
    split
    case isTrue he =>
      rw [toNat_saturated, he, hc]
      omega
    case isFalse => exact Nat.le_refl _
  all_goals
    cases h
    try exact Nat.le_refl _

theorem le_of_run (h : run step c es = some c') (counter : Counter) :
    (c.shared.values counter).toNat ≤ (c'.shared.values counter).toNat := by
  induction es generalizing c
  case nil =>
    cases h
    exact Nat.le_refl _
  case cons e es ih =>
    have ⟨c₁, h₁, h⟩ := Option.bind_eq_some_iff.mp h
    exact (le_of_step (Outline.turn_eq_some h₁).1 counter).trans (ih h)

-- What is read while calls are being made is between what the earlier calls are known to have added
-- and what all calls so far have asked for, and it is never less than what was read before.
theorem reads_between (h : run step start es = some c) (h' : run step c es' = some c') (counter : Counter) :
    (c.shared.values counter).toNat ≤ (c'.shared.values counter).toNat ∧
    min ((accepted es).map (·.count counter)).sum maxUint64 ≤
      (c'.shared.values counter).toNat + held (es.map (·.1)).toFinset (owed counter ·.pending) c ∧
    (c'.shared.values counter).toNat ≤ min ((accepted (es ++ es')).map (·.count counter)).sum maxUint64 := by
  have capped {es c} (h : run step start es = some c) : Capped ((c.shared.values counter).toNat +
      held (es.map (·.1)).toFinset (owed counter ·.pending) c) ((accepted es).map (·.count counter)).sum := by
    have hrun := capped_of_run h (fun e he => List.mem_toFinset.mpr (List.mem_map_of_mem he)) counter
    rwa [show held _ _ start = 0 from Finset.sum_eq_zero fun _ _ => rfl, ← sum_count_accepted,
      show (start.shared.values counter).toNat = 0 from rfl, Nat.zero_add] at hrun
  have hle := le_of_run h' counter
  have hbefore := capped h
  have hafter := capped (show run step start (es ++ es') = some c' by
    rw [run, List.foldlM_append]
    exact Option.bind_eq_some_iff.mpr ⟨c, h, h'⟩)
  have hmax := toNat_le (c'.shared.values counter)
  unfold Capped at hbefore hafter
  omega

-- When both threads have read the counter of approvals, the second one swaps it after the first one.
theorem reads_between_contended : ∃ c c', run step start (contended.take 10) = some c ∧
    run step c (contended.drop 10) = some c' ∧
      (c.shared.values (.decision .approve)).toNat ≤ (c'.shared.values (.decision .approve)).toNat := by
  have ⟨c', h⟩ := Option.isSome_iff_exists.mp isSome_contended
  rw [← List.take_append_drop 10 contended, run, List.foldlM_append] at h
  have ⟨c, h₁, h₂⟩ := Option.bind_eq_some_iff.mp h
  exact ⟨c, c', h₁, h₂, (@reads_between c c' (contended.take 10) (contended.drop 10) h₁ h₂ _).1⟩

end Counters
end NornRune.Telemetry
