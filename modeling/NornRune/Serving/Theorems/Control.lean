import NornRune.Serving.Theorems.Ownership

-- The lock, the queue and the two signals of a service.
namespace NornRune

namespace AdmissionPoint

def locked : AdmissionPoint → Bool
  | admitSendBack _ _ | admitDrain _ | admitGenerate _ | admitSwitch _ _ | releaseStore _ _
  | releaseSend _ _ | releaseDrain _ | stopClose _ | stopDrain _ => true
  | _ => false

def waits : AdmissionPoint → Bool
  | admitSelect | admitLeave _ _ => true
  | _ => false

def stops : AdmissionPoint → Bool
  | stopLock _ | stopClose _ | stopDrain _ => true
  | _ => false

end AdmissionPoint

namespace AdmissionReturned

def stops : AdmissionReturned → Bool
  | stopAdmission | drain (.ok _) | drain (.error .canceled) => true
  | _ => false

def admits : AdmissionReturned → Bool
  | admitCall (.ok _) => true
  | _ => false

end AdmissionReturned

namespace Admissions

structure Ordered (s : Admissions) : Prop where
  queued : s.queued = s.waiting.length
  waiting : s.waiting.Nodup
  closed : s.drainedClosed = s.drained
  drained : s.drained → s.accepting = false ∧ s.active = 0 ∧ s.queued = 0
  settled : s.mu = none → s.accepting = false → s.active = 0 → s.queued = 0 → s.drained
  fresh : s.stopOnce = .fresh → s.accepting ∧ s.stopping = false
  done : s.stopOnce = .done → s.accepting = false
  logged : ∀ r ∈ s.returned, r.stops → s.stopOnce = .done
  refused : s.returned.Pairwise fun r r' => r.stops → r'.admits = false

structure Aware (s : Admissions) (t : Nat) (locked waits stops : Bool) : Prop where
  lock : s.mu = some t ↔ locked
  queue : t ∈ s.waiting ↔ waits
  once : s.stopOnce = .running t ↔ stops

structure Apart (t : Nat) (s s' : Admissions) : Prop where
  lock : ∀ u, u ≠ t → (s'.mu = some u ↔ s.mu = some u)
  queue : ∀ u, u ≠ t → (u ∈ s'.waiting ↔ u ∈ s.waiting)
  once : ∀ u, u ≠ t → (s'.stopOnce = .running u ↔ s.stopOnce = .running u)
  accepting : (∃ u, u ≠ t ∧ (s.mu = some u ∨ s.stopOnce = .running u)) → s'.accepting = s.accepting
  stopping : (∃ u, u ≠ t ∧ s.stopOnce = .running u) → s'.stopping = s.stopping
  drained : (∃ u, u ≠ t ∧ s.mu = some u) → s'.drained = s.drained
  given : s.drained → s'.drained
  done : s.stopOnce = .done → s'.stopOnce = .done

structure Controlled (t : Nat) (s s' : Admissions) (locked waits stops : Bool) : Prop where
  ordered : s'.Ordered
  aware : s'.Aware t locked waits stops
  apart : Apart t s s'

variable {s s' s₁ : Admissions} {t u : Nat} {p p' q : AdmissionPoint} {e : AdmissionEvent}
variable {l w o : Bool}

theorem Apart.refl (t : Nat) (s : Admissions) : Apart t s s :=
  ⟨fun _ _ => .rfl, fun _ _ => .rfl, fun _ _ => .rfl, fun _ => rfl, fun _ => rfl, fun _ => rfl, id, id⟩

namespace Controlled

theorem refl (h : s.Ordered) (k : s.Aware t l w o) : Controlled t s s l w o :=
  ⟨h, k, .refl t s⟩

variable (c : Controlled t s s₁ l w o)

include c

theorem relabel {pool : Pool} {shown : List (Nat × Nat)} :
    Controlled t s { s₁ with pool, shown } l w o :=
  ⟨{ c.ordered with }, { c.aware with }, { c.apart with }⟩

theorem log {r : AdmissionReturned} (hstops : r.stops → s₁.stopOnce = .done)
    (hadmits : r.admits → s₁.stopOnce ≠ .done) : Controlled t s (s₁.log r) l w o := by
  refine ⟨{ c.ordered with logged := ?_, refused := ?_ }, { c.aware with }, { c.apart with }⟩
  case refine_1 =>
    intro r' hr'
    rcases List.mem_append.mp hr' with hr' | hr'
    · exact c.ordered.logged r' hr'
    · rw [List.mem_singleton.mp hr']
      exact hstops
  case refine_2 =>
    refine List.pairwise_append.mpr ⟨c.ordered.refused, List.pairwise_singleton _ _, ?_⟩
    intro r' hr' _ h hs
    rw [List.mem_singleton.mp h]
    by_contra ha
    exact hadmits (by simpa using ha) (c.ordered.logged r' hr' hs)

theorem enqueue (hw : w = false) (ha : s₁.accepting) :
    Controlled t s { s₁ with queued := s₁.queued + 1, waiting := s₁.waiting ++ [t] } l true o := by
  have hne : t ∉ s₁.waiting := fun hm => by
    rw [hw] at c
    exact Bool.false_ne_true (c.aware.queue.mp hm)
  have hlen := c.ordered.queued
  refine ⟨{ c.ordered with queued := ?_, waiting := ?_, drained := ?_, settled := ?_ },
    { c.aware with queue := ?_ }, { c.apart with queue := ?_ }⟩
  case refine_1 =>
    dsimp only
    rw [List.length_append, List.length_singleton]
    omega
  case refine_2 =>
    refine List.nodup_append.mpr ⟨c.ordered.waiting, List.nodup_singleton _, fun a hm b hb => ?_⟩
    rw [List.mem_singleton.mp hb]
    rintro rfl
    exact hne hm
  case refine_3 =>
    intro hd
    have := (c.ordered.drained hd).1
    rw [ha] at this
    cases this
  case refine_4 =>
    intro _ hf
    dsimp only at hf
    rw [ha] at hf
    cases hf
  case refine_5 => simp
  case refine_6 =>
    intro u hu
    dsimp only
    rw [List.mem_append, List.mem_singleton, or_iff_left hu]
    exact c.apart.queue u hu

theorem acquire (hm : s₁.mu = none) : Controlled t s { s₁ with mu := some t } true w o := by
  refine ⟨{ c.ordered with settled := nofun }, { c.aware with lock := by simp },
    { c.apart with lock := ?_ }⟩
  intro u hu
  rw [← c.apart.lock u hu, hm]
  simp only [Option.some.injEq, reduceCtorEq, iff_false]
  exact fun he => hu he.symm

theorem dequeue (hl : l = true) (hw : w = true) :
    Controlled t s { s₁ with queued := s₁.queued - 1, waiting := s₁.waiting.erase t } l false o := by
  have hm : t ∈ s₁.waiting := c.aware.queue.mpr hw
  have hlen := c.ordered.queued
  have hpos := List.length_pos_of_mem hm
  refine ⟨{ c.ordered with queued := ?_, waiting := ?_, drained := ?_, settled := ?_ },
    { c.aware with queue := ?_ }, { c.apart with queue := ?_ }⟩
  case refine_1 =>
    dsimp only
    rw [List.length_erase_of_mem hm]
    omega
  case refine_2 => exact c.ordered.waiting.erase t
  case refine_3 =>
    intro hd
    have := (c.ordered.drained hd).2.2
    omega
  case refine_4 =>
    intro hmu
    rw [c.aware.lock.mpr hl] at hmu
    cases hmu
  case refine_5 => simp [c.ordered.waiting.not_mem_erase]
  case refine_6 =>
    intro u hu
    rw [← c.apart.queue u hu]
    exact List.mem_erase_of_ne hu

theorem unlock {d : Bool} (hl : l = true) (hgiven : s₁.drained → d)
    (hd : d → s₁.accepting = false ∧ s₁.active = 0 ∧ s₁.queued = 0)
    (hs : s₁.accepting = false → s₁.active = 0 → s₁.queued = 0 → d) :
    Controlled t s { s₁ with drained := d, drainedClosed := d, mu := none } false w o := by
  refine ⟨{ c.ordered with closed := rfl, drained := hd, settled := fun _ => hs },
    { c.aware with lock := ?_ }, { c.apart with lock := ?_, drained := ?_, given := ?_ }⟩
  case refine_1 => simp
  case refine_2 =>
    intro u hu
    rw [← c.apart.lock u hu, c.aware.lock.mpr hl]
    simp only [Option.some.injEq, reduceCtorEq, false_iff]
    exact fun he => hu he.symm
  case refine_3 =>
    rintro ⟨u, hu, hm⟩
    have := (c.apart.lock u hu).mpr hm
    rw [c.aware.lock.mpr hl] at this
    exact absurd (Option.some.inj this).symm hu
  case refine_4 => exact fun h => hgiven (c.apart.given h)

theorem activate (hl : l = true) (ha : s₁.accepting) :
    Controlled t s { s₁ with active := s₁.active + 1, mu := none } false w o := by
  have hnot : s₁.accepting ≠ false := by
    rw [ha]
    decide
  refine ⟨{ c.ordered with drained := ?_, settled := ?_ }, { c.aware with lock := ?_ },
    { c.apart with lock := ?_ }⟩
  case refine_1 => exact fun hd => absurd (c.ordered.drained hd).1 hnot
  case refine_2 => exact fun _ hf => absurd hf hnot
  case refine_3 => simp
  case refine_4 =>
    intro u hu
    rw [← c.apart.lock u hu, c.aware.lock.mpr hl]
    simp only [Option.some.injEq, reduceCtorEq, false_iff]
    exact fun he => hu he.symm

theorem deactivate (hl : l = true) (hpos : 0 < s₁.active) :
    Controlled t s { s₁ with active := s₁.active - 1 } l w o := by
  refine ⟨{ c.ordered with drained := ?_, settled := ?_ }, { c.aware with }, { c.apart with }⟩
  case refine_1 =>
    intro hd
    have := (c.ordered.drained hd).2.1
    omega
  case refine_2 =>
    intro hmu
    rw [c.aware.lock.mpr hl] at hmu
    cases hmu

theorem begin (hf : s₁.stopOnce = .fresh) (hs : s.stopOnce = .fresh) :
    Controlled t s { s₁ with stopOnce := .running t } l w true := by
  refine ⟨{ c.ordered with fresh := nofun, done := nofun, logged := ?_ }, { c.aware with once := by simp },
    { c.apart with once := ?_, done := ?_ }⟩
  case refine_1 =>
    intro r hr hstops
    have := c.ordered.logged r hr hstops
    rw [hf] at this
    cases this
  case refine_2 =>
    intro u hu
    rw [hs]
    simp only [StopOnce.running.injEq, reduceCtorEq, iff_false]
    exact fun he => hu he.symm
  case refine_3 =>
    rw [hs]
    exact nofun

theorem refuse (hl : l = true) (ho : s₁.stopOnce = .running t) (hmu : s.mu = none)
    (hs : s.stopOnce = .running t) : Controlled t s { s₁ with accepting := false } l w o := by
  refine ⟨{ c.ordered with drained := ?_, settled := ?_, fresh := ?_, done := fun _ => rfl },
    { c.aware with }, { c.apart with accepting := ?_ }⟩
  case refine_1 => exact fun hd => ⟨rfl, (c.ordered.drained hd).2⟩
  case refine_2 =>
    intro hm
    rw [c.aware.lock.mpr hl] at hm
    cases hm
  case refine_3 =>
    dsimp only
    rw [ho]
    exact nofun
  case refine_4 =>
    rintro ⟨u, hu, hb | hb⟩
    · rw [hmu] at hb
      cases hb
    · rw [hs] at hb
      cases hb
      exact absurd rfl hu

theorem close (ho : s₁.stopOnce = .running t) (hs : s.stopOnce = .running t) :
    Controlled t s { s₁ with stopping := true } l w o := by
  refine ⟨{ c.ordered with fresh := ?_ }, { c.aware with }, { c.apart with stopping := ?_ }⟩
  case refine_1 =>
    dsimp only
    rw [ho]
    exact nofun
  case refine_2 =>
    rintro ⟨u, hu, hb⟩
    rw [hs] at hb
    cases hb
    exact absurd rfl hu

theorem finish (ha : s₁.accepting = false) (hs : s.stopOnce = .running t) :
    Controlled t s { s₁ with stopOnce := .done } l w false := by
  refine ⟨{ c.ordered with fresh := nofun, done := fun _ => ha, logged := fun _ _ _ => rfl },
    { c.aware with once := by simp }, { c.apart with once := ?_, done := fun _ => rfl }⟩
  intro u hu
  rw [hs]
  simp only [StopOnce.running.injEq, reduceCtorEq, false_iff]
  exact fun he => hu he.symm

end Controlled

def Stage (s : Admissions) : AdmissionPoint → Prop
  | .admitGenerate _ | .admitSwitch _ _ => s.accepting
  | .stopLock _ => s.accepting ∧ s.stopping = false
  | .stopClose _ => s.accepting = false ∧ s.stopping = false
  | .stopDrain _ => s.accepting = false
  | .drainWait => s.stopOnce = .done
  | .releaseStore _ _ | .releaseSend _ _ => s.drained = false
  | .admitLeave none none | .panicked _ => False
  | _ => True

theorem leave_controlled (c : Controlled t s s₁ true w o) (k : Admissions → Admissions × AdmissionPoint) :
    ∃ d, s₁.leave k = k { s₁ with drained := d, drainedClosed := d, mu := none } ∧
      Controlled t s { s₁ with drained := d, drainedClosed := d, mu := none } false w o := by
  unfold leave maybeCloseDrainedLocked
  rw [c.ordered.closed]
  by_cases hd : s₁.drained
  case pos =>
    have hc := c.ordered.closed
    rw [hd] at hc
    refine ⟨true, ?_, c.unlock rfl (fun _ => rfl) (fun _ => c.ordered.drained hd) fun _ _ _ => rfl⟩
    simp [hd, hc]
  case neg =>
    by_cases hlast : s₁.accepting = false ∧ s₁.active = 0 ∧ s₁.queued = 0
    case pos =>
      refine ⟨true, ?_, c.unlock rfl (fun _ => rfl) (fun _ => hlast) fun _ _ _ => rfl⟩
      simp [hd, hlast]
    case neg =>
      have hc := c.ordered.closed
      simp only [Bool.not_eq_true] at hd
      rw [hd] at hc
      refine ⟨false, ?_, c.unlock rfl (hd ▸ id) nofun fun ha hz hq => absurd ⟨ha, hz, hq⟩ hlast⟩
      simp [hlast, hd, hc]

theorem start_controlled {c : AdmissionCall} (h : s.Ordered) (k : s.Aware t false false false)
    (hs : s.start t c = some (s', p')) :
    Controlled t s s' p'.locked p'.waits p'.stops ∧ s'.Stage p' := by
  have base := Controlled.refl h k
  unfold start at hs
  split at hs
  case h_5 n =>
    have ⟨g, _, he⟩ := Option.map_eq_some_iff.mp hs
    cases he
    exact ⟨base.relabel, trivial⟩
  case h_3 | h_6 | h_8 =>
    cases hs
    exact ⟨base, trivial⟩
  all_goals
    cases hs
    exact ⟨base.log nofun nofun, trivial⟩

theorem afterWait_controlled {slot : Option Nat} {error : Option ServiceError} {canceled : Bool}
    (c : Controlled t s s₁ true false false) (hstage : s₁.Stage (.admitLeave slot error))
    (hs : afterWait s₁ slot error canceled = (s', p')) :
    Controlled t s s' p'.locked p'.waits p'.stops ∧ s'.Stage p' := by
  unfold afterWait at hs
  dsimp only at hs
  split at hs
  case h_3 hnone =>
    cases hs
    refine ⟨c, ?_⟩
    -- The service accepts calls, since there is no error.
    cases error
    case some => cases hnone
    case none =>
      change s'.accepting = true
      by_contra ha
      simp only [Bool.not_eq_true] at ha
      rw [ha] at hnone
      cases canceled
      all_goals cases hnone
  case h_4 hnone =>
    cases error
    case some => cases hnone
    case none => exact hstage.elim
  all_goals
    cases hs
    exact ⟨c, trivial⟩

theorem endStop_controlled {drains : Bool} (c : Controlled t s s₁ false false false)
    (hdone : s₁.stopOnce = .done) (hs : s₁.endStop drains = (s', p')) :
    Controlled t s s' p'.locked p'.waits p'.stops ∧ s'.Stage p' := by
  cases drains
  case true =>
    cases hs
    exact ⟨c, hdone⟩
  case false =>
    cases hs
    exact ⟨c.log (fun _ => hdone) nofun, trivial⟩

theorem control_of_step (h : s.Ordered) (k : s.Aware t p.locked p.waits p.stops) (hstage : s.Stage p)
    (hlend : ∀ i g, p = .admitSwitch i g → (s.pool.ledger.slots i).state = .free)
    (hactive : ∀ n g, p = .releaseLock n g → 0 < s.active) (hs : step t s p e = some (s', p')) :
    Controlled t s s' p'.locked p'.waits p'.stops ∧ s'.Stage p' := by
  have base := Controlled.refl h k
  have unlocked : ¬s.mu.isSome → s.mu = none := fun hm => by simpa using hm
  revert hs
  fun_cases step t s p e
  all_goals intro hs
  case case1 => exact start_controlled h k hs
  case case6 | case14 | case27 =>
    obtain ⟨_, _, he⟩ := Option.map_eq_some_iff.mp hs
    cases he
    exact ⟨base.relabel, trivial⟩
  case case11 slot error hm | case13 slot error hm =>
    refine afterWait_controlled ((base.acquire (unlocked hm)).dequeue rfl rfl) ?_ (Option.some.inj hs)
    cases slot
    case some => trivial
    case none =>
      cases error
      · exact hstage
      · trivial
  case case15 error =>
    obtain ⟨d, hl, c⟩ := leave_controlled base fun s => (s.log (.admitCall (.error error)), .idle)
    rw [hl] at hs
    cases hs
    exact ⟨c.log (by rintro ⟨⟩) (by rintro ⟨⟩), trivial⟩
  case case21 =>
    obtain ⟨rfl, rfl⟩ := Prod.mk.inj (Option.some.inj hs)
    exact ⟨base.relabel, trivial⟩
  case case28 n =>
    obtain ⟨d, hl, c⟩ := leave_controlled base fun s => (s.log (.release (some n) (.ok ())), .idle)
    rw [hl] at hs
    cases hs
    exact ⟨c.log (by rintro ⟨⟩) (by rintro ⟨⟩), trivial⟩
  case case31 hd => exact endStop_controlled base hd (Option.some.inj hs)
  case case36 drains =>
    obtain ⟨d, hl, c⟩ := leave_controlled base fun s => { s with stopOnce := .done }.endStop drains
    rw [hl] at hs
    exact endStop_controlled (c.finish hstage (k.once.mpr rfl)) rfl (Option.some.inj hs)
  all_goals cases hs
  case case5 ha _ => exact ⟨base.enqueue rfl (by simpa using ha), trivial⟩
  case case7 | case8 => exact ⟨base, trivial⟩
  case case16 =>
    split
    all_goals exact ⟨base.relabel, hstage⟩
  case case17 i generation hl =>
    rw [Ledger.lend, if_pos (hlend i generation rfl)] at hl
    cases hl
  case case18 l _ =>
    have hnot : s.stopOnce ≠ .done := fun hd => by
      have := h.done hd
      rw [hstage] at this
      cases this
    have lent : Controlled t s (s.update l) true false false := base.relabel
    exact ⟨(lent.activate rfl hstage).log (by rintro ⟨⟩) fun _ => hnot, trivial⟩
  case case20 => exact ⟨base.relabel, trivial⟩
  case case22 => exact ⟨base.relabel.log (by rintro ⟨⟩) (by rintro ⟨⟩), trivial⟩
  case case24 n g hneg _ =>
    have := hactive n g rfl
    omega
  case case25 n g hm _ =>
    have hpos := hactive n g rfl
    refine ⟨((base.acquire (unlocked hm)).deactivate rfl hpos).relabel, ?_⟩
    -- An admission is active, so that the signal was not given yet.
    change s.drained = false
    by_contra hd
    have := (h.drained (by simpa using hd)).2.1
    omega
  case case26 => exact ⟨base.relabel, hstage⟩
  case case29 hf => exact ⟨base.begin hf hf, h.fresh hf⟩
  case case33 hm =>
    have ho := k.once.mpr rfl
    exact ⟨(base.acquire (unlocked hm)).refuse rfl ho (unlocked hm) ho, rfl, hstage.2⟩
  case case34 hstopping =>
    rw [hstage.2] at hstopping
    cases hstopping
  case case35 =>
    have ho := k.once.mpr rfl
    exact ⟨base.close ho ho, hstage.1⟩
  case case37 | case39 => exact ⟨base.log (fun _ => hstage) (by rintro ⟨⟩), trivial⟩
  all_goals exact ⟨base.log (by rintro ⟨⟩) (by rintro ⟨⟩), trivial⟩

theorem Aware.stable (k : s.Aware u l w o) (a : Apart t s s') (hu : u ≠ t) : s'.Aware u l w o :=
  ⟨(a.lock u hu).trans k.lock, (a.queue u hu).trans k.queue, (a.once u hu).trans k.once⟩

theorem Stage.stable (hstage : s.Stage q) (k : s.Aware u q.locked q.waits q.stops) (a : Apart t s s')
    (hu : u ≠ t) : s'.Stage q := by
  have haccepting : q.locked ∨ q.stops → s'.accepting = s.accepting := fun h =>
    a.accepting ⟨u, hu, h.imp k.lock.mpr k.once.mpr⟩
  have hdrained : q.locked → s'.drained = s.drained := fun h => a.drained ⟨u, hu, k.lock.mpr h⟩
  have hstopping : q.stops → s'.stopping = s.stopping := fun h => a.stopping ⟨u, hu, k.once.mpr h⟩
  cases q
  case admitGenerate => exact (haccepting (.inl rfl)).trans hstage
  case admitSwitch => exact (haccepting (.inl rfl)).trans hstage
  case stopLock => exact ⟨(haccepting (.inr rfl)).trans hstage.1, (hstopping rfl).trans hstage.2⟩
  case stopClose => exact ⟨(haccepting (.inl rfl)).trans hstage.1, (hstopping rfl).trans hstage.2⟩
  case stopDrain => exact (haccepting (.inl rfl)).trans hstage
  case drainWait => exact a.done hstage
  case releaseStore => exact (hdrained rfl).trans hstage
  case releaseSend => exact (hdrained rfl).trans hstage
  case panicked => exact hstage
  case admitLeave slot error =>
    cases slot
    case some => trivial
    case none =>
      cases error
      · exact hstage
      · trivial
  all_goals trivial

end Admissions
end NornRune
