import NornRune.Lib.Borrowers
import NornRune.Serving.Admission

open Ledger

namespace NornRune

namespace AdmissionPoint

def hand (t : Nat) : AdmissionPoint → Pool.Hand
  | .admitLeave (some i) _ | .admitSendBack i _ | .admitGenerate i | .admitSwitch i _ =>
    some (i, .taken t)
  | .releaseLock n g => some (g.slot, .leaving n t)
  | .releaseStore _ g | .releaseSend _ g => some (g.slot, .back t)
  | _ => none

def releases : AdmissionPoint → Option (Nat × Grant)
  | .releaseLoad n g | .releaseSwitch n g | .releaseLock n g | .releaseStore n g
  | .releaseSend n g => some (n, g)
  | _ => none

def looks : AdmissionPoint → Bool
  | .releaseSwitch _ _ => true
  | _ => false

def lends : AdmissionPoint → Option Nat
  | .admitSwitch _ generation => some generation
  | _ => none

def freed : AdmissionPoint → Bool
  | .releaseSend _ _ => true
  | _ => false

end AdmissionPoint

namespace Admissions

open AdmissionPoint (hand releases looks lends freed)

def view : Pool.View Admissions AdmissionPoint where
  pool := pool
  hand := hand
  shown := releases
  looks := looks
  lends := lends
  freed := freed

@[simp]
theorem view_pool (s : Admissions) : view.pool s = s.pool := rfl

def Counted (s : Admissions) : Prop :=
  s.active = s.pool.ledger.lentCount s.pool.limit

structure Turn (stamps : Prop) (t : Nat) (s : Admissions) (p : AdmissionPoint) (s' : Admissions)
    (p' : AdmissionPoint) (delta : Int) : Prop extends view.Turn stamps t s p s' p' delta where
  active : s'.active = s.active + delta

variable {s s' : Admissions} {t u : Nat} {p p' q : AdmissionPoint} {e : AdmissionEvent} {stamps : Prop}

theorem leave_eq (k : Admissions → Admissions × AdmissionPoint) :
    (∃ drained drainedClosed, s.leave k = k { s with drained, drainedClosed, mu := none }) ∨
      s.leave k = (s, .panicked "close of closed channel") := by
  unfold leave maybeCloseDrainedLocked
  split
  case h_1 => exact .inr rfl
  case h_2 s' hs =>
    refine .inl ?_
    split at hs
    case isTrue =>
      have ⟨_, hs⟩ := Option.ite_none_left_eq_some.mp hs
      cases hs
      exact ⟨true, true, rfl⟩
    case isFalse =>
      cases hs
      exact ⟨s.drained, s.drainedClosed, rfl⟩

def Idles (p : AdmissionPoint) : Prop :=
  ∀ t, hand t p = none ∧ releases p = none ∧ lends p = none ∧ freed p = false

theorem Turn.quiet (hp : s'.pool = s.pool) (ha : s'.active = s.active) (hand : hand t p' = hand t p)
    (point : view.Point stamps t s' p') : Turn stamps t s p s' p' 0 :=
  ⟨.stay hp hand point, by rw [ha, Int.add_zero]⟩

theorem Turn.idles (hp : s'.pool = s.pool) (ha : s'.active = s.active) (hand : hand t p = none)
    (idles : Idles p') : Turn stamps t s p s' p' 0 :=
  have ⟨h, hs, hl, hf⟩ := idles t
  .quiet hp ha (h.trans hand.symm) (.plain hs hl hf)

theorem turn_leave {k : Admissions → Admissions × AdmissionPoint} (h : s.leave k = (s', p'))
    (hp : hand t p = none) (hk : ∀ s₁ : Admissions, (k s₁).1.pool = s₁.pool ∧
      (k s₁).1.active = s₁.active ∧ Idles (k s₁).2) : Turn stamps t s p s' p' 0 := by
  rcases leave_eq (s := s) k with ⟨drained, drainedClosed, hl⟩ | hl
  case inl =>
    have ⟨hpool, hc, hidles⟩ := hk { s with drained, drainedClosed, mu := none }
    rw [← hl, h] at hpool hc hidles
    exact .idles hpool hc hp hidles
  case inr =>
    cases hl.symm.trans h
    exact .idles rfl rfl hp fun _ => ⟨rfl, rfl, rfl, rfl⟩

theorem turn_start {c : AdmissionCall} (h : s.start t c = some (s', p')) :
    Turn stamps t s .idle s' p' 0 := by
  unfold start at h
  split at h
  case h_5 n =>
    have ⟨g, hg, he⟩ := Option.map_eq_some_iff.mp h
    cases he
    exact .quiet rfl rfl rfl (.showing rfl hg rfl rfl rfl)
  all_goals
    cases h
    exact .quiet rfl rfl rfl (.plain rfl rfl rfl)

theorem turn_afterWait {slot : Option Nat} {error : Option ServiceError} {canceled : Bool}
    {mu : Option Nat} {queued : Int} {waiting : List Nat}
    (h : afterWait { s with mu, queued, waiting } slot error canceled = (s', p')) :
    Turn stamps t s (.admitLeave slot error) s' p' 0 := by
  unfold afterWait at h
  dsimp only at h
  split at h
  all_goals
    cases h
    exact .quiet rfl rfl rfl (.plain rfl rfl rfl)

theorem endStop_eq (s : Admissions) (drains : Bool) : (s.endStop drains).1.pool = s.pool ∧
    (s.endStop drains).1.active = s.active ∧ Idles (s.endStop drains).2 := by
  cases drains
  all_goals exact ⟨rfl, rfl, fun _ => ⟨rfl, rfl, rfl, rfl⟩⟩

theorem turn_generate {i : Nat} (h : view.Holds stamps s) (unseen : stamps → s.pool.ledger.unseen i) :
    view.Turn stamps t s (.admitGenerate i) (s.update (s.pool.ledger.advance i))
      (.admitSwitch i ((s.pool.ledger.advance i).slots i).generation) 0 := by
  refine ⟨.advance unseen, nofun, nofun, fun generation hl => ?_, nofun⟩
  cases hl
  exact ⟨i, rfl, rfl, fun hst => ((h.stamped hst).advance (unseen_iff.mp (unseen hst)).2).2⟩

theorem turn_check {n : Nat} {g : Grant} {l : Ledger} (k : view.Knows stamps t s (.releaseLoad n g))
    (hc : s.pool.ledger.check t g.slot g.generation = some l) :
    view.Turn stamps t s (.releaseLoad n g) (s.update l) (.releaseSwitch n g) 0 := by
  have hgrants := (Stays.check hc).2
  refine ⟨.check hc, fun m g' hs => ?_, fun _ _ m g' hs => ?_, nofun, nofun⟩
  all_goals cases hs
  · exact (congrArg (·[n]?) hgrants).trans (k.shown n g rfl)
  · exact watches_of_check hc

theorem turn_of_step (h : view.Holds stamps s) (hcounted : s.Counted) (k : view.Knows stamps t s p)
    (own : ∀ n g, p = .releaseSwitch n g → ∀ m, (s.pool.ledger.slots g.slot).place = .lent m → m = n)
    (unseen : stamps → ∀ i, p = .admitGenerate i → s.pool.ledger.unseen i)
    (hs : step t s p e = some (s', p')) : ∃ delta, Turn stamps t s p s' p' delta := by
  revert hs
  fun_cases step t s p e
  all_goals intro hs
  case case1 => exact ⟨0, turn_start hs⟩
  case case6 =>
    obtain ⟨_, hr, he⟩ := Option.map_eq_some_iff.mp hs
    cases he
    exact ⟨0, ⟨.receive hr, .plain rfl rfl rfl⟩, (Int.add_zero _).symm⟩
  case case11 | case13 => exact ⟨0, turn_afterWait (Option.some.inj hs)⟩
  case case14 =>
    obtain ⟨_, hr, he⟩ := Option.map_eq_some_iff.mp hs
    cases he
    exact ⟨0, ⟨.sendTaken hr, .plain rfl rfl rfl⟩, (Int.add_zero _).symm⟩
  case case15 | case28 =>
    exact ⟨0, turn_leave (Option.some.inj hs) rfl fun _ => ⟨rfl, rfl, fun _ => ⟨rfl, rfl, rfl, rfl⟩⟩⟩
  case case21 n g _ hsw =>
    obtain ⟨rfl, rfl⟩ := Prod.mk.inj (Option.some.inj hs)
    have hm := @Pool.Moves.switch stamps t s.pool _ _ (own n g rfl)
    rw [if_pos hsw] at hm
    have hg := (congrArg (·[n]?) (Stays.switch (t := t) (i := g.slot)).2).trans (k.shown n g rfl)
    exact ⟨0, ⟨hm, .showing rfl hg rfl rfl rfl⟩, (Int.add_zero _).symm⟩
  case case22 n g _ hsw =>
    cases hs
    have hm := @Pool.Moves.switch stamps t s.pool _ _ (own n g rfl)
    rw [if_neg hsw] at hm
    exact ⟨0, ⟨hm, .plain rfl rfl rfl⟩, (Int.add_zero _).symm⟩
  case case27 =>
    obtain ⟨_, hr, he⟩ := Option.map_eq_some_iff.mp hs
    cases he
    obtain ⟨j, hj, hfree⟩ := k.freed rfl
    cases hj
    exact ⟨0, ⟨.sendBack hr hfree, .plain rfl rfl rfl⟩, (Int.add_zero _).symm⟩
  case case31 drains _ =>
    obtain ⟨hpool, hc, hidles⟩ := s.endStop_eq drains
    rw [Option.some.inj hs] at hpool hc hidles
    exact ⟨0, .idles hpool hc rfl hidles⟩
  case case36 drains =>
    exact ⟨0, turn_leave (Option.some.inj hs) rfl fun s₁ =>
      endStop_eq { s₁ with stopOnce := .done } drains⟩
  all_goals cases hs
  case case16 i _ _ =>
    split
    case isTrue =>
      exact ⟨0, ⟨.advance fun hst => unseen hst i rfl, .plain rfl rfl rfl⟩, (Int.add_zero _).symm⟩
    case isFalse => exact ⟨0, turn_generate h fun hst => unseen hst i rfl, (Int.add_zero _).symm⟩
  case case17 hl => exact absurd hl (h.owned.lend_ne_none k.hand)
  case case18 i generation _ hl =>
    obtain ⟨j, hj, hgeneration, hfresh⟩ := k.lends generation rfl
    cases hj
    exact ⟨1, ⟨.lend hl hgeneration hfresh, .plain rfl rfl rfl⟩, rfl⟩
  case case20 hc => exact ⟨0, turn_check k hc, (Int.add_zero _).symm⟩
  case case24 hneg =>
    -- The slot of the admission is lent, so that the counter is not zero.
    have hpos : 0 < s.pool.ledger.lentCount s.pool.limit := h.owned.lentCount_pos k.hand
    rw [hcounted] at hneg
    omega
  case case25 n g _ _ => exact ⟨-1, ⟨.finish, .showing rfl (k.shown n g rfl) rfl rfl rfl⟩, rfl⟩
  case case26 n g =>
    refine ⟨0, ⟨.free, fun m g' he => k.shown m g' he, (by rintro _ ⟨⟩), (by rintro _ ⟨⟩),
      fun _ => ⟨g.slot, rfl, ?_⟩⟩, (Int.add_zero _).symm⟩
    change ((s.pool.ledger.free g.slot).slots g.slot).state = .free
    rw [Ledger.free, slots_modify_self]
  all_goals exact ⟨0, .quiet rfl rfl rfl (.plain rfl rfl rfl)⟩

theorem Turn.counted {delta : Int} (turn : Turn stamps t s p s' p' delta) (h : view.Holds stamps s)
    (k : view.Knows stamps t s p) (hcounted : s.Counted) : s'.Counted := by
  have hcount := (turn.moves.good h.owned k.hand).count
  simp only [view_pool] at hcount
  rw [Counted, turn.active, hcount, hcounted]

theorem holds_new (limit : Nat) : view.Holds stamps { pool := Pool.new limit } :=
  ⟨Pool.owned_new limit, fun _ => ⟨nofun, List.nodup_nil⟩⟩

theorem counted_new (limit : Nat) : Counted { pool := Pool.new limit } :=
  congrArg Int.ofNat (Pool.lentCount_new limit).symm

theorem knows_idle (limit t : Nat) : view.Knows stamps t { pool := Pool.new limit } .idle :=
  ⟨.plain rfl rfl rfl, Pool.holds_new limit t⟩

end Admissions
end NornRune
