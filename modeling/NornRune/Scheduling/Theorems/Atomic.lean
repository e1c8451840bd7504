import NornRune.Scheduling.Atomic

open Ledger Threads

namespace NornRune

namespace LeasePoint

def hand (t : Nat) : LeasePoint → Pool.Hand
  | .retireLoad i | .retireSwap i _ | .borrowGenerate i | .borrowSwitch i _ => some (i, .taken t)
  | .returnClaim n g | .returnRestore n g => some (g.slot, .leaving n t)
  | .returnReset _ g | .returnStore _ g | .returnSend _ g => some (g.slot, .back t)
  | _ => none

def returns : LeasePoint → Option (Nat × Grant)
  | .returnLoad n g | .returnSwitch n g => some (n, g)
  | _ => none

def looks : LeasePoint → Bool
  | .returnSwitch _ _ => true
  | _ => false

def lends : LeasePoint → Option Nat
  | .borrowSwitch _ generation => some generation
  | _ => none

def freed : LeasePoint → Bool
  | .returnSend _ _ => true
  | _ => false

end LeasePoint

namespace Leases

open LeasePoint (hand returns looks lends freed)

def view : Pool.View Leases LeasePoint where
  pool := pool
  hand := hand
  shown := returns
  looks := looks
  lends := lends
  freed := freed

variable {s s' : Leases} {t : Nat} {p p' : LeasePoint} {e : LeaseEvent} {stamps : Prop}

theorem turn_start {c : LeaseCall} (h : s.start c = some (s', p')) :
    view.Turn stamps t s .idle s' p' 0 := by
  unfold start at h
  split at h
  case h_5 n =>
    have ⟨g, hg, he⟩ := Option.map_eq_some_iff.mp h
    cases he
    exact .stay rfl rfl (.showing rfl hg rfl rfl rfl)
  all_goals
    cases h
    exact .stay rfl rfl (.plain rfl rfl rfl)

theorem turn_of_step (h : view.Holds stamps s) (k : view.Knows stamps t s p)
    (own : ∀ n g, p = .returnSwitch n g → ∀ m, (s.pool.ledger.slots g.slot).place = .lent m → m = n)
    (unseen : stamps → ∀ i, p = .borrowGenerate i → s.pool.ledger.unseen i)
    (hs : step t s p e = some (s', p')) : ∃ delta, view.Turn stamps t s p s' p' delta := by
  revert hs
  fun_cases step t s p e
  all_goals intro hs
  case case1 => exact ⟨0, turn_start hs⟩
  case case2 =>
    obtain ⟨_, hr, he⟩ := Option.map_eq_some_iff.mp hs
    cases he
    exact ⟨0, .receive hr, .plain rfl rfl rfl⟩
  all_goals cases hs
  case case4 =>
    split
    all_goals exact ⟨0, .stay rfl rfl (.plain rfl rfl rfl)⟩
  case case7 i ledger generation =>
    split
    case isTrue => exact ⟨0, .advance fun hst => unseen hst i rfl, .plain rfl rfl rfl⟩
    case isFalse =>
      refine ⟨0, .advance fun hst => unseen hst i rfl, nofun, nofun, fun generation hl => ?_, nofun⟩
      cases hl
      exact ⟨i, rfl, rfl, fun hst =>
        ((h.stamped hst).advance (unseen_iff.mp (unseen hst i rfl)).2).2⟩
  case case8 hl => exact absurd hl (h.owned.lend_ne_none k.hand)
  case case9 i generation ledger hl =>
    obtain ⟨j, hj, hgeneration, hfresh⟩ := k.lends generation rfl
    cases hj
    exact ⟨1, .lend hl hgeneration hfresh, .plain rfl rfl rfl⟩
  case case11 n g ledger hc =>
    refine ⟨0, .check hc, fun m g' he => ?_, fun _ _ m g' he => ?_, nofun, nofun⟩
    all_goals cases he
    · exact (congrArg (·[n]?) (Stays.check hc).2).trans (k.shown n g rfl)
    · exact watches_of_check hc
  case case12 n g =>
    have hm := @Pool.Moves.switch stamps t s.pool _ _ (own n g rfl)
    split
    case isTrue hsw =>
      rw [if_pos hsw] at hm
      exact ⟨0, hm, .plain rfl rfl rfl⟩
    case isFalse hsw =>
      rw [if_neg hsw] at hm
      exact ⟨0, hm, .plain rfl rfl rfl⟩
  case case15 => exact ⟨-1, .finish, .plain rfl rfl rfl⟩
  case case16 => exact ⟨0, .restore, .plain rfl rfl rfl⟩
  case case18 n g =>
    refine ⟨0, .free, nofun, nofun, nofun, fun _ => ⟨g.slot, rfl, ?_⟩⟩
    change ((s.pool.ledger.free g.slot).slots g.slot).state = .free
    rw [Ledger.free, slots_modify_self]
  case case19 n g hsend =>
    -- There is room in the channel for a context that is not in it.
    have hroom : (s.pool.send g.slot).isSome := h.owned.isSome_send (k.hand.thread rfl rfl)
    rw [hsend] at hroom
    cases hroom
  case case20 n g pool hsend =>
    obtain ⟨j, hj, hfree⟩ := k.freed rfl
    cases hj
    exact ⟨0, .sendBack hsend hfree, .plain rfl rfl rfl⟩
  all_goals exact ⟨0, .stay rfl rfl (.plain rfl rfl rfl)⟩

-- The outline of the runs in which no context is counted on while a call looks at its generation.
def outline : Outline (guarded step advancesUnseen) :=
  view.outline True (fun _ => True) fun {t s p e s' p'} h _ k hp => by
    have ⟨guard, hs⟩ := guarded_eq_some.mp hp
    have ⟨delta, turn⟩ := turn_of_step h k
      (fun n g hp => k.own h trivial (by rw [hp]; rfl) (by rw [hp]; rfl))
      (fun _ i hp => by
        rw [hp] at guard
        exact guard) hs
    exact ⟨delta, turn, trivial⟩

theorem valid_new {count : Int} {c : Config Leases LeasePoint} (h : new count = .ok c) :
    outline.Valid c := by
  unfold new at h
  have ⟨_, h⟩ := Checked.ite_eq_of_ne h nofun
  cases h
  exact ⟨⟨⟨Pool.owned_new _, fun _ => ⟨nofun, List.nodup_nil⟩⟩, trivial⟩,
    fun t => ⟨.plain rfl rfl rfl, Pool.holds_new _ t⟩⟩

end Leases
end NornRune
