import Mathlib.Data.List.Perm.Subperm
import NornRune.Lib.Ledger

open Ledger

-- A pool of slots that threads take from a channel, lend, and send back.
structure Pool where
  limit : Nat
  available : List Nat
  ledger : Ledger := {}

namespace Pool

def new (limit : Nat) : Pool where
  limit := limit
  available := List.range limit

def update (p : Pool) (ledger : Ledger) : Pool :=
  { p with ledger }

def receive (t : Nat) (p : Pool) : Option (Nat × Pool) :=
  match p.available with
  | [] => none
  | i :: available => some (i, { p with available, ledger := p.ledger.take t i })

-- The channel has room for all slots. There is no result as long as it is full.
def send (p : Pool) (i : Nat) : Option Pool :=
  if p.available.length < p.limit then
    some { p with available := p.available ++ [i], ledger := p.ledger.putBack i }
  else none

abbrev Hand := Option (Nat × Place)

-- What holds of a pool at all times: the channel has the slots that are nowhere else.
structure Owned (p : Pool) : Prop where
  sound : p.ledger.Sound
  pool : ∀ i, i ∈ p.available ↔ i < p.limit ∧ (p.ledger.slots i).place = .pool
  nodup : p.available.Nodup
  range : ∀ i, p.limit ≤ i → (p.ledger.slots i).place = .pool

-- What a thread knows about slots: which of them it has in its hands.
def Holds (t : Nat) (p : Pool) (hand : Hand) : Prop :=
  ∀ i pl, pl.thread = some t → ((p.ledger.slots i).place = pl ↔ hand = some (i, pl))

-- What a thread can do with the slots of a pool, and by how much the number of slots that are lent
-- changes. With `stamps`, no slot is counted on while a thread looks at its generation.
inductive Moves (stamps : Prop) (t : Nat) (p : Pool) : Hand → Pool → Hand → Int → Prop
  | stay {hand : Hand} : Moves stamps t p hand p hand 0
  | receive {i : Nat} {p' : Pool} (received : p.receive t = some (i, p')) :
    Moves stamps t p none p' (some (i, .taken t)) 0
  | sendTaken {i : Nat} {p' : Pool} (sent : p.send i = some p') :
    Moves stamps t p (some (i, .taken t)) p' none 0
  | sendBack {i : Nat} {p' : Pool} (sent : p.send i = some p') (free : (p.ledger.slots i).state = .free) :
    Moves stamps t p (some (i, .back t)) p' none 0
  | advance {i : Nat} (unseen : stamps → p.ledger.unseen i) :
    Moves stamps t p (some (i, .taken t)) (p.update (p.ledger.advance i)) (some (i, .taken t)) 0
  | lend {i generation : Nat} {l : Ledger} (lent : p.ledger.lend i generation = some l)
    (current : (p.ledger.slots i).generation = generation) (fresh : stamps → p.ledger.Fresh i) :
    Moves stamps t p (some (i, .taken t)) (p.update l) none 1
  | check {i generation : Nat} {l : Ledger} (checked : p.ledger.check t i generation = some l) :
    Moves stamps t p none (p.update l) none 0
  | switch {i n : Nat} (own : ∀ m, (p.ledger.slots i).place = .lent m → m = n) :
    Moves stamps t p none (p.update (p.ledger.switch t i).1)
      (if (p.ledger.switch t i).2 then some (i, .leaving n t) else none) 0
  | restore {i n : Nat} : Moves stamps t p (some (i, .leaving n t)) (p.update (p.ledger.restore i)) none 0
  | finish {i n : Nat} :
    Moves stamps t p (some (i, .leaving n t)) (p.update (p.ledger.finish t n i)) (some (i, .back t)) (-1)
  | free {i : Nat} :
    Moves stamps t p (some (i, .back t)) (p.update (p.ledger.free i)) (some (i, .back t)) 0

variable {stamps : Prop} {p p' : Pool} {hand hand' : Hand} {t u i n : Nat} {delta : Int}

theorem owned_new (limit : Nat) : (new limit).Owned where
  sound := ⟨⟨nofun, List.nodup_nil⟩, fun _ => rfl, nofun, nofun⟩
  pool i := by simp [new]
  nodup := List.nodup_range
  range := fun _ _ => rfl

theorem holds_new (limit t : Nat) : (new limit).Holds t none :=
  fun _ _ ht => iff_of_false (fun he => by rw [← he] at ht; cases ht) nofun

theorem lentCount_new (limit : Nat) : (new limit).ledger.lentCount limit = 0 := by
  simp [lentCount, new, Place.grant]

theorem Owned.lt (h : p.Owned) (hp : (p.ledger.slots i).place ≠ .pool) : i < p.limit :=
  Nat.lt_of_not_le fun hle => hp (h.range i hle)

theorem Owned.length_lt (h : p.Owned) (hp : (p.ledger.slots i).place ≠ .pool) :
    p.available.length < p.limit := by
  have hi : i ∉ p.available := fun hm => hp ((h.pool i).mp hm).2
  have hnodup : (i :: p.available).Nodup := List.nodup_cons.mpr ⟨hi, h.nodup⟩
  have hsub : i :: p.available ⊆ List.range p.limit := fun j hj => by
    rcases List.mem_cons.mp hj with hj | hj
    · rw [hj]
      exact List.mem_range.mpr (h.lt hp)
    · exact List.mem_range.mpr ((h.pool j).mp hj).1
  have := (List.subperm_of_subset hnodup hsub).length_le
  rwa [List.length_range] at this

theorem place_ne_pool_of_thread (h : (p.ledger.slots i).place.thread = some t) :
    (p.ledger.slots i).place ≠ .pool := fun he => by
  rw [he] at h
  cases h

theorem Owned.isSome_send (h : p.Owned) (ht : (p.ledger.slots i).place.thread = some t) :
    (p.send i).isSome := by
  rw [send, if_pos (h.length_lt (place_ne_pool_of_thread ht))]
  rfl

theorem send_eq_some (h : p.send i = some p') : p.available.length < p.limit ∧
    p' = { p with available := p.available ++ [i], ledger := p.ledger.putBack i } := by
  unfold send at h
  have ⟨hlt, h⟩ := Option.ite_none_right_eq_some.mp h
  cases h
  exact ⟨hlt, rfl⟩

theorem receive_eq_some (h : p.receive t = some (i, p')) :
    p.available = i :: p'.available ∧ p' = { p with
      available := p'.available, ledger := p.ledger.take t i } := by
  unfold receive at h
  split at h
  case h_1 => cases h
  case h_2 ha =>
    cases h
    exact ⟨ha, rfl⟩

theorem Holds.mine (k : p.Holds t hand) {pl : Place} (hp : hand = some (i, pl))
    (ht : pl.thread = some t) : (p.ledger.slots i).place = pl :=
  (k i pl ht).mpr hp

theorem Holds.thread (k : p.Holds t hand) {pl : Place} (hp : hand = some (i, pl))
    (ht : pl.thread = some t) : (p.ledger.slots i).place.thread = some t := by
  rw [k.mine hp ht, ht]

theorem Owned.lend_ne_none {generation : Nat} (h : p.Owned) (k : p.Holds t (some (i, .taken t))) :
    p.ledger.lend i generation ≠ none := by
  rw [Ledger.lend, if_pos (h.sound.free_of_taken (k.mine rfl rfl))]
  rintro ⟨⟩

theorem Owned.lentCount_pos (h : p.Owned) (k : p.Holds t (some (i, .leaving n t))) :
    0 < p.ledger.lentCount p.limit := by
  have hpl := k.mine rfl rfl
  exact Ledger.lentCount_pos (h.lt (by rw [hpl]; exact nofun)) (by rw [hpl]; rfl)

-- What a turn does with a pool.
structure Good (t : Nat) (p p' : Pool) (hand' : Hand) (delta : Int) : Prop where
  owned : p'.Owned
  holds : p'.Holds t hand'
  effect : Effect t p.ledger p'.ledger
  limit : p'.limit = p.limit
  count : (p'.ledger.lentCount p'.limit : Int) = p.ledger.lentCount p.limit + delta

structure Slotted (t i : Nat) (p p' : Pool) (hand' : Hand) (delta : Int) : Prop where
  lt : i < p.limit
  sound : p'.ledger.Sound
  others : ∀ j, j ≠ i → p'.ledger.slots j = p.ledger.slots j
  place : ∀ pl, pl.thread = some t → ((p'.ledger.slots i).place = pl ↔ hand' = some (i, pl))
  hand : ∀ j pl, hand' = some (j, pl) → j = i
  limit : p'.limit = p.limit
  count : delta + (p.ledger.slots i).place.grant.isSome.toNat =
    (p'.ledger.slots i).place.grant.isSome.toNat
  pool : ∀ j, j ∈ p'.available ↔ if j = i then (p'.ledger.slots i).place = .pool else j ∈ p.available
  nodup : p'.available.Nodup
  effect : Effect t p.ledger p'.ledger

theorem Slotted.good (h : p.Owned) (k : p.Holds t hand) (hi : ∀ j pl, hand = some (j, pl) → j = i)
    (turn : Slotted t i p p' hand' delta) : Good t p p' hand' delta := by
  refine ⟨⟨turn.sound, fun j => ?_, turn.nodup, fun j hj => ?_⟩, fun j pl ht => ?_, turn.effect,
    turn.limit, ?_⟩
  case refine_1 =>
    rw [turn.pool, turn.limit]
    split
    case isTrue hj =>
      rw [hj]
      simp only [turn.lt, true_and]
    case isFalse hj => rw [turn.others j hj, h.pool]
  case refine_2 =>
    rw [turn.limit] at hj
    rw [turn.others j (by have := turn.lt; omega)]
    exact h.range j hj
  case refine_3 =>
    by_cases he : j = i
    case pos =>
      rw [he]
      exact turn.place pl ht
    case neg =>
      rw [turn.others j he, k j pl ht]
      exact ⟨fun hq => absurd (hi j pl hq) he, fun hq => absurd (turn.hand j pl hq) he⟩
  case refine_4 =>
    have hcount := lentCount_of_slot turn.lt turn.others
    have := turn.count
    rw [turn.limit]
    omega

theorem pool_of_ne (h : p.Owned) (hp : (p.ledger.slots i).place ≠ .pool)
    (hp' : (p'.ledger.slots i).place ≠ .pool) (ha : p'.available = p.available) (j : Nat) :
    j ∈ p'.available ↔ if j = i then (p'.ledger.slots i).place = .pool else j ∈ p.available := by
  rw [ha]
  split
  case isTrue hj =>
    rw [hj, h.pool]
    exact iff_of_false (fun hm => hp hm.2) hp'
  case isFalse => rfl

theorem place_iff_of_mine {pl₀ : Place} (h : (p'.ledger.slots i).place = pl₀) (pl : Place) :
    (p'.ledger.slots i).place = pl ↔ (some (i, pl₀) : Hand) = some (i, pl) := by
  rw [h, Option.some.injEq, Prod.mk.injEq, and_iff_right rfl]

theorem place_iff_of_none (h : (p'.ledger.slots i).place.thread = none) (pl : Place)
    (ht : pl.thread = some t) : (p'.ledger.slots i).place = pl ↔ (none : Hand) = some (i, pl) := by
  refine iff_of_false (fun he => ?_) nofun
  rw [he, ht] at h
  cases h

theorem eq_of_some {pl₀ : Place} (j : Nat) (pl : Place) (h : (some (i, pl₀) : Hand) = some (j, pl)) :
    j = i := by
  rw [Option.some.injEq, Prod.mk.injEq] at h
  exact h.1.symm

theorem eq_of_none (j : Nat) (pl : Place) (h : (none : Hand) = some (j, pl)) : j = i := nomatch h

theorem good_receive (h : p.Owned) (k : p.Holds t none) (hr : p.receive t = some (i, p')) :
    Good t p p' (some (i, .taken t)) 0 := by
  have ⟨ha, hp'⟩ := receive_eq_some hr
  have hl : p'.ledger = p.ledger.take t i := by rw [hp']
  have ⟨hlt, hpool⟩ := (h.pool i).mp (ha ▸ List.mem_cons_self)
  have hnodup := h.nodup
  rw [ha] at hnodup
  have hslot : (p'.ledger.slots i).place = .taken t := by
    rw [hl, Ledger.take, slots_modify_self]
  refine Slotted.good (i := i) h k eq_of_none ⟨hlt, hl ▸ h.sound.take hpool, fun j hj => ?_,
    fun pl _ => place_iff_of_mine hslot pl, eq_of_some, by rw [hp'], ?_, fun j => ?_,
    (List.nodup_cons.mp hnodup).2, hl ▸ .take hpool⟩
  case refine_1 => rw [hl, Ledger.take, slots_modify_of_ne hj]
  case refine_2 =>
    rw [hslot, hpool]
    rfl
  case refine_3 =>
    rw [hslot, ha, List.mem_cons]
    split
    case isTrue hj =>
      rw [hj]
      exact iff_of_false (List.nodup_cons.mp hnodup).1 nofun
    case isFalse hj => simp only [hj, false_or]

theorem good_send {pl : Place} (h : p.Owned) (k : p.Holds t (some (i, pl))) (ht : pl.thread = some t)
    (hg : pl.grant = none) (hfree : (p.ledger.slots i).state = .free) (hs : p.send i = some p') :
    Good t p p' none 0 := by
  have ⟨_, hp'⟩ := send_eq_some hs
  have hpl := k.mine rfl ht
  have hne := place_ne_pool_of_thread (k.thread rfl ht)
  have hl : p'.ledger = p.ledger.putBack i := by rw [hp']
  have ha : p'.available = p.available ++ [i] := by rw [hp']
  have hslot : (p'.ledger.slots i).place = .pool := by
    rw [hl, Ledger.putBack, slots_modify_self]
  refine Slotted.good (i := i) h k eq_of_some ⟨h.lt hne, hl ▸ h.sound.putBack hfree, fun j hj => ?_,
    place_iff_of_none (by rw [hslot]; rfl), eq_of_none, by rw [hp'], ?_, fun j => ?_, ?_,
    hl ▸ .putBack (k.thread rfl ht)⟩
  case refine_1 => rw [hl, Ledger.putBack, slots_modify_of_ne hj]
  case refine_2 =>
    rw [hslot, hpl, hg]
    rfl
  case refine_3 =>
    rw [hslot, ha, List.mem_append, List.mem_singleton]
    split
    case isTrue hj => simp [hj]
    case isFalse hj => simp [hj]
  case refine_4 =>
    rw [ha]
    refine List.nodup_append.mpr ⟨h.nodup, List.nodup_singleton _, fun a hm b hb => ?_⟩
    rw [List.mem_singleton.mp hb]
    rintro rfl
    exact hne ((h.pool a).mp hm).2

theorem good_update {pl : Place} {l : Ledger} (h : p.Owned) (k : p.Holds t hand)
    (hi : ∀ j pl, hand = some (j, pl) → j = i) (hpl : (p.ledger.slots i).place = pl) (hne : pl ≠ .pool)
    {pl' : Place} (hpl' : (l.slots i).place = pl') (hne' : pl' ≠ .pool) (hsound : l.Sound)
    (hj : ∀ j, j ≠ i → l.slots j = p.ledger.slots j)
    (hhand : pl'.thread = some t ∧ hand' = some (i, pl') ∨ pl'.thread = none ∧ hand' = none)
    (hcount : delta + pl.grant.isSome.toNat = pl'.grant.isSome.toNat) (heffect : Effect t p.ledger l) :
    Good t p (p.update l) hand' delta := by
  subst hpl hpl'
  refine Slotted.good (i := i) h k hi ⟨h.lt hne, hsound, hj, fun pl ht => ?_, ?_, rfl, hcount,
    @pool_of_ne p (p.update l) i h hne hne' rfl, h.nodup, heffect⟩
  all_goals rcases hhand with ⟨_, rfl⟩ | ⟨hnone, rfl⟩
  case refine_1.inl => exact @place_iff_of_mine (p.update l) i _ rfl pl
  case refine_1.inr => exact @place_iff_of_none (p.update l) t i hnone pl ht
  case refine_2.inl => exact eq_of_some
  case refine_2.inr => exact eq_of_none

theorem good_look {f : List Nat → List Nat} (h : p.Owned) (k : p.Holds t hand) :
    Good t p (p.update (p.ledger.modify i fun s => { s with checked := f s.checked })) hand 0 := by
  have hplace : ∀ j, ((p.ledger.modify i fun s => { s with checked := f s.checked }).slots j).place =
      (p.ledger.slots j).place := fun j => by
    rw [slots_modify]
    split <;> rfl
  have hsound : (p.ledger.modify i fun s => { s with checked := f s.checked }).Sound :=
    h.sound.modify (h.sound.fits i) rfl
  refine ⟨⟨hsound, fun j => ?_, h.nodup, fun j hj => ?_⟩, fun j pl ht => ?_, .checked, rfl, ?_⟩
  case refine_1 =>
    change j ∈ p.available ↔ j < p.limit ∧ _
    rw [update, hplace, h.pool]
  case refine_2 =>
    rw [update, hplace]
    exact h.range j hj
  case refine_3 =>
    rw [update, hplace]
    exact k j pl ht
  case refine_4 =>
    rw [Int.add_zero]
    exact congrArg Int.ofNat (lentCount_congr fun j => by rw [update, hplace])

theorem good_switch (h : p.Owned) (k : p.Holds t none)
    (own : ∀ m, (p.ledger.slots i).place = .lent m → m = n) :
    Good t p (p.update (p.ledger.switch t i).1)
      (if (p.ledger.switch t i).2 then some (i, .leaving n t) else none) 0 := by
  by_cases hs : (p.ledger.slots i).state = .held
  case pos =>
    have ⟨m, hpl⟩ := h.sound.lent_of_held hs
    cases own m hpl
    have hsound := h.sound.switch (t := t) own
    have heffect := Effect.switch (t := t) (i := i) h.sound
    have hj := fun j => switch_slots_of_ne (l := p.ledger) (t := t) (i := i) (j := j)
    have hslot : ((p.ledger.switch t i).1.slots i).place = .leaving n t := by
      rw [h.sound.switch_lent hpl]
      dsimp only
      rw [slots_modify_self]
    have hswitched : (p.ledger.switch t i).2 = true := by rw [h.sound.switch_lent hpl]
    rw [hswitched]
    exact good_update h k eq_of_none hpl nofun hslot nofun hsound hj (.inl ⟨rfl, rfl⟩) rfl heffect
  case neg =>
    simp only [Ledger.switch, if_neg hs]
    exact good_look (f := (·.erase t)) h k

-- Everything that a thread does with a pool leaves it in order.
theorem Moves.good (moves : Moves stamps t p hand p' hand' delta) (h : p.Owned) (k : p.Holds t hand) :
    Good t p p' hand' delta := by
  cases moves
  case stay => exact ⟨h, k, .refl t p.ledger, rfl, (Int.add_zero _).symm⟩
  case receive hr => exact good_receive h k hr
  case sendTaken hs => exact good_send h k rfl rfl (h.sound.free_of_taken (k.mine rfl rfl)) hs
  case sendBack hfree hs => exact good_send h k rfl rfl hfree hs
  case advance i _ =>
    have hpl := k.mine rfl rfl
    have hslot : ((p.ledger.advance i).slots i).place = .taken t := by
      rw [Ledger.advance, slots_modify_self]
      exact hpl
    exact good_update h k eq_of_some hpl (by rintro ⟨⟩) hslot (by rintro ⟨⟩) (h.sound.advance hpl)
      (fun j hj => slots_modify_of_ne hj) (.inl ⟨rfl, rfl⟩) rfl (.advance (k.thread rfl rfl))
  case lend i generation l lent current _ =>
    have hpl := k.mine rfl rfl
    obtain ⟨_, hslot, hj, _, _⟩ := lend_eq_some lent
    exact good_update h k eq_of_some hpl (by rintro ⟨⟩) hslot (by rintro ⟨⟩) (h.sound.lend hpl current lent) hj
      (.inr ⟨rfl, rfl⟩) rfl (.lend (k.thread rfl rfl) lent)
  case check checked =>
    unfold Ledger.check at checked
    split at checked
    case isFalse => cases checked
    case isTrue =>
      cases checked
      exact good_look (f := (t :: ·)) h k
  case switch own => exact good_switch h k own
  case restore i n =>
    have hpl := k.mine rfl rfl
    have hslot : ((p.ledger.restore i).slots i).place = .lent n := by
      rw [Ledger.restore, slots_modify_self, hpl]
    exact good_update h k eq_of_some hpl (by rintro ⟨⟩) hslot (by rintro ⟨⟩) (h.sound.restore hpl)
      (fun j hj => slots_modify_of_ne hj) (.inr ⟨rfl, rfl⟩) rfl (.restore hpl)
  case finish i n =>
    have hpl := k.mine rfl rfl
    have hslot : ((p.ledger.finish t n i).slots i).place = .back t := by
      rw [finish_slots, slots_modify_self]
    refine good_update h k eq_of_some hpl (by rintro ⟨⟩) hslot (by rintro ⟨⟩) (h.sound.finish hpl) (fun j hj => ?_)
      (.inl ⟨rfl, rfl⟩) rfl (.finish (k.thread rfl rfl))
    rw [finish_slots, slots_modify_of_ne hj]
  case free i =>
    have hpl := k.mine rfl rfl
    have hslot : ((p.ledger.free i).slots i).place = .back t := by
      rw [Ledger.free, slots_modify_self]
      exact hpl
    exact good_update h k eq_of_some hpl (by rintro ⟨⟩) hslot (by rintro ⟨⟩) (h.sound.free hpl)
      (fun j hj => slots_modify_of_ne hj) (.inl ⟨rfl, rfl⟩) rfl (.free (k.thread rfl rfl))

theorem Holds.kept (k : p.Holds u hand) (e : Effect t p.ledger p'.ledger) (hu : u ≠ t) {pl : Place}
    (hp : hand = some (i, pl)) (ht : pl.thread = some u) :
    (p'.ledger.slots i).state = (p.ledger.slots i).state ∧
      (p'.ledger.slots i).generation = (p.ledger.slots i).generation :=
  (e.kept i u hu (k.thread hp ht)).2

-- What a thread does with slots takes nothing from what another thread knows.
theorem Holds.stable (k : p.Holds u hand) (e : Effect t p.ledger p'.ledger) (hu : u ≠ t) :
    p'.Holds u hand := by
  intro i pl ht
  rw [← k i pl ht]
  refine ⟨fun h => ?_, fun h => ?_⟩
  case refine_1 => rw [← (e.kept i u hu (e.others i u hu (h ▸ ht))).1, h]
  case refine_2 => rw [(e.kept i u hu (h ▸ ht)).1, h]

variable (moves : Moves stamps t p hand p' hand' delta)
include moves

-- The generations still tell the grants apart, and the threads that look at a slot find it as it was.
theorem Moves.stamped (hs : stamps) (h : p.ledger.Stamped) :
    p'.ledger.Stamped ∧ Unwatched t p.ledger p'.ledger := by
  have stays : ∀ {l : Ledger}, Stays t p.ledger l → l.grants = p.ledger.grants →
      l.Stamped ∧ Unwatched t p.ledger l := fun hl hg => ⟨hl.stamped hg h, hl.unwatched⟩
  cases moves
  case stay => exact stays (.refl t _) rfl
  case receive hr =>
    rw [(receive_eq_some hr).2]
    exact stays Stays.take rfl
  case sendTaken hsend =>
    rw [(send_eq_some hsend).2]
    exact stays Stays.putBack rfl
  case sendBack hsend =>
    rw [(send_eq_some hsend).2]
    exact stays Stays.putBack rfl
  case advance unseen =>
    obtain ⟨hchecked, hlt⟩ := unseen_iff.mp (unseen hs)
    exact ⟨(h.advance hlt).1, .advance hchecked⟩
  case lend lent current fresh =>
    obtain ⟨_, _, _, _, hg⟩ := lend_eq_some lent
    exact ⟨h.lend (fresh hs) current lent,
      Stays.unwatched ⟨fun i => (hg i).1, fun i u _ hm => (hg i).2 ▸ hm⟩⟩
  case check checked => exact stays (Stays.check checked).1 (Stays.check checked).2
  case switch => exact stays Stays.switch.1 Stays.switch.2
  case restore => exact stays Stays.restore rfl
  case finish => exact stays Stays.finish rfl
  case free => exact stays Stays.free rfl

-- A slot that is lent stays lent for the same grant unless the turn switches it.
theorem Moves.lent (h : p.Owned) (k : p.Holds t hand) (hi : (p.ledger.slots i).place = .lent n) :
    (p'.ledger.slots i).place = .lent n ∨ hand' = some (i, .leaving n t) := by
  -- The turn concerns another slot, since this one is in no hands.
  have other : ∀ {j pl}, hand = some (j, pl) → pl.thread = some t → i ≠ j := fun hj ht he => by
    have := k.mine hj ht
    rw [← he, hi] at this
    rw [← this] at ht
    cases ht
  have unchanged : ∀ {l : Ledger} {j : Nat}, i ≠ j → (∀ j', j' ≠ j → l.slots j' = p.ledger.slots j') →
      (l.slots i).place = .lent n := fun hj hl => by rw [hl i hj, hi]
  cases moves
  case stay => exact .inl hi
  case receive j hr =>
    have ⟨ha, hp'⟩ := receive_eq_some hr
    have hpool := ((h.pool j).mp (ha ▸ List.mem_cons_self)).2
    have hne : i ≠ j := fun he => by
      rw [← he, hi] at hpool
      cases hpool
    rw [hp']
    exact .inl (unchanged (l := p.ledger.take t j) hne fun _ hj => slots_modify_of_ne hj)
  case sendTaken j hs =>
    rw [(send_eq_some hs).2]
    exact .inl (unchanged (l := p.ledger.putBack j) (other rfl rfl) fun _ hj => slots_modify_of_ne hj)
  case sendBack j _ hs =>
    rw [(send_eq_some hs).2]
    exact .inl (unchanged (l := p.ledger.putBack j) (other rfl rfl) fun _ hj => slots_modify_of_ne hj)
  case advance j _ =>
    exact .inl (unchanged (l := p.ledger.advance j) (other rfl rfl) fun _ hj => slots_modify_of_ne hj)
  case lend lent _ _ => exact .inl (unchanged (other rfl rfl) (lend_eq_some lent).2.2.1)
  case check l checked => exact .inl ((check_place checked i).trans hi)
  case switch j m own =>
    by_cases hj : i = j
    case pos =>
      subst hj
      cases own n hi
      rw [h.sound.switch_lent hi]
      exact .inr rfl
    case neg => exact .inl (unchanged hj fun _ hj => switch_slots_of_ne hj)
  case restore j _ =>
    exact .inl (unchanged (l := p.ledger.restore j) (other rfl rfl) fun _ hj => slots_modify_of_ne hj)
  case finish j m =>
    refine .inl (unchanged (l := p.ledger.finish t m j) (other rfl rfl) fun _ hj => ?_)
    rw [finish_slots, slots_modify_of_ne hj]
  case free j =>
    exact .inl (unchanged (l := p.ledger.free j) (other rfl rfl) fun _ hj => slots_modify_of_ne hj)

theorem Moves.records :
    (p'.ledger.grants = p.ledger.grants ∨ ∃ g, p'.ledger.grants = p.ledger.grants ++ [g] ∧
        (p'.ledger.slots g.slot).place = .lent p.ledger.grants.length) ∧
      (p'.ledger.grants.length : Int) - p'.ledger.ended.length =
        p.ledger.grants.length - p.ledger.ended.length + delta := by
  have same : ∀ {l : Ledger}, l.grants = p.ledger.grants → l.ended = p.ledger.ended →
      (l.grants = p.ledger.grants ∨ ∃ g, l.grants = p.ledger.grants ++ [g] ∧
        (l.slots g.slot).place = .lent p.ledger.grants.length) ∧
      (l.grants.length : Int) - l.ended.length =
        p.ledger.grants.length - p.ledger.ended.length + 0 := fun hg he => by
    rw [hg, he, Int.add_zero]
    exact ⟨.inl rfl, rfl⟩
  cases moves
  case receive hr =>
    rw [(receive_eq_some hr).2]
    exact same rfl rfl
  case sendTaken hs =>
    rw [(send_eq_some hs).2]
    exact same rfl rfl
  case sendBack hs =>
    rw [(send_eq_some hs).2]
    exact same rfl rfl
  case lend i generation l lent _ _ =>
    have ⟨_, hplace, _, hg, _⟩ := lend_eq_some lent
    have he : l.ended = p.ledger.ended := lend_ended lent
    refine ⟨.inr ⟨⟨i, generation⟩, hg, hplace⟩, ?_⟩
    change (l.grants.length : Int) - l.ended.length = _
    rw [hg, he, List.length_append, List.length_singleton]
    omega
  case check checked =>
    unfold Ledger.check at checked
    split at checked
    case isFalse => cases checked
    case isTrue =>
      cases checked
      exact same rfl rfl
  case switch => exact same Stays.switch.2 switch_ended
  case finish i n =>
    refine ⟨.inl rfl, ?_⟩
    change (p.ledger.grants.length : Int) - (p.ledger.ended ++ [_]).length = _
    rw [List.length_append, List.length_singleton]
    omega
  all_goals exact same rfl rfl

end Pool
