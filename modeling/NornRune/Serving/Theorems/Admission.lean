import NornRune.Serving.Theorems.Control

open Ledger Threads

-- Admission control, over all interleavings in which each admission is released once.
namespace NornRune

namespace AdmissionPoint

def transit : AdmissionPoint → Option Nat
  | admitLeave (some i) _ | admitSendBack i _ | admitGenerate i | admitSwitch i _ => some i
  | _ => none

variable {p : AdmissionPoint} {i t : Nat}

theorem hand_of_transit :
    p.transit = some i ↔ p.hand t = some (i, .taken t) := by
  cases p
  case admitLeave slot error => cases slot <;> simp [transit, hand]
  all_goals simp [transit, hand]

theorem eq_of_hand_leaving {n : Nat} (h : p.hand t = some (i, .leaving n t)) :
    ∃ g, p = .releaseLock n g ∧ g.slot = i := by
  cases p
  case admitLeave slot error => cases slot <;> cases h
  case releaseLock m g =>
    cases h
    exact ⟨g, rfl, rfl⟩
  all_goals cases h

theorem eq_of_hand_back (h : p.hand t = some (i, .back t)) :
    ∃ n g, (p = .releaseStore n g ∨ p = .releaseSend n g) ∧ g.slot = i := by
  cases p
  case admitLeave slot error => cases slot <;> cases h
  case releaseStore n g =>
    cases h
    exact ⟨n, g, .inl rfl, rfl⟩
  case releaseSend n g =>
    cases h
    exact ⟨n, g, .inr rfl, rfl⟩
  all_goals cases h

end AdmissionPoint

namespace Admissions

structure Unshown (s : Admissions) : Prop where
  nodup : (s.shown.map (·.1)).Nodup
  lent : ∀ (n : Nat) g, s.pool.ledger.grants[n]? = some g → n ∉ s.shown.map (·.1) →
    (s.pool.ledger.slots g.slot).place = .lent n

def Shows (t : Nat) (s : Admissions) : AdmissionPoint → Prop
  | .releaseLoad n g | .releaseSwitch n g =>
    (n, t) ∈ s.shown ∧ (s.pool.ledger.slots g.slot).place = .lent n
  | .releaseLock n _ => (n, t) ∈ s.shown
  | _ => True

variable {s s' : Admissions} {t u : Nat} {p p' q : AdmissionPoint} {e : AdmissionEvent}

structure ShownAs (t : Nat) (s : Admissions) (p : AdmissionPoint) (s' : Admissions)
    (p' : AdmissionPoint) : Prop where
  shown : s'.shown = s.shown
  load : ∀ n g, p' ≠ .releaseLoad n g
  switch : ∀ n g, p' = .releaseSwitch n g → p = .releaseLoad n g
  lock : ∀ n g, p' = .releaseLock n g → p = .releaseSwitch n g

theorem ShownAs.quiet (h : s'.shown = s.shown) (hp : ∀ n g, p' ≠ .releaseLoad n g ∧
    p' ≠ .releaseSwitch n g ∧ p' ≠ .releaseLock n g) : ShownAs t s p s' p' where
  shown := h
  load n g := (hp n g).1
  switch n g he := absurd he (hp n g).2.1
  lock n g he := absurd he (hp n g).2.2

theorem shown_leave {k : Admissions → Admissions × AdmissionPoint} (h : s.leave k = (s', p'))
    (hk : ∀ s₁ : Admissions, (k s₁).1.shown = s₁.shown ∧ ((k s₁).2 = .idle ∨ (k s₁).2 = .drainWait)) :
    ShownAs t s p s' p' := by
  rcases leave_eq (s := s) k with ⟨drained, drainedClosed, hl⟩ | hl
  case inl =>
    have ⟨hshown, hp⟩ := hk { s with drained, drainedClosed, mu := none }
    rw [← hl, h] at hshown hp
    rcases hp with rfl | rfl
    all_goals exact .quiet hshown (by simp)
  case inr =>
    cases hl.symm.trans h
    exact .quiet rfl (by simp)

theorem shown_endStop (s : Admissions) (drains : Bool) : (s.endStop drains).1.shown = s.shown ∧
    ((s.endStop drains).2 = .idle ∨ (s.endStop drains).2 = .drainWait) := by
  cases drains
  · exact ⟨rfl, .inl rfl⟩
  · exact ⟨rfl, .inr rfl⟩

theorem shown_afterWait {s₁ : Admissions} {slot : Option Nat} {error : Option ServiceError}
    {canceled : Bool} (h : afterWait s₁ slot error canceled = (s', p')) (h₁ : s₁.shown = s.shown) :
    ShownAs t s p s' p' := by
  unfold afterWait at h
  dsimp only at h
  split at h
  all_goals
    cases h
    exact .quiet h₁ (by simp)

theorem shown_of_step (hs : step t s p e = some (s', p')) :
    (∃ n g, e = .call (.release (some n)) ∧ p = .idle ∧ p' = .releaseLoad n g ∧
      s.pool.ledger.grants[n]? = some g ∧ s' = { s with shown := s.shown ++ [(n, t)] }) ∨
      ShownAs t s p s' p' := by
  revert hs
  fun_cases step t s p e
  all_goals intro hs
  case case1 c =>
    unfold start at hs
    split at hs
    case h_5 n =>
      obtain ⟨g, hg, he⟩ := Option.map_eq_some_iff.mp hs
      cases he
      exact .inl ⟨n, g, rfl, rfl, rfl, hg, rfl⟩
    all_goals
      cases hs
      exact .inr (.quiet rfl (by simp))
  case case6 | case14 | case27 =>
    obtain ⟨_, _, he⟩ := Option.map_eq_some_iff.mp hs
    cases he
    exact .inr (.quiet rfl (by simp))
  case case11 | case13 => exact .inr (shown_afterWait (Option.some.inj hs) rfl)
  case case15 | case28 => exact .inr (shown_leave (Option.some.inj hs) fun _ => ⟨rfl, .inl rfl⟩)
  case case21 =>
    obtain ⟨rfl, rfl⟩ := Prod.mk.inj (Option.some.inj hs)
    refine .inr ⟨rfl, by simp, by simp, fun _ _ he => ?_⟩
    cases he
    rfl
  case case31 drains _ =>
    obtain ⟨hshown, hp⟩ := s.shown_endStop drains
    rw [Option.some.inj hs] at hshown hp
    rcases hp with rfl | rfl
    all_goals exact .inr (.quiet hshown (by simp))
  case case36 drains =>
    exact .inr (shown_leave (Option.some.inj hs) fun s₁ =>
      shown_endStop { s₁ with stopOnce := .done } drains)
  all_goals cases hs
  case case16 =>
    split
    all_goals exact .inr (.quiet rfl (by simp))
  case case20 =>
    refine .inr ⟨rfl, by simp, fun _ _ he => ?_, by simp⟩
    cases he
    rfl
  all_goals exact .inr (.quiet rfl (by simp))

theorem shows_of_step {stamps : Prop} {delta : Int} (h : view.Holds stamps s) (k : view.Knows stamps t s p)
    (hu : s.Unshown) (hshows : Shows t s p) (guard : releasesOnce t s p e)
    (turn : Turn stamps t s p s' p' delta) (hs : step t s p e = some (s', p')) :
    s'.Unshown ∧ Shows t s' p' ∧ s.shown ⊆ s'.shown := by
  rcases shown_of_step hs with ⟨n, g, rfl, rfl, rfl, hg, rfl⟩ | as
  case inl =>
    have hn : n ∉ s.shown.map (·.1) := by simpa [releasesOnce] using guard
    refine ⟨⟨?_, fun m g' hg' hm => hu.lent m g' hg' fun hin => hm ?_⟩, ⟨?_, hu.lent n g hg hn⟩, ?_⟩
    case refine_1 =>
      dsimp only
      rw [List.map_append, List.map_singleton]
      refine List.nodup_append.mpr ⟨hu.nodup, List.nodup_singleton _, fun a ha b hb => ?_⟩
      rw [List.mem_singleton.mp hb]
      rintro rfl
      exact hn ha
    case refine_2 =>
      dsimp only
      rw [List.map_append]
      exact List.mem_append_left _ hin
    case refine_3 => exact List.mem_append_right _ List.mem_cons_self
    case refine_4 => exact List.subset_append_left _ _
  case inr =>
    refine ⟨⟨as.shown ▸ hu.nodup, fun n g hg hn => ?_⟩, ?_, as.shown ▸ List.Subset.refl _⟩
    case refine_1 =>
      -- The slot of an older admission that nobody has shown is not switched.
      have keeps : s.pool.ledger.grants[n]? = some g →
          (s'.pool.ledger.slots g.slot).place = .lent n := fun hold => by
        rw [as.shown] at hn
        rcases turn.moves.lent h.owned k.hand (hu.lent n g hold hn) with hl | hl
        · exact hl
        · have ⟨g', hp', _⟩ := AdmissionPoint.eq_of_hand_leaving hl
          rw [as.lock n g' hp'] at hshows
          exact absurd (List.mem_map.mpr ⟨(n, t), hshows.1, rfl⟩) hn
      have hrecords := turn.moves.records.1
      simp only [view_pool] at hrecords
      rcases hrecords with hrec | ⟨g₀, hrec, hplace⟩
      · exact keeps (hrec ▸ hg)
      · rw [hrec] at hg
        rcases Nat.lt_or_ge n s.pool.ledger.grants.length with hlt | hge
        · exact keeps ((List.getElem?_append_left hlt).symm.trans hg)
        · have ⟨hlast, _⟩ := List.getElem?_eq_some_iff.mp hg
          rw [List.length_append, List.length_singleton] at hlast
          obtain rfl : n = s.pool.ledger.grants.length := by omega
          rw [List.getElem?_concat_length] at hg
          cases hg
          exact hplace
    case refine_2 =>
      cases p'
      case releaseLoad n g => exact absurd rfl (as.load n g)
      case releaseSwitch n g =>
        rw [as.switch n g rfl] at hshows k turn
        refine ⟨as.shown ▸ hshows.1, ?_⟩
        rcases turn.moves.lent h.owned k.hand hshows.2 with hl | hl
        · exact hl
        · cases hl
      case releaseLock n g =>
        rw [as.lock n g rfl] at hshows
        change (n, t) ∈ s'.shown
        rw [as.shown]
        exact hshows.1
      all_goals trivial

theorem Shows.stable {stamps : Prop} {delta : Int} (h : view.Holds stamps s) (k : view.Knows stamps t s p)
    (turn : Turn stamps t s p s' p' delta) (hu' : s'.Unshown) (hshows' : Shows t s' p')
    (hsub : s.shown ⊆ s'.shown) (hu : u ≠ t) (hq : Shows u s q) : Shows u s' q := by
  have lent : ∀ {n : Nat} {g : Grant}, (n, u) ∈ s.shown →
      (s.pool.ledger.slots g.slot).place = .lent n →
      (s'.pool.ledger.slots g.slot).place = .lent n := fun {n g} hn hg => by
    rcases turn.moves.lent h.owned k.hand hg with hl | hl
    · exact hl
    · have ⟨g', hp', _⟩ := AdmissionPoint.eq_of_hand_leaving hl
      rw [hp'] at hshows'
      have he := List.inj_on_of_nodup_map hu'.nodup (hsub hn) hshows' rfl
      exact absurd (Prod.mk.inj he).2 hu
  cases q
  case releaseLoad n g => exact ⟨hsub hq.1, lent hq.1 hq.2⟩
  case releaseSwitch n g => exact ⟨hsub hq.1, lent hq.1 hq.2⟩
  case releaseLock n g => exact hsub hq
  all_goals trivial

structure Sound (limit : Nat) (s : Admissions) : Prop extends view.Holds False s, s.Ordered,
    s.Unshown where
  limit : s.pool.limit = limit
  counted : s.Counted
  counts : s.active = s.pool.ledger.grants.length - s.pool.ledger.ended.length

structure Knows (t : Nat) (s : Admissions) (p : AdmissionPoint) : Prop extends view.Knows False t s p,
    s.Aware t p.locked p.waits p.stops where
  stage : s.Stage p
  shows : Shows t s p

theorem Shows.own (hshows : Shows t s p) (n : Nat) (g : Grant) (hp : p = .releaseSwitch n g) (m : Nat)
    (hm : (s.pool.ledger.slots g.slot).place = .lent m) : m = n := by
  rw [hp] at hshows
  exact Place.lent.inj (hm.symm.trans hshows.2)

theorem good_of_step (h : s.Sound limit) (k : s.Knows t p) (guard : releasesOnce t s p e)
    (hs : step t s p e = some (s', p')) :
    s'.Sound limit ∧ s'.Knows t p' ∧ Apart t s s' ∧ ∀ u q, u ≠ t → s.Knows u q → s'.Knows u q := by
  have ⟨delta, turn⟩ := turn_of_step h.toHolds h.counted k.toKnows k.shows.own False.elim hs
  have ⟨hholds, hknows⟩ := turn.sound h.toHolds k.hand
  have hgood := turn.moves.good h.owned k.hand
  have ⟨hunshown, hshows, hsub⟩ := shows_of_step h.toHolds k.toKnows h.toUnshown k.shows guard turn hs
  have ⟨control, hstage⟩ := control_of_step h.toOrdered k.toAware k.stage
    (fun i g hp => by
      have hand := k.hand
      rw [hp] at hand
      exact h.owned.sound.free_of_taken (hand.mine rfl rfl))
    (fun n g hp => by
      have hand := k.hand
      rw [hp] at hand
      rw [h.counted]
      exact Int.natCast_pos.mpr (h.owned.lentCount_pos hand)) hs
  refine ⟨⟨hholds, control.ordered, hunshown, hgood.limit.trans h.limit,
    turn.counted h.toHolds k.toKnows h.counted, ?_⟩, ⟨hknows, control.aware, hstage, hshows⟩,
    control.apart, fun u q hu kq => ?_⟩
  case refine_1 =>
    have hrecords := turn.moves.records.2
    simp only [view_pool] at hrecords
    have := turn.active
    have := h.counts
    omega
  case refine_2 =>
    exact ⟨kq.toKnows.stable hgood.effect False.elim hu, kq.toAware.stable control.apart hu,
      kq.stage.stable kq.toAware control.apart hu,
      Shows.stable h.toHolds k.toKnows turn hunshown hshows hsub hu kq.shows⟩

def outline (limit : Nat) : Outline (guarded step releasesOnce) where
  Holds := Sound limit
  Knows := fun t s p => s.Knows t p
  step := fun h k hs =>
    have ⟨guard, hs⟩ := guarded_eq_some.mp hs
    have good := good_of_step h k guard hs
    ⟨good.1, good.2.1⟩
  stable := fun h k hs hu kq =>
    have ⟨guard, hs⟩ := guarded_eq_some.mp hs
    (good_of_step h k guard hs).2.2.2 _ _ hu kq

inductive SlotOwner
  | pool
  | admitCall (thread : Nat)
  | admission (admission : Nat)

abbrev Running := Config Admissions AdmissionPoint

def Running.Active (c : Running) (n i : Nat) : Prop :=
  ∃ g, c.shared.pool.ledger.grants[n]? = some g ∧ g.slot = i ∧
    (n ∉ c.shared.pool.ledger.ended.map (·.2) ∨
      ∃ t, c.threads t = .releaseStore n g ∨ c.threads t = .releaseSend n g)

def Running.Owns (c : Running) (i : Nat) : SlotOwner → Prop
  | .pool => i ∈ c.shared.pool.available
  | .admitCall t => (c.threads t).transit = some i
  | .admission n => c.Active n i

structure Controls (limit : Nat) (c : Running) : Prop where
  active : 0 ≤ c.shared.active ∧ c.shared.active ≤ limit
  -- The counters count the admissions that have not ended and the calls that wait.
  counts : c.shared.active = c.shared.pool.ledger.grants.length - c.shared.pool.ledger.ended.length
  queue : ∃ waiting : List Nat, c.shared.queued = waiting.length ∧ waiting.Nodup ∧
    ∀ t, t ∈ waiting ↔ (c.threads t).waits
  bounded : ∀ ns : List Nat, ns.Nodup → (∀ n ∈ ns, ∃ i, c.Active n i) → ns.length ≤ limit
  slots : c.shared.pool.available.Nodup ∧ ∀ i, i < limit → ∃! o, c.Owns i o
  calm : ∀ t text, c.threads t ≠ .panicked text
  sends : ∀ t, ((∃ i error, c.threads t = .admitSendBack i error) ∨
    ∃ n g, c.threads t = .releaseSend n g) → (step t c.shared (c.threads t) .go).isSome
  refused : c.shared.returned.Pairwise fun r r' => r.stops → r'.admits = false
  drained : c.shared.drained → c.shared.accepting = false ∧ (∀ n i, ¬c.Active n i) ∧
    ∀ t, ¬(c.threads t).waits
  given : c.shared.mu = none → c.shared.accepting = false → c.shared.active = 0 →
    c.shared.queued = 0 → c.shared.drained

variable {limit n i : Nat} {c c' : Running} (valid : (outline limit).Valid c)

include valid

theorem place_of_active (h : c.Active n i) : (c.shared.pool.ledger.slots i).place.grant = some n ∨
    ∃ t g, (c.threads t = .releaseStore n g ∨ c.threads t = .releaseSend n g) ∧
      (c.shared.pool.ledger.slots i).place = .back t := by
  have ⟨g, hg, hi, h⟩ := h
  rcases h with hn | ⟨t, ht⟩
  case inl => exact .inl (hi ▸ valid.holds.owned.sound.live n g hg hn)
  case inr =>
    have hand := (valid.knows t).hand
    refine .inr ⟨t, g, ht, ?_⟩
    rcases ht with ht | ht
    all_goals
      rw [ht] at hand
      rw [← hi]
      exact hand.mine rfl rfl

theorem active_of_grant (h : (c.shared.pool.ledger.slots i).place.grant = some n) : c.Active n i :=
  have ⟨hg, hn⟩ := valid.holds.owned.sound.grant h
  ⟨_, hg, rfl, .inl hn⟩

theorem active_unique {m : Nat} (hn : c.Active n i) (hm : c.Active m i) : n = m := by
  rcases place_of_active valid hn with hn | ⟨t, g, ht, hn⟩
  all_goals rcases place_of_active valid hm with hm | ⟨u, g', hu, hm⟩
  case inl.inl => exact Option.some.inj (hn.symm.trans hm)
  case inl.inr =>
    rw [hm] at hn
    cases hn
  case inr.inl =>
    rw [hn] at hm
    cases hm
  case inr.inr =>
    cases hn.symm.trans hm
    rcases ht with ht | ht
    all_goals
      rw [ht] at hu
      rcases hu with hu | hu
      all_goals cases hu
      rfl

theorem not_active (hg : (c.shared.pool.ledger.slots i).place.grant = none)
    (hb : ∀ t, (c.shared.pool.ledger.slots i).place ≠ .back t) : ¬c.Active n i := by
  intro h
  rcases place_of_active valid h with hn | ⟨t, g, _, hn⟩
  · rw [hg] at hn
    cases hn
  · exact hb t hn

theorem lt_of_active (h : c.Active n i) : i < limit := by
  rw [← valid.holds.limit]
  refine valid.holds.owned.lt fun hp => ?_
  rw [view_pool] at hp
  exact not_active valid (by rw [hp]; rfl) (by rw [hp]; exact nofun) h

theorem bounded_of_valid {ns : List Nat} (hnodup : ns.Nodup) (hns : ∀ n ∈ ns, ∃ i, c.Active n i) :
    ns.length ≤ limit := by
  -- Distinct admissions have distinct slots.
  choose! slot hslot using hns
  have hmap : (ns.map slot).Nodup := hnodup.map_on fun n hn m hm he =>
    active_unique valid (hslot n hn) (he ▸ hslot m hm)
  have hsub : ns.map slot ⊆ List.range limit := fun i hi => by
    have ⟨n, hn, he⟩ := List.mem_map.mp hi
    exact List.mem_range.mpr (he ▸ lt_of_active valid (hslot n hn))
  have := (List.subperm_of_subset hmap hsub).length_le
  rwa [List.length_map, List.length_range] at this

theorem place_of_pool (h : c.Owns i .pool) : (c.shared.pool.ledger.slots i).place = .pool :=
  ((valid.holds.owned.pool i).mp h).2

theorem place_of_admitCall (h : c.Owns i (.admitCall t)) : (c.shared.pool.ledger.slots i).place = .taken t :=
  (valid.knows t).hand.mine (AdmissionPoint.hand_of_transit.mp h) rfl

theorem owner_unique {o o' : SlotOwner} (h : c.Owns i o) (h' : c.Owns i o') : o = o' := by
  have hpool : ∀ {n}, c.Owns i .pool → ¬c.Active n i := fun h => by
    have hp := place_of_pool valid h
    exact not_active valid (by rw [hp]; rfl) (by rw [hp]; exact nofun)
  have hcall : ∀ {t n}, c.Owns i (.admitCall t) → ¬c.Active n i := fun h => by
    have hp := place_of_admitCall valid h
    exact not_active valid (by rw [hp]; rfl) (by rw [hp]; exact nofun)
  cases o <;> cases o'
  case pool.pool => rfl
  case pool.admitCall => cases (place_of_pool valid h).symm.trans (place_of_admitCall valid h')
  case pool.admission => exact absurd h' (hpool h)
  case admitCall.pool => cases (place_of_pool valid h').symm.trans (place_of_admitCall valid h)
  case admitCall.admitCall =>
    cases (place_of_admitCall valid h).symm.trans (place_of_admitCall valid h')
    rfl
  case admitCall.admission => exact absurd h' (hcall h)
  case admission.pool => exact absurd h (hpool h')
  case admission.admitCall => exact absurd h (hcall h')
  case admission.admission => rw [active_unique valid h h']

theorem exists_owner (hi : i < limit) : ∃ o, c.Owns i o := by
  rw [← valid.holds.limit] at hi
  cases hp : (c.shared.pool.ledger.slots i).place
  case pool => exact ⟨.pool, (valid.holds.owned.pool i).mpr ⟨hi, hp⟩⟩
  case taken t =>
    exact ⟨.admitCall t, AdmissionPoint.hand_of_transit.mpr (((valid.knows t).hand i _ rfl).mp hp)⟩
  case lent n => exact ⟨.admission n, active_of_grant valid (by rw [hp]; rfl)⟩
  case leaving n t => exact ⟨.admission n, active_of_grant valid (by rw [hp]; rfl)⟩
  case back t =>
    have ⟨n, g, ht, hg⟩ := AdmissionPoint.eq_of_hand_back (((valid.knows t).hand i _ rfl).mp hp)
    refine ⟨.admission n, g, (valid.knows t).shown n g ?_, hg, .inr ⟨t, ht⟩⟩
    rcases ht with ht | ht
    all_goals
      rw [ht]
      rfl

theorem isSome_send (h : (∃ i error, c.threads t = .admitSendBack i error) ∨
    ∃ n g, c.threads t = .releaseSend n g) : (step t c.shared (c.threads t) .go).isSome := by
  have hand := (valid.knows t).hand
  rcases h with ⟨i, error, ht⟩ | ⟨n, g, ht⟩
  all_goals
    rw [ht] at hand ⊢
    simp only [step, Option.isSome_map]
    exact valid.holds.owned.isSome_send (hand.thread rfl rfl)

theorem drained_of_valid (h : c.shared.drained) : c.shared.accepting = false ∧
    (∀ n i, ¬c.Active n i) ∧ ∀ t, ¬(c.threads t).waits := by
  have ⟨haccepting, hactive, hqueued⟩ := valid.holds.drained h
  refine ⟨haccepting, fun n i ha => ?_, fun t ht => ?_⟩
  case refine_1 =>
    rcases place_of_active valid ha with hn | ⟨t, g, ht, _⟩
    · have hi := lt_of_active valid ha
      rw [← valid.holds.limit] at hi
      have hpos := lentCount_pos hi (by rw [hn]; rfl)
      rw [valid.holds.counted] at hactive
      omega
    · have hstage := (valid.knows t).stage
      rcases ht with ht | ht
      all_goals
        rw [ht] at hstage
        exact Bool.false_ne_true (hstage.symm.trans h)
  case refine_2 =>
    have := List.length_pos_of_mem ((valid.knows t).queue.mpr ht)
    have := valid.holds.queued
    omega

theorem controls_of_valid : Controls limit c where
  active := by
    have hle : c.shared.pool.ledger.lentCount limit ≤ limit := by
      have := (List.range limit).countP_le_length
        (p := fun i => (c.shared.pool.ledger.slots i).place.grant.isSome)
      rwa [List.length_range] at this
    have hactive := valid.holds.counted
    rw [Counted, valid.holds.limit] at hactive
    omega
  counts := valid.holds.counts
  queue := ⟨c.shared.waiting, valid.holds.queued, valid.holds.waiting, fun t => (valid.knows t).queue⟩
  bounded := fun _ => bounded_of_valid valid
  slots := by
    refine ⟨valid.holds.owned.nodup, fun i hi => ?_⟩
    obtain ⟨o, ho⟩ := exists_owner valid hi
    exact ⟨o, ho, fun _ h => owner_unique valid h ho⟩
  calm := fun t text ht => by
    have hstage := (valid.knows t).stage
    rw [ht] at hstage
    exact hstage
  sends := fun _ => isSome_send valid
  refused := valid.holds.refused
  drained := drained_of_valid valid
  given := valid.holds.settled

omit valid

theorem valid_new {limit : Int} (h : new limit = .ok c) : (outline limit.toNat).Valid c := by
  unfold new at h
  split at h
  case isTrue => cases h
  case isFalse =>
    cases h
    refine ⟨⟨holds_new _, ?_, ⟨List.nodup_nil, nofun⟩, rfl, counted_new _, rfl⟩, fun t => ?_⟩
    case refine_1 => exact ⟨rfl, List.nodup_nil, rfl, nofun, nofun, fun _ => ⟨rfl, rfl⟩, nofun, nofun, .nil⟩
    case refine_2 => exact ⟨knows_idle _ t, ⟨by simp [AdmissionPoint.locked], by simp [AdmissionPoint.waits],
      by simp [AdmissionPoint.stops]⟩, trivial, trivial⟩

-- Over every interleaving in which each admission is released once.
theorem admission_controlled {limit : Int} {c₀ c : Running} {es : List (Nat × AdmissionEvent)}
    (hnew : new limit = .ok c₀) (hrun : run (guarded step releasesOnce) c₀ es = some c) :
    Controls limit.toNat c ∧ ∀ e c', turn (guarded step releasesOnce) c e = some c' →
      c.shared.drained → c'.shared.drained := by
  have valid := (valid_new hnew).run hrun
  refine ⟨controls_of_valid valid, fun e c' ht => ?_⟩
  have ⟨hp, _⟩ := Outline.turn_eq_some ht
  have ⟨guard, hs⟩ := guarded_eq_some.mp hp
  exact (good_of_step valid.holds (valid.knows e.1) guard hs).2.2.1.given

def stopAndRelease : List (Nat × AdmissionEvent) :=
  [(0, .call (.admitCall (some false))), (0, .go), (0, .receive), (0, .go), (0, .go), (0, .go),
    (1, .call .stopAdmission), (1, .go), (1, .go), (1, .go), (1, .go),
    (0, .call (.release (some 0))), (0, .go), (0, .go), (0, .go), (0, .go), (0, .go), (0, .go)]

theorem admission_controlled_release : ∃ c₀ c : Running, new 1 = .ok c₀ ∧
    run (guarded step releasesOnce) c₀ stopAndRelease = some c ∧ c.shared.drained = true ∧
      Controls 1 c := by
  let c₀ : Running := ⟨{ pool := Pool.new 1 }, fun _ => .idle⟩
  have hdrained : (run (guarded step releasesOnce) c₀ stopAndRelease).map (·.shared.drained) =
    some true := rfl
  have ⟨c, hrun, hd⟩ := Option.map_eq_some_iff.mp hdrained
  exact ⟨c₀, c, rfl, hrun, hd, (@admission_controlled 1 _ _ _ rfl hrun).1⟩

end Admissions
end NornRune
