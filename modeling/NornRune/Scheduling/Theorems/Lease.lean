import Mathlib.Data.List.Nodup
import NornRune.Scheduling.Theorems.Arena

namespace NornRune

def borrows (served : List Served) (i : Nat) : Nat :=
  (leasesOf served).countP (·.context == some i)

def Context.Expired (w : Context) (generation : Nat) : Prop :=
  generation < w.generation ∨ w.state = .available

structure ContextSound (served : List Served) (i : Nat) (w : Context) : Prop where
  settled : w.state ≠ .returning
  idle : w.state = .available → w.outputClaim = 0
  claims : w.outputClaim < maxUint32
  generation : w.generation = borrows served i

structure ClaimSound (served : List Served) (claim : OutputLease) (w : Context) : Prop where
  odd : claim.claim % 2 = 1
  positive : claim.generation ≠ 0
  le : claim.generation ≤ w.generation
  order : claim.generation = w.generation → w.state = .borrowed → claim.claim ≤ w.outputClaim
  released : ⟨.release claim, .released⟩ ∈ served ∨
    (claim.generation = w.generation ∧ w.state = .borrowed ∧ w.outputClaim = claim.claim)

structure Service.Sound (s : Service) : Prop where
  size : s.arena.contexts.length ≠ 0
  capacity : s.arena.capacity = s.arena.contexts.length
  nodup : s.arena.available.Nodup
  available : ∀ i, i ∈ s.arena.available ↔
    ∃ w, s.arena.contexts[i]? = some w ∧ w.state = .available
  worker : ∀ i w, s.arena.contexts[i]? = some w → ContextSound s.served i w
  leases : (leasesOf s.served).Nodup
  lease : ∀ lease ∈ leasesOf s.served, lease.arena = some s.arena.address ∧
    lease.generation ≠ 0 ∧ ∃ i w, lease.context = some i ∧ s.arena.contexts[i]? = some w ∧
      lease.generation ≤ w.generation
  claims : (claimsOf s.served).Nodup
  claim : ∀ claim ∈ claimsOf s.served, ∃ i w, claim.context = some i ∧
    s.arena.contexts[i]? = some w ∧ ClaimSound s.served claim w
  expired : ∀ before after lease, s.served = before ++ ⟨.giveBack lease, .returned⟩ :: after →
    ∀ i w, lease.context = some i → s.arena.contexts[i]? = some w →
      (∀ l ∈ leasesOf before, l.context = some i → w.Expired l.generation) ∧
      ∀ c ∈ claimsOf before, c.context = some i → w.Expired c.generation

section Step

variable {s : Service} {i : Nat} {w w' : Context} {entry : Served} {available : List Nat}

theorem leasesOf_append (served served' : List Served) :
    leasesOf (served ++ served') = leasesOf served ++ leasesOf served' := List.filterMap_append

theorem claimsOf_append (served served' : List Served) :
    claimsOf (served ++ served') = claimsOf served ++ claimsOf served' := List.filterMap_append

theorem mem_leasesOf_singleton {lease : Lease} :
    lease ∈ leasesOf [entry] ↔ entry.reply = .lease lease := by
  unfold leasesOf
  cases hr : entry.reply <;> simp [hr, eq_comm]

theorem mem_claimsOf_singleton {claim : OutputLease} :
    claim ∈ claimsOf [entry] ↔ entry.reply = .claim claim := by
  unfold claimsOf
  cases hr : entry.reply <;> simp [hr, eq_comm]

theorem borrows_append (served : List Served) (entry : Served) (i : Nat) :
    borrows (served ++ [entry]) i = borrows served i +
      (leasesOf [entry]).countP (·.context == some i) := by
  rw [borrows, leasesOf_append, List.countP_append]
  rfl

theorem borrows_of_not_lease (hl : ∀ lease, entry.reply ≠ .lease lease) (served : List Served) :
    borrows (served ++ [entry]) i = borrows served i := by
  rw [borrows_append, Nat.add_eq_left, List.countP_eq_zero]
  exact fun lease hm => absurd (mem_leasesOf_singleton.mp hm) (hl lease)

theorem getElem?_put (a : Arena) (hw : a.contexts[i]? = some w) {j : Nat} {v : Context} :
    (a.put i w').contexts[j]? = some v ↔ (j = i ∧ v = w') ∨ (j ≠ i ∧ a.contexts[j]? = some v) := by
  have hlt := (List.getElem?_eq_some_iff.mp hw).1
  change (a.contexts.set i w')[j]? = some v ↔ _
  by_cases h : i = j
  case pos =>
    subst h
    simp [List.getElem?_set_self hlt, eq_comm]
  case neg => simp [List.getElem?_set_ne h, Ne.symm h]

theorem split_of_concat {α : Type} {xs before after : List α} {e x : α}
    (h : xs ++ [e] = before ++ x :: after) :
    (after = [] ∧ xs = before ∧ e = x) ∨ ∃ after', after = after' ++ [e] ∧ xs = before ++ x :: after' := by
  rcases List.eq_nil_or_concat after with rfl | ⟨after', y, rfl⟩
  case inl =>
    have ⟨hx, he⟩ := List.append_inj' h rfl
    exact .inl ⟨rfl, hx, List.singleton_inj.mp he⟩
  case inr =>
    rw [List.concat_eq_append] at h ⊢
    rw [← List.cons_append, ← List.append_assoc] at h
    have ⟨hx, he⟩ := List.append_inj' h rfl
    exact .inr ⟨after', by rw [List.singleton_inj.mp he], hx⟩

-- What a call does to a context at most: generations only go up, and what is over stays over.
structure Context.Advance (w w' : Context) : Prop where
  generation : w.generation ≤ w'.generation
  expired : ∀ g, g ≤ w.generation → w.Expired g → w'.Expired g

-- What must be known about a call to see that the arena is still sound afterwards.
structure Advances (s : Service) (i : Nat) (w w' : Context) (available : List Nat) (entry : Served) :
    Prop where
  advance : w.Advance w'
  nodup : available.Nodup
  pool : ∀ j, j ∈ available ↔ if j = i then w'.state = .available else j ∈ s.arena.available
  worker : ContextSound (s.served ++ [entry]) i w'
  lease : ∀ lease, entry.reply = .lease lease →
    lease = ⟨some s.arena.address, some i, w'.generation⟩ ∧ w.generation < w'.generation
  claim : ∀ claim, entry.reply = .claim claim → claim.context = some i ∧
    ClaimSound (s.served ++ [entry]) claim w' ∧ claim.generation = w.generation ∧
      w.state = .borrowed ∧ w.outputClaim < claim.claim
  claims : ∀ claim ∈ claimsOf s.served, claim.context = some i → ClaimSound s.served claim w →
    ClaimSound (s.served ++ [entry]) claim w'
  returned : ∀ lease, entry = ⟨.giveBack lease, .returned⟩ →
    lease.context = some i ∧ w'.state = .available

theorem ClaimSound.mono {served : List Served} {claim : OutputLease} (entry : Served)
    (h : ClaimSound served claim w) : ClaimSound (served ++ [entry]) claim w :=
  ⟨h.odd, h.positive, h.le, h.order, h.released.imp_left (List.mem_append_left _)⟩

theorem Service.Sound.advances (h : s.Sound) (hw : s.arena.contexts[i]? = some w)
    (ad : Advances s i w w' available entry) :
    Service.Sound ⟨{ s.arena with available }.put i w', s.served ++ [entry]⟩ := by
  have put : ∀ {j : Nat} {v : Context}, ({ s.arena with available }.put i w').contexts[j]? = some v ↔
      (j = i ∧ v = w') ∨ (j ≠ i ∧ s.arena.contexts[j]? = some v) := getElem?_put _ hw
  have hlen : ({ s.arena with available }.put i w').contexts.length = s.arena.contexts.length :=
    List.length_set
  -- A context is found again after the call, and its generation did not go down.
  have old : ∀ {j : Nat} {v : Context}, s.arena.contexts[j]? = some v → ∃ v',
      ({ s.arena with available }.put i w').contexts[j]? = some v' ∧ v.Advance v' := fun {j v} hj => by
    by_cases he : j = i
    case pos =>
      subst he
      obtain rfl : w = v := Option.some.inj (hw.symm.trans hj)
      exact ⟨w', put.mpr (.inl ⟨rfl, rfl⟩), ad.advance⟩
    case neg => exact ⟨v, put.mpr (.inr ⟨he, hj⟩), Nat.le_refl _, fun _ _ h => h⟩
  refine ⟨hlen ▸ h.size, hlen ▸ h.capacity, ad.nodup, fun j => ?_, fun j v hj => ?_, ?_,
    fun lease hm => ?_, ?_, fun claim hm => ?_, fun before after lease he j v hc hj => ?_⟩
  case refine_1 =>
    change j ∈ available ↔ _
    rw [ad.pool j]
    split
    case isTrue hj =>
      subst hj
      exact ⟨fun hs => ⟨w', put.mpr (.inl ⟨rfl, rfl⟩), hs⟩, fun ⟨v, hv, hs⟩ =>
        (put.mp hv).elim (fun hv => hv.2 ▸ hs) fun hv => absurd rfl hv.1⟩
    case isFalse hj =>
      rw [h.available j]
      exact exists_congr fun v => and_congr_left fun _ =>
        ⟨fun hv => put.mpr (.inr ⟨hj, hv⟩), fun hv => (put.mp hv).elim (fun hv => absurd hv.1 hj) (·.2)⟩
  case refine_2 =>
    rcases put.mp hj with ⟨rfl, rfl⟩ | ⟨hne, hj⟩
    · exact ad.worker
    · have hv := h.worker j v hj
      refine ⟨hv.settled, hv.idle, hv.claims, hv.generation.trans ?_⟩
      rw [borrows_append, Nat.left_eq_add, List.countP_eq_zero]
      intro lease hm
      rw [(ad.lease lease (mem_leasesOf_singleton.mp hm)).1]
      simpa using Ne.symm hne
  case refine_3 =>
    rw [leasesOf_append]
    refine List.Nodup.append h.leases ?_ fun lease hm hm' => ?_
    · obtain ⟨call, reply⟩ := entry
      cases reply <;> simp [leasesOf]
    · obtain ⟨rfl, hlt⟩ := ad.lease lease (mem_leasesOf_singleton.mp hm')
      obtain ⟨_, _, j, v, hj, hv, hle⟩ := h.lease _ hm
      cases hj
      obtain rfl : w = v := Option.some.inj (hw.symm.trans hv)
      exact absurd hle (Nat.not_le.mpr hlt)
  case refine_4 =>
    rw [leasesOf_append, List.mem_append] at hm
    rcases hm with hm | hm
    case inl =>
      have ⟨ha, hg, j, v, hj, hv, hle⟩ := h.lease lease hm
      have ⟨v', hv', adv⟩ := old hv
      exact ⟨ha, hg, j, v', hj, hv', Nat.le_trans hle adv.generation⟩
    case inr =>
      obtain ⟨rfl, hlt⟩ := ad.lease lease (mem_leasesOf_singleton.mp hm)
      exact ⟨rfl, by simp only; omega, i, w', rfl, put.mpr (.inl ⟨rfl, rfl⟩), Nat.le_refl _⟩
  case refine_5 =>
    rw [claimsOf_append]
    refine List.Nodup.append h.claims ?_ fun claim hm hm' => ?_
    · obtain ⟨call, reply⟩ := entry
      cases reply <;> simp [claimsOf]
    · have ⟨hctx, _, hg, hs, hlt⟩ := ad.claim claim (mem_claimsOf_singleton.mp hm')
      have ⟨j, v, hj, hv, sound⟩ := h.claim claim hm
      rw [hctx, Option.some.injEq] at hj
      subst hj
      obtain rfl : w = v := Option.some.inj (hw.symm.trans hv)
      exact absurd (sound.order hg hs) (Nat.not_le.mpr hlt)
  case refine_6 =>
    rw [claimsOf_append, List.mem_append] at hm
    rcases hm with hm | hm
    case inl =>
      have ⟨j, v, hj, hv, sound⟩ := h.claim claim hm
      by_cases he : j = i
      case pos =>
        subst he
        obtain rfl : w = v := Option.some.inj (hw.symm.trans hv)
        exact ⟨j, w', hj, put.mpr (.inl ⟨rfl, rfl⟩), ad.claims claim hm hj sound⟩
      case neg => exact ⟨j, v, hj, put.mpr (.inr ⟨he, hv⟩), sound.mono entry⟩
    case inr =>
      have ⟨hctx, sound, _⟩ := ad.claim claim (mem_claimsOf_singleton.mp hm)
      exact ⟨i, w', hctx, put.mpr (.inl ⟨rfl, rfl⟩), sound⟩
  case refine_7 =>
    rcases split_of_concat he with ⟨_, hs, he⟩ | ⟨after', _, hs⟩
    case inl =>
      have ⟨hctx, hst⟩ := ad.returned lease he
      obtain rfl : i = j := Option.some.inj (hctx.symm.trans hc)
      obtain rfl : v = w' := (put.mp hj).elim (·.2) fun hv => absurd rfl hv.1
      exact ⟨fun _ _ _ => .inr hst, fun _ _ _ => .inr hst⟩
    case inr =>
      have hle : ∀ l ∈ leasesOf before, l ∈ leasesOf s.served := fun l hl => by
        rw [hs, leasesOf_append]
        exact List.mem_append_left _ hl
      have hce : ∀ c ∈ claimsOf before, c ∈ claimsOf s.served := fun c hc => by
        rw [hs, claimsOf_append]
        exact List.mem_append_left _ hc
      rcases put.mp hj with ⟨rfl, rfl⟩ | ⟨_, hj⟩
      case inr => exact h.expired before after' lease hs j v hc hj
      case inl =>
        have ⟨hl, hcl⟩ := h.expired before after' lease hs j w hc hw
        refine ⟨fun l hm hctx => ad.advance.expired _ ?_ (hl l hm hctx),
          fun c hm hctx => ad.advance.expired _ ?_ (hcl c hm hctx)⟩
        · obtain ⟨_, _, k, u, hk, hu, hg⟩ := h.lease l (hle l hm)
          obtain rfl : j = k := Option.some.inj (hctx.symm.trans hk)
          exact Option.some.inj (hw.symm.trans hu) ▸ hg
        · have ⟨k, u, hk, hu, sound⟩ := h.claim c (hce c hm)
          obtain rfl : j = k := Option.some.inj (hctx.symm.trans hk)
          exact Option.some.inj (hw.symm.trans hu) ▸ sound.le

theorem Service.Sound.pool_of_state (h : s.Sound) (hw : s.arena.contexts[i]? = some w)
    (hs : w'.state = w.state) (j : Nat) :
    j ∈ s.arena.available ↔ if j = i then w'.state = .available else j ∈ s.arena.available := by
  split
  case isTrue hj =>
    subst hj
    rw [h.available j, hs]
    exact ⟨fun ⟨v, hv, hst⟩ => Option.some.inj (hw.symm.trans hv) ▸ hst, fun hst => ⟨w, hw, hst⟩⟩
  case isFalse => rfl

theorem Service.Sound.quiet (h : s.Sound) (hw : s.arena.contexts[i]? = some w) (uses : w.Uses w')
    (hr : entry.reply.Quiet) : Service.Sound ⟨s.arena.put i w', s.served ++ [entry]⟩ := by
  have hl : ∀ lease, entry.reply ≠ .lease lease := fun lease he => by rw [he] at hr; exact hr
  have hc : ∀ claim, entry.reply ≠ .claim claim := fun claim he => by rw [he] at hr; exact hr
  have sound := h.worker i w hw
  have expired : ∀ g, w'.Expired g ↔ w.Expired g := fun g => by
    rw [Context.Expired, uses.generation, uses.state, Context.Expired]
  have ad : Advances s i w w' s.arena.available entry := by
    refine ⟨⟨uses.generation.ge, fun g _ he => (expired g).mpr he⟩, h.nodup, h.pool_of_state hw uses.state,
      ⟨uses.state ▸ sound.settled, fun he => ?_, uses.outputClaim ▸ sound.claims, ?_⟩,
      fun lease he => absurd he (hl lease), fun claim he => absurd he (hc claim),
      fun claim _ _ hs => ?_, fun lease he => by rw [he] at hr; exact hr.elim⟩
    case refine_1 => rw [uses.outputClaim, sound.idle (uses.state ▸ he)]
    case refine_2 => rw [uses.generation, sound.generation, borrows_of_not_lease hl]
    case refine_3 =>
      have hs := hs.mono entry
      refine ⟨hs.odd, hs.positive, uses.generation ▸ hs.le, ?_, ?_⟩
      · rw [uses.generation, uses.state, uses.outputClaim]
        exact hs.order
      · rw [uses.generation, uses.state, uses.outputClaim]
        exact hs.released
  exact h.advances hw ad

theorem Service.Sound.nextGeneration_eq (h : s.Sound) (hw : s.arena.contexts[i]? = some w)
    {lease : Lease} (hr : entry.reply = .lease lease) (hl : lease.context = some i)
    (hb : borrows (s.served ++ [entry]) i < 2 ^ 64) :
    nextGeneration w.generation = w.generation + 1 ∧
      borrows (s.served ++ [entry]) i = w.generation + 1 := by
  have hcount : borrows (s.served ++ [entry]) i = w.generation + 1 := by
    rw [borrows_append, ← (h.worker i w hw).generation]
    obtain ⟨call, reply⟩ := entry
    cases hr
    simp [leasesOf, hl]
  refine ⟨?_, hcount⟩
  rw [hcount] at hb
  rw [nextGeneration, Nat.mod_eq_of_lt hb, if_neg (Nat.succ_ne_zero _)]

-- A context that is lent begins its next generation. Generations are not reused as long as there are
-- fewer than 2^64 of them.
theorem Service.Sound.borrowed (h : s.Sound) (ha : s.arena.available = i :: available)
    (hw : s.arena.contexts[i]? = some w) (hs : w.state = .available)
    (hr : entry.reply = .lease ⟨some s.arena.address, some i, nextGeneration w.generation⟩)
    (hb : borrows (s.served ++ [entry]) i < 2 ^ 64) :
    Service.Sound ⟨{ s.arena with available }.put i { w.retireFailedClaim with
      generation := nextGeneration w.generation
      state := .borrowed }, s.served ++ [entry]⟩ := by
  have sound := h.worker i w hw
  have ⟨hnext, hcount⟩ := h.nextGeneration_eq hw hr rfl hb
  have hretire : w.retireFailedClaim = w := by
    rw [Context.retireFailedClaim, Context.claimed, sound.idle hs]
    rfl
  have hnodup := h.nodup
  rw [ha, List.nodup_cons] at hnodup
  rw [hretire, hnext]
  rw [hnext] at hr
  refine h.advances hw ⟨⟨Nat.le_succ _, fun g hg _ => .inl (Nat.lt_succ_of_le hg)⟩, hnodup.2,
    fun j => ?_, ⟨nofun, nofun, sound.claims, hcount.symm⟩, fun lease he => ?_, fun claim he => ?_,
    fun claim _ _ hc => ?_, fun lease he => ?_⟩
  case refine_1 =>
    split
    case isTrue hj =>
      subst hj
      exact ⟨fun hm => absurd hm hnodup.1, nofun⟩
    case isFalse hj => rw [ha, List.mem_cons, or_iff_right hj]
  case refine_2 =>
    rw [hr] at he
    cases he
    exact ⟨rfl, Nat.lt_succ_self _⟩
  case refine_3 =>
    rw [hr] at he
    cases he
  case refine_4 =>
    -- The context was available, so that all of its claims were released.
    refine ⟨hc.odd, hc.positive, Nat.le_succ_of_le hc.le, fun he => ?_, ?_⟩
    · exact absurd (he ▸ hc.le) (Nat.not_succ_le_self _)
    · rcases hc.released with hm | ⟨_, hst, _⟩
      · exact .inl (List.mem_append_left _ hm)
      · rw [hs] at hst
        cases hst
  case refine_5 =>
    rw [he] at hr
    cases hr

theorem Service.Sound.returned (h : s.Sound) {lease : Lease} {result : ResultBatch}
    (hl : s.arena.active lease = .ok (i, w)) (hc : ¬w.claimed)
    (he : entry = ⟨.giveBack lease, .returned⟩) :
    Service.Sound ⟨{ s.arena with available := s.arena.available ++ [i] }.put i { w with
      input := [], output := [], evidenceOffsets := [], outputClaim := 0, result
      state := .available }, s.served ++ [entry]⟩ := by
  obtain ⟨_, hctx, _, hw, _, hs⟩ := Arena.active_eq_ok hl
  have sound := h.worker i w hw
  have hi : i ∉ s.arena.available := fun hm => by
    have ⟨v, hv, hst⟩ := (h.available i).mp hm
    rw [← Option.some.inj (hw.symm.trans hv), hs] at hst
    cases hst
  have hnl : ∀ lease, entry.reply ≠ .lease lease := fun _ hr => by rw [he] at hr; cases hr
  refine h.advances hw ⟨⟨Nat.le_refl _, fun _ _ _ => .inr rfl⟩,
    List.Nodup.append h.nodup (List.nodup_singleton i) (by simpa using hi), fun j => ?_,
    ⟨nofun, fun _ => rfl, show 0 < maxUint32 by decide, ?_⟩, fun lease hr => absurd hr (hnl lease),
    fun claim hr => ?_, fun claim _ _ hcl => ?_, fun lease' hr => ?_⟩
  case refine_1 =>
    split
    case isTrue hj =>
      subst hj
      simp
    case isFalse hj => simp [hj]
  case refine_2 => exact sound.generation.trans (borrows_of_not_lease hnl _).symm
  case refine_3 =>
    rw [he] at hr
    cases hr
  case refine_4 =>
    refine ⟨hcl.odd, hcl.positive, hcl.le, nofun, ?_⟩
    rcases hcl.released with hm | ⟨_, _, hcl'⟩
    · exact .inl (List.mem_append_left _ hm)
    · -- The counter is even, so that no claim is open.
      refine absurd ?_ hc
      rw [Context.claimed, hcl', hcl.odd]
      rfl
  case refine_5 =>
    rw [he] at hr
    cases hr
    exact ⟨hctx, rfl⟩

theorem Service.Sound.claimed (h : s.Sound) {lease : Lease} (hl : s.arena.active lease = .ok (i, w))
    (hc : ¬w.claimed) (hm : w.outputClaim ≠ maxUint32 - 1)
    (hr : entry.reply = .claim ⟨some i, lease.generation, w.outputClaim + 1⟩) :
    Service.Sound ⟨s.arena.put i { w with outputClaim := w.outputClaim + 1 },
      s.served ++ [entry]⟩ := by
  obtain ⟨_, _, hz, hw, hg, hs⟩ := Arena.active_eq_ok hl
  have sound := h.worker i w hw
  have heven : w.outputClaim % 2 = 0 := by
    simp only [Context.claimed, beq_iff_eq] at hc
    omega
  have hlt : w.outputClaim + 1 < maxUint32 := by
    have := sound.claims
    omega
  have hnl : ∀ lease, entry.reply ≠ .lease lease := fun _ he => by rw [hr] at he; cases he
  have ad : Advances s i w { w with outputClaim := w.outputClaim + 1 } s.arena.available entry := by
    refine ⟨⟨Nat.le_refl _, fun _ _ he => he⟩, h.nodup, h.pool_of_state hw rfl,
      ⟨sound.settled, fun he => ?_, hlt, sound.generation.trans (borrows_of_not_lease hnl _).symm⟩,
      fun lease he => absurd he (hnl lease), fun claim he => ?_, fun claim _ _ hcl => ?_,
      fun lease he => ?_⟩
    case refine_1 =>
      rw [hs] at he
      cases he
    case refine_2 =>
      rw [hr] at he
      cases he
      refine ⟨rfl, ⟨?_, hz, hg.ge, fun _ _ => Nat.le_refl _, .inr ⟨hg.symm, hs, rfl⟩⟩, hg.symm, hs,
        Nat.lt_succ_self _⟩
      simp only
      omega
    case refine_3 =>
      refine ⟨hcl.odd, hcl.positive, hcl.le, fun he hst => Nat.le_succ_of_le (hcl.order he hst), ?_⟩
      rcases hcl.released with hm | ⟨_, _, ho⟩
      · exact .inl (List.mem_append_left _ hm)
      · have := hcl.odd
        omega
    case refine_4 =>
      rw [he] at hr
      cases hr
  exact h.advances hw ad

theorem Service.Sound.released (h : s.Sound) {claim : OutputLease}
    (hc : s.arena.claimedBy claim = some (i, w)) (hg : w.generation = claim.generation)
    (ho : w.outputClaim = claim.claim) (he : entry = ⟨.release claim, .released⟩) :
    Service.Sound ⟨s.arena.put i { w with outputClaim := (w.outputClaim + 1) % 2 ^ 32 },
      s.served ++ [entry]⟩ := by
  obtain ⟨hctx, hz, hodd, hw⟩ := Arena.claimedBy_eq_some hc
  have sound := h.worker i w hw
  have hmax : maxUint32 = 2 ^ 32 - 1 := rfl
  have hlt := sound.claims
  have hs : w.state ≠ .available := fun hs => by
    rw [← ho, sound.idle hs] at hodd
    cases hodd
  have hnext : (w.outputClaim + 1) % 2 ^ 32 = w.outputClaim + 1 := Nat.mod_eq_of_lt (by omega)
  have hnl : ∀ lease, entry.reply ≠ .lease lease := fun _ hr => by rw [he] at hr; cases hr
  rw [hnext]
  have ad : Advances s i w { w with outputClaim := w.outputClaim + 1 } s.arena.available entry := by
    refine ⟨⟨Nat.le_refl _, fun _ _ he => he⟩, h.nodup, h.pool_of_state hw rfl,
      ⟨sound.settled, fun hst => absurd hst hs, ?_,
        sound.generation.trans (borrows_of_not_lease hnl _).symm⟩,
      fun lease he => absurd he (hnl lease), fun claim hr => ?_, fun claim' _ hctx' hcl => ?_,
      fun lease hr => ?_⟩
    case refine_1 =>
      simp only
      omega
    case refine_2 =>
      rw [he] at hr
      cases hr
    case refine_3 =>
      refine ⟨hcl.odd, hcl.positive, hcl.le, fun he hst => Nat.le_succ_of_le (hcl.order he hst), ?_⟩
      rcases hcl.released with hm | ⟨hg', _, ho'⟩
      · exact .inl (List.mem_append_left _ hm)
      · have hsame : claim' = claim := by
          obtain ⟨context, generation, number⟩ := claim
          obtain ⟨context', generation', number'⟩ := claim'
          simp only at hctx hctx' hg hg' ho ho'
          rw [hctx, hctx', ← hg, hg', ← ho, ho']
        exact .inl (List.mem_append_right _ (by rw [hsame, he]; exact List.mem_singleton_self _))
    case refine_4 =>
      rw [he] at hr
      cases hr
  exact h.advances hw ad

end Step

def Service.Bounded (s : Service) : Prop :=
  ∀ i, borrows s.served i < 2 ^ 64

namespace Service

variable {s s' : Service}

theorem Bounded.of_step (hs : s.Step s') (hb : s'.Bounded) : s.Bounded := by
  intro i
  cases hs
  refine Nat.lt_of_le_of_lt ?_ (hb i)
  rw [borrows_append]
  exact Nat.le_add_right _ _

theorem Bounded.of_steps (hs : s.Steps s') (hb : s'.Bounded) : s.Bounded := by
  induction hs using Relation.ReflTransGen.head_induction_on
  case refl => exact hb
  case head _ _ hs _ ih => exact ih.of_step hs

theorem Sound.unchanged (h : s.Sound) {entry : Served} (hr : entry.reply.Quiet) :
    Sound ⟨s.arena, s.served ++ [entry]⟩ := by
  have hlt := Nat.pos_of_ne_zero h.size
  have hself : s.arena.put 0 s.arena.contexts[0] = s.arena := by
    rw [Arena.put, List.set_getElem_self]
  have := h.quiet (List.getElem?_eq_getElem hlt) (.refl _) hr
  rwa [hself] at this

theorem Sound.effect (h : s.Sound) {call : ArenaCall} {arena : Arena} {reply : Reply}
    (effect : s.arena.Effect call arena reply)
    (hb : Bounded ⟨arena, s.served ++ [⟨call, reply⟩]⟩) :
    Sound ⟨arena, s.served ++ [⟨call, reply⟩]⟩ := by
  cases effect with
  | refused => exact h.unchanged trivial
  | read => exact h.unchanged trivial
  | used hl _ uses hr => exact h.quiet (Arena.active_eq_ok hl).2.2.2.1 uses hr
  | @borrowed i _ _ ha hw hst => exact h.borrowed ha hw hst rfl (hb i)
  | returned hl hc _ => exact h.returned hl hc rfl
  | claimed hl hc hm => exact h.claimed hl hc hm rfl
  | released hc hg ho => exact h.released hc hg ho rfl

theorem Sound.step (h : s.Sound) (hb : s'.Bounded) : s.Step s' → s'.Sound
  | .call _ performed => h.effect (Arena.effect_perform performed) hb

theorem Sound.steps (h : s.Sound) (hs : s.Steps s') (hb : s'.Bounded) : s'.Sound := by
  induction hs
  case refl => exact h
  case tail _ hs ih => exact (ih (hb.of_step hs)).step hb hs

theorem sound_new {address : Nat} {count : Int} {capacity : Capacity} {arena : Arena}
    (h : newArena address count capacity = .ok arena) : Sound ⟨arena, []⟩ := by
  have ⟨hc, h⟩ := Checked.of_guard h
  have ⟨_, _, h⟩ := Checked.of_bind h
  cases h
  refine ⟨?_, ?_, List.nodup_range, fun i => ?_, fun i w hw => ?_, List.nodup_nil, nofun,
    List.nodup_nil, nofun, fun before after lease he => ?_⟩
  case refine_1 =>
    simp only [List.length_replicate]
    omega
  case refine_2 => exact List.length_replicate.symm
  case refine_3 => simp [List.getElem?_replicate]
  case refine_4 =>
    obtain rfl := List.eq_of_mem_replicate (List.mem_of_getElem? hw)
    exact ⟨nofun, fun _ => rfl, by decide, rfl⟩
  case refine_5 => simp at he

end Service

-- What an output claim can read: nothing any more, or what was there when it was made.
def Context.Shows (w : Context) (claim : OutputLease) (bytes : List Byte) : Prop :=
  claim.generation < w.generation ∨ (claim.generation = w.generation ∧
    (w.state = .available ∨ claim.claim < w.outputClaim ∨
      (w.outputClaim = claim.claim ∧ w.output = bytes)))

namespace Service

variable {s s' : Service} {i : Nat} {claim : OutputLease} {bytes : List Byte}

theorem Sound.shows_effect (h : s.Sound) {call : ArenaCall} {arena : Arena} {reply : Reply}
    (effect : s.arena.Effect call arena reply) (hb : Bounded ⟨arena, s.served ++ [⟨call, reply⟩]⟩)
    (odd : claim.claim % 2 = 1) (hs : ∃ w, s.arena.contexts[i]? = some w ∧ w.Shows claim bytes) :
    ∃ w, arena.contexts[i]? = some w ∧ w.Shows claim bytes := by
  obtain ⟨v, hv, shows⟩ := hs
  have put : ∀ {a : Arena} {j : Nat} {w w' : Context}, a.contexts = s.arena.contexts →
      s.arena.contexts[j]? = some w → (w.Shows claim bytes → w'.Shows claim bytes) →
      ∃ w, (a.put j w').contexts[i]? = some w ∧ w.Shows claim bytes := fun {a j w w'} ha hw hk => by
    rw [← ha] at hv hw
    by_cases he : i = j
    case pos =>
      subst he
      obtain rfl : w = v := Option.some.inj (hw.symm.trans hv)
      exact ⟨w', (getElem?_put a hw).mpr (.inl ⟨rfl, rfl⟩), hk shows⟩
    case neg => exact ⟨v, (getElem?_put a hw).mpr (.inr ⟨he, hv⟩), shows⟩
  have claimed : ∀ {w : Context}, w.outputClaim = claim.claim → w.claimed := fun he => by
    rw [Context.claimed, he, odd]
    rfl
  cases effect with
  | refused => exact ⟨v, hv, shows⟩
  | read => exact ⟨v, hv, shows⟩
  | used hl _ uses _ =>
    refine put rfl (Arena.active_eq_ok hl).2.2.2.1 fun hk => ?_
    rw [Context.Shows, uses.generation, uses.state, uses.outputClaim]
    refine hk.imp_right fun hk => hk.imp_right fun hk => hk.imp_right fun hk => hk.imp_right fun hk => ?_
    exact ⟨hk.1, (uses.output (claimed hk.1)).trans hk.2⟩
  | @borrowed j _ w ha hw hst =>
    refine put rfl hw fun hk => .inl ?_
    have hnext := (h.nextGeneration_eq hw rfl rfl (hb j)).1
    rcases hk with hk | hk
    · exact hnext ▸ Nat.lt_succ_of_lt hk
    · exact hnext ▸ hk.1 ▸ Nat.lt_succ_self _
  | returned hl hc _ =>
    exact put rfl (Arena.active_eq_ok hl).2.2.2.1 fun hk =>
      hk.imp_right fun hk => hk.imp_right fun _ => .inl rfl
  | claimed hl hc _ =>
    refine put rfl (Arena.active_eq_ok hl).2.2.2.1 fun hk =>
      hk.imp_right fun hk => hk.imp_right fun hk => hk.imp_right fun hk => .inl ?_
    rcases hk with hk | hk
    · exact Nat.lt_succ_of_lt hk
    · exact absurd (claimed hk.1) hc
  | released hc hg ho =>
    have ⟨_, _, _, hw⟩ := Arena.claimedBy_eq_some hc
    have hlt := (h.worker _ _ hw).claims
    have hmax : maxUint32 = 2 ^ 32 - 1 := rfl
    rw [Nat.mod_eq_of_lt (by omega)]
    refine put rfl hw fun hk => hk.imp_right fun hk => hk.imp_right fun hk => hk.imp_right fun hk =>
      .inl ?_
    rcases hk with hk | hk
    · exact Nat.lt_succ_of_lt hk
    · exact hk.1 ▸ Nat.lt_succ_self _

end Service
end NornRune
