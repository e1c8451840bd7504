import NornRune.Scheduling.Theorems.Lease

namespace NornRune

theorem countP_range_getElem? {α : Type} (p : α → Bool) (xs : List α) :
    (List.range xs.length).countP (fun i => (xs[i]?).any p) = xs.countP p := by
  induction xs
  case nil => rfl
  case cons x xs ih =>
    rw [List.length_cons, List.range_succ_eq_map, List.countP_cons, List.countP_map, List.countP_cons,
      ← ih]
    rfl

namespace Service

variable {s : Service}

theorem Sound.conserved (h : s.Sound) : s.arena.available.length +
    s.arena.contexts.countP (·.state == .borrowed) = s.arena.contexts.length := by
  have hperm : s.arena.available.Perm ((List.range s.arena.contexts.length).filter
      fun i => (s.arena.contexts[i]?).any (·.state == .available)) := by
    refine (List.perm_ext_iff_of_nodup h.nodup (List.nodup_range.filter _)).mpr fun i => ?_
    rw [h.available i, List.mem_filter, List.mem_range]
    constructor
    · intro ⟨w, hw, hs⟩
      exact ⟨(List.getElem?_eq_some_iff.mp hw).1, by simp [hw, hs]⟩
    · intro ⟨hlt, ha⟩
      rw [List.getElem?_eq_getElem hlt] at ha
      exact ⟨_, List.getElem?_eq_getElem hlt, by simpa using ha⟩
  have havailable : s.arena.available.length = s.arena.contexts.countP (·.state == .available) := by
    rw [hperm.length_eq, ← List.countP_eq_length_filter, countP_range_getElem?]
  rw [havailable, List.length_eq_countP_add_countP (·.state == .available)]
  congr 1
  refine List.countP_congr fun w hw => ?_
  have ⟨i, hi⟩ := List.mem_iff_getElem?.mp hw
  have hsettled := (h.worker i w hi).settled
  cases hs : w.state
  case returning => exact absurd hs hsettled
  all_goals simp

variable {i : Nat} {w : Context} {a : Arena} {lease : Lease} {call : ArenaCall}
  {claim : OutputLease} {s' : Service}

theorem Sound.room (h : s.Sound) (hw : s.arena.contexts[i]? = some w) (hs : w.state = .borrowed) :
    s.arena.available.length < s.arena.capacity := by
  have hpos : 0 < s.arena.contexts.countP (·.state == .borrowed) :=
    List.countP_pos_iff.mpr ⟨w, List.mem_of_getElem? hw, by simp [hs]⟩
  have := h.conserved
  rw [h.capacity]
  omega

theorem Sound.borrow_ne_panic (h : s.Sound) (patience : Patience) (message : Panic) :
    s.arena.borrow patience ≠ some (.error message) := by
  fun_cases Arena.borrow s.arena patience
  case case6 i available ha hn =>
    obtain ⟨w, hw, _⟩ := (h.available i).mp (ha ▸ List.mem_cons_self)
    cases hn.symm.trans hw
  case case7 i available ha w hw w' hs =>
    obtain ⟨v, hv, hs'⟩ := (h.available i).mp (ha ▸ List.mem_cons_self)
    obtain rfl := Option.some.inj (hw.symm.trans hv)
    refine absurd ?_ hs
    simp only [w']
    unfold Context.retireFailedClaim
    split <;> exact hs'
  all_goals rintro ⟨⟩

theorem Sound.giveBack_ne_panic (h : s.Sound) (lease : Lease) (message : Panic) :
    s.arena.giveBack lease ≠ .error message := by
  fun_cases Arena.giveBack s.arena lease
  case case6 i w hl hg hs _ =>
    have hw := (Arena.active_eq_ok (Arena.active_of_leased hl (not_not.mp hg) (not_not.mp hs))).2.2.2.1
    have hreset : ∃ result, w.reset = .ok { w with
        input := [], output := [], evidenceOffsets := [], outputClaim := 0, result } :=
      ⟨_, rfl⟩
    obtain ⟨result, hr⟩ := hreset
    rw [hr]
    simp only [bind, Except.bind, if_pos (h.room hw (not_not.mp hs))]
    rintro ⟨⟩
  all_goals rintro ⟨⟩

theorem withLease_ne_panic {writesOutput : Bool} {f : Context → Context} {reply : Context → Reply}
    (message : Panic) :
    a.withLease lease writesOutput f reply ≠ .error message := by
  fun_cases Arena.withLease a lease writesOutput f reply <;> rintro ⟨⟩

theorem Sound.perform_ne_panic (h : s.Sound) (call : ArenaCall) (message : Panic) :
    s.arena.perform call ≠ some (.error message) := by
  cases call
  case borrow => exact h.borrow_ne_panic _ message
  all_goals
    rw [Arena.perform, ne_eq, Option.some.injEq]
  case giveBack => exact h.giveBack_ne_panic _ message
  case grow lease capacity =>
    fun_cases Arena.grow s.arena lease capacity
    case case3 => exact withLease_ne_panic message
    all_goals rintro ⟨⟩
  case claimOutput lease => fun_cases Arena.claimOutput s.arena lease <;> rintro ⟨⟩
  case bytes claim => fun_cases Arena.bytes s.arena claim <;> rintro ⟨⟩
  case release claim => fun_cases Arena.release s.arena claim <;> rintro ⟨⟩
  all_goals exact withLease_ne_panic message

theorem over_of_expired {generation : Nat} (he : w.Expired generation) :
    w.generation ≠ generation ∨ w.state ≠ .borrowed := by
  rcases he with he | he
  · exact .inl (by omega)
  · exact .inr (by rw [he]; nofun)

theorem refuses_lease (hl : a.leased lease = some (i, w)) (he : w.Expired lease.generation)
    (hc : call.lease = some lease) : ∃ e, a.perform call = some (.ok (a, .error e)) := by
  have hover := over_of_expired he
  have hactive : a.active lease = .error .leaseExpired := by
    simp only [Arena.active, hl, if_pos hover]
  have hwith : ∀ writesOutput f reply,
      a.withLease lease writesOutput f reply = .ok (a, .error .leaseExpired) := fun _ _ _ => by
    simp only [Arena.withLease, hactive, Arena.refuse]
  cases call
  case giveBack =>
    cases hc
    simp only [Arena.perform, Arena.giveBack, hl]
    split
    case isTrue => exact ⟨_, rfl⟩
    case isFalse =>
      rcases hover with hg | hs
      case inl => exact ⟨_, by rw [if_pos hg]; rfl⟩
      case inr =>
        rw [if_pos hs]
        split <;> exact ⟨_, rfl⟩
  case grow =>
    cases hc
    exact ⟨_, by simp only [Arena.perform, Arena.grow, hactive]; rfl⟩
  case claimOutput =>
    cases hc
    exact ⟨_, by simp only [Arena.perform, Arena.claimOutput, hactive]; rfl⟩
  case borrow | bytes | release => cases hc
  all_goals
    cases hc
    exact ⟨_, congrArg some (hwith _ _ _)⟩

theorem refuses_claim (hc : a.claimedBy claim = some (i, w)) (he : w.Expired claim.generation)
    (hz : w.state = .available → w.outputClaim ≠ claim.claim) (hcall : call.claim = some claim) :
    ∃ e, a.perform call = some (.ok (a, .error e)) := by
  cases call
  case bytes =>
    cases hcall
    exact ⟨_, by simp only [Arena.perform, Arena.bytes, hc, if_pos (over_of_expired he)]; rfl⟩
  case release =>
    cases hcall
    simp only [Arena.perform, Arena.release, hc]
    split
    · exact ⟨_, rfl⟩
    · rcases he with he | he
      · omega
      · exact ⟨_, by rw [if_pos (hz he)]; rfl⟩
  all_goals cases hcall

theorem Sound.leased_of_mem (h : s.Sound) (hm : lease ∈ leasesOf s.served)
    (hi : lease.context = some i) : ∃ w, s.arena.contexts[i]? = some w ∧
      s.arena.leased lease = some (i, w) := by
  have ⟨ha, hz, j, w, hj, hw, _⟩ := h.lease lease hm
  obtain rfl : j = i := Option.some.inj (hj.symm.trans hi)
  refine ⟨w, hw, ?_⟩
  rw [Arena.leased, if_neg (by simp [ha, hz]), hj, Option.bind_some, hw, Option.map_some]

theorem Sound.claimedBy_of_mem (h : s.Sound) (hm : claim ∈ claimsOf s.served)
    (hi : claim.context = some i) : ∃ w, s.arena.contexts[i]? = some w ∧
      s.arena.claimedBy claim = some (i, w) ∧ ClaimSound s.served claim w := by
  have ⟨j, w, hj, hw, sound⟩ := h.claim claim hm
  obtain rfl : j = i := Option.some.inj (hj.symm.trans hi)
  refine ⟨w, hw, ?_, sound⟩
  rw [Arena.claimedBy, if_neg (by simp [sound.positive, sound.odd]), hj, Option.bind_some, hw,
    Option.map_some]

theorem Sound.refuses_expired (h : s.Sound) {before after : List Served}
    (hs : s.served = before ++ ⟨.giveBack lease, .returned⟩ :: after) :
    (∀ l ∈ leasesOf before, l.context = lease.context → ∀ call, call.lease = some l →
      ∃ e, s.arena.perform call = some (.ok (s.arena, .error e))) ∧
    ∀ c ∈ claimsOf before, c.context = lease.context → ∀ call, call.claim = some c →
      ∃ e, s.arena.perform call = some (.ok (s.arena, .error e)) := by
  refine ⟨fun l hm hctx call hc => ?_, fun c hm hctx call hc => ?_⟩
  case refine_1 =>
    have hm' : l ∈ leasesOf s.served := by
      rw [hs, leasesOf_append]
      exact List.mem_append_left _ hm
    have ⟨_, _, i, _, hi, _⟩ := h.lease l hm'
    have ⟨w, hw, hl⟩ := h.leased_of_mem hm' hi
    exact refuses_lease hl ((h.expired before after lease hs i w (hctx ▸ hi) hw).1 l hm hi) hc
  case refine_2 =>
    have hm' : c ∈ claimsOf s.served := by
      rw [hs, claimsOf_append]
      exact List.mem_append_left _ hm
    have ⟨i, _, hi, _⟩ := h.claim c hm'
    have ⟨w, hw, hcl, sound⟩ := h.claimedBy_of_mem hm' hi
    refine refuses_claim hcl ((h.expired before after lease hs i w (hctx ▸ hi) hw).2 c hm hi)
      (fun hst he => ?_) hc
    have hodd := sound.odd
    rw [← he, (h.worker i w hw).idle hst] at hodd
    cases hodd

theorem Sound.released_of_giveBack (h : s.Sound) {arena : Arena}
    (hp : s.arena.perform (.giveBack lease) = some (.ok (arena, .returned))) :
    ∀ c ∈ claimsOf s.served, c.context = lease.context → ⟨.release c, .released⟩ ∈ s.served := by
  intro c hm hctx
  cases Arena.effect_perform hp with
  | returned hl hc _ =>
    have ⟨_, hi, _, hw, _, _⟩ := Arena.active_eq_ok hl
    have ⟨w', hw', _, sound⟩ := h.claimedBy_of_mem hm (hctx.trans hi)
    obtain rfl := Option.some.inj (hw.symm.trans hw')
    rcases sound.released with hr | ⟨_, _, ho⟩
    · exact hr
    · refine absurd ?_ hc
      rw [Context.claimed, ho, sound.odd]
      rfl
  | used _ _ _ hr => exact hr.elim

theorem active_unique {l l' : Lease} {w' : Context} (h : a.active l = .ok (i, w))
    (h' : a.active l' = .ok (i, w')) : l = l' := by
  have ⟨ha, hi, _, hw, hg, _⟩ := Arena.active_eq_ok h
  have ⟨ha', hi', _, hw', hg', _⟩ := Arena.active_eq_ok h'
  obtain rfl := Option.some.inj (hw.symm.trans hw')
  obtain ⟨arena, context, generation⟩ := l
  obtain ⟨arena', context', generation'⟩ := l'
  simp only at ha hi hg ha' hi' hg'
  rw [ha, hi, ← hg, ha', hi', hg']

theorem Sound.shows_steps (h : s.Sound) (hs : s.Steps s') (hb : s'.Bounded) (i : Nat)
    (claim : OutputLease) (bytes : List Byte) (odd : claim.claim % 2 = 1)
    (hw : ∃ w, s.arena.contexts[i]? = some w ∧ w.Shows claim bytes) :
    ∃ w, s'.arena.contexts[i]? = some w ∧ w.Shows claim bytes := by
  induction hs
  case refl => exact hw
  case tail s₁ s₂ hsteps hstep ih =>
    have hb₁ := hb.of_step hstep
    cases hstep with
    | call _ performed =>
      exact (h.steps hsteps hb₁).shows_effect (Arena.effect_perform performed) hb odd (ih hb₁)

theorem Sound.bytes_of_claim (h : s.Sound) {arena : Arena} {bytes : List Byte}
    (hclaim : s.arena.perform (.claimOutput lease) = some (.ok (arena, .claim claim)))
    (hs : Steps ⟨arena, s.served ++ [⟨.claimOutput lease, .claim claim⟩]⟩ s') (hb : s'.Bounded)
    {arena' : Arena} (hread : s'.arena.perform (.bytes claim) = some (.ok (arena', .bytes bytes))) :
    ∃ i w, s.arena.active lease = .ok (i, w) ∧ bytes = w.output := by
  have effect := Arena.effect_perform hclaim
  have sound := h.effect effect (hb.of_steps hs)
  cases effect with
  | used _ _ _ hr => exact hr.elim
  | @claimed _ i w hl hc _ =>
    obtain ⟨_, _, _, hw, hg, hst⟩ := Arena.active_eq_ok hl
    have hodd : (w.outputClaim + 1) % 2 = 1 := by
      simp only [Context.claimed, beq_iff_eq] at hc
      omega
    obtain ⟨v, hv, shows⟩ := sound.shows_steps hs hb i
      ⟨some i, lease.generation, w.outputClaim + 1⟩ w.output hodd
      ⟨_, (getElem?_put _ hw).mpr (.inl ⟨rfl, rfl⟩), .inr ⟨hg.symm, .inr (.inr ⟨rfl, rfl⟩)⟩⟩
    refine ⟨i, w, hl, ?_⟩
    cases Arena.effect_perform hread with
    | used _ hc => cases hc
    | read hcl hg' hs' ho' =>
      obtain ⟨hi, _, _, hv'⟩ := Arena.claimedBy_eq_some hcl
      cases hi
      obtain rfl := Option.some.inj (hv.symm.trans hv')
      rcases shows with hlt | ⟨_, ha | hlt | ⟨_, he⟩⟩
      · exact absurd hlt (hg' ▸ Nat.lt_irrefl _)
      · rw [hs'] at ha
        cases ha
      · exact absurd hlt (ho' ▸ Nat.lt_irrefl _)
      · exact he

theorem length_steps (hs : s.Steps s') :
    s'.arena.contexts.length = s.arena.contexts.length := by
  induction hs
  case refl => rfl
  case tail hstep ih =>
    cases hstep with
    | call _ performed =>
      refine Eq.trans ?_ ih
      cases Arena.effect_perform performed <;> first | rfl | exact List.length_set

-- As long as no context is lent 2^64 times, leases and claims are safe: no two leases of a context are
-- in force, what is over is refused, no context is given back while its output is claimed, claims do
-- not read what was written later, no context is lost, and no call panics.
theorem leases_safe {address : Nat} {count : Int} {capacity : Capacity} {arena : Arena}
    (hnew : newArena address count capacity = .ok arena) (hs : Steps ⟨arena, []⟩ s) (hb : s.Bounded) :
    (leasesOf s.served).Nodup ∧
    (∀ l ∈ leasesOf s.served, ∀ l' ∈ leasesOf s.served, ∀ i w w', s.arena.active l = .ok (i, w) →
      s.arena.active l' = .ok (i, w') → l = l') ∧
    (∀ before after lease, s.served = before ++ ⟨.giveBack lease, .returned⟩ :: after →
      (∀ l ∈ leasesOf before, l.context = lease.context → ∀ call, call.lease = some l →
        ∃ e, s.arena.perform call = some (.ok (s.arena, .error e))) ∧
      ∀ c ∈ claimsOf before, c.context = lease.context → ∀ call, call.claim = some c →
        ∃ e, s.arena.perform call = some (.ok (s.arena, .error e))) ∧
    (∀ lease arena', s.arena.perform (.giveBack lease) = some (.ok (arena', .returned)) →
      ∀ c ∈ claimsOf s.served, c.context = lease.context → ⟨.release c, .released⟩ ∈ s.served) ∧
    (∀ s₁ lease claim arena₂ arena' bytes, Steps ⟨arena, []⟩ s₁ →
      s₁.arena.perform (.claimOutput lease) = some (.ok (arena₂, .claim claim)) →
      Steps ⟨arena₂, s₁.served ++ [⟨.claimOutput lease, .claim claim⟩]⟩ s →
      s.arena.perform (.bytes claim) = some (.ok (arena', .bytes bytes)) →
        ∃ i w, s₁.arena.active lease = .ok (i, w) ∧ bytes = w.output) ∧
    s.arena.available.length + s.arena.contexts.countP (·.state == .borrowed) =
      s.arena.contexts.length ∧
    s.arena.contexts.length = count.toNat ∧
    ∀ call message, s.arena.perform call ≠ some (.error message) := by
  have start := sound_new hnew
  have sound := start.steps hs hb
  refine ⟨sound.leases, fun l _ l' _ i w w' h h' => active_unique h h',
    fun before after lease he => sound.refuses_expired he,
    fun lease arena' hp => sound.released_of_giveBack hp, ?_, sound.conserved, ?_,
    sound.perform_ne_panic⟩
  case refine_1 =>
    intro s₁ lease claim arena₂ arena' bytes h₁ hclaim h₂ hread
    have hb₁ : s₁.Bounded := fun i => by
      refine Nat.lt_of_le_of_lt ?_ (hb.of_steps h₂ i)
      rw [borrows_append]
      exact Nat.le_add_right _ _
    exact (start.steps h₁ hb₁).bytes_of_claim hclaim h₂ hb hread
  case refine_2 =>
    have ⟨_, hnew⟩ := Checked.of_guard hnew
    have ⟨_, _, hnew⟩ := Checked.of_bind hnew
    rw [length_steps hs]
    cases hnew
    exact List.length_replicate

def single : Arena := ⟨0, [{}], [0], 1⟩

def firstLease : Lease := ⟨some 0, some 0, 1⟩

def firstClaim : OutputLease := ⟨some 0, 1, 1⟩

def lent (w : Context) : Arena := ⟨0, [{ w with state := .borrowed }], [], 1⟩

def written (outputClaim : Nat) : Arena := lent { generation := 1, output := [5#8], outputClaim }

def cleared : Context := { generation := 1, result := (ResultBatch.empty.reset 0).getD .empty }

def lentAgain : Arena := lent { cleared with generation := 2 }

-- An output is written, claimed and released. Then the context is given back and lent again.
def lentTwice : List Served := [
  ⟨.borrow .waits, .lease firstLease⟩,
  ⟨.appendOutput firstLease [5#8], .done⟩,
  ⟨.claimOutput firstLease, .claim firstClaim⟩,
  ⟨.release firstClaim, .released⟩,
  ⟨.giveBack firstLease, .returned⟩,
  ⟨.borrow .waits, .lease ⟨some 0, some 0, 2⟩⟩]

theorem steps_lentTwice :
    Steps ⟨single, []⟩ ⟨written 0, lentTwice.take 2⟩ ∧
    Steps ⟨single, []⟩ ⟨written 1, lentTwice.take 3⟩ ∧
    Steps ⟨single, []⟩ ⟨written 2, lentTwice.take 4⟩ ∧
    Steps ⟨single, []⟩ ⟨lentAgain, lentTwice⟩ := by
  have entitled {a : Arena} {served : List Served} {call : ArenaCall}
      (hl : ∀ lease, call.lease = some lease → lease = firstLease ∧ firstLease ∈ leasesOf served)
      (hc : ∀ claim, call.claim = some claim → claim = firstClaim ∧ firstClaim ∈ claimsOf served) :
      Entitled a served call :=
    ⟨fun l h => .inl ((hl l h).1 ▸ (hl l h).2), fun c h => .inl ((hc c h).1 ▸ (hc c h).2)⟩
  have h₁ : Step ⟨single, []⟩ ⟨lent { generation := 1 }, lentTwice.take 1⟩ := .call ⟨nofun, nofun⟩ rfl
  have h₂ : Step ⟨lent { generation := 1 }, lentTwice.take 1⟩ ⟨written 0, lentTwice.take 2⟩ :=
    .call (entitled (by rintro _ ⟨⟩; decide) nofun) rfl
  have h₃ : Step ⟨written 0, lentTwice.take 2⟩ ⟨written 1, lentTwice.take 3⟩ :=
    .call (entitled (by rintro _ ⟨⟩; decide) nofun) rfl
  have h₄ : Step ⟨written 1, lentTwice.take 3⟩ ⟨written 2, lentTwice.take 4⟩ :=
    .call (entitled nofun (by rintro _ ⟨⟩; decide)) rfl
  have h₅ : Step ⟨written 2, lentTwice.take 4⟩ ⟨⟨0, [cleared], [0], 1⟩, lentTwice.take 5⟩ :=
    .call (entitled (by rintro _ ⟨⟩; decide) nofun) rfl
  have h₆ : Step ⟨⟨0, [cleared], [0], 1⟩, lentTwice.take 5⟩ ⟨lentAgain, lentTwice⟩ :=
    .call ⟨nofun, nofun⟩ rfl
  have s₂ := (Relation.ReflTransGen.single h₁).tail h₂
  have s₄ := (s₂.tail h₃).tail h₄
  exact ⟨s₂, s₂.tail h₃, s₄, (s₄.tail h₅).tail h₆⟩

-- The claim reads what was written, the context is given back since the claim was released, and then
-- neither the lease nor the claim is good for anything.
theorem leases_safe_lentTwice : ∃ i w e e', (written 0).active firstLease = .ok (i, w) ∧
    (written 1).perform (.bytes firstClaim) = some (.ok (written 1, .bytes w.output)) ∧
    ⟨.release firstClaim, .released⟩ ∈ lentTwice.take 4 ∧
    lentAgain.perform (.setInput firstLease [6#8]) = some (.ok (lentAgain, .error e)) ∧
    lentAgain.perform (.bytes firstClaim) = some (.ok (lentAgain, .error e')) ∧
    lentAgain.available.length + lentAgain.contexts.countP (·.state == .borrowed) = 1 := by
  have hnew : newArena 0 1 ⟨0, 0, 0⟩ = .ok single := rfl
  have bounded {s : Service} (h : (leasesOf s.served).length ≤ 2) : s.Bounded := fun i =>
    Nat.lt_of_le_of_lt (Nat.le_trans List.countP_le_length h) (by decide)
  have ⟨s₂, s₃, s₄, s₆⟩ := steps_lentTwice
  have ⟨_, _, _, _, reads, _⟩ := leases_safe hnew s₃ (bounded (by decide))
  have ⟨_, _, _, released, _⟩ := leases_safe hnew s₄ (bounded (by decide))
  have ⟨_, _, refused, _, _, hcount, _⟩ := leases_safe hnew s₆ (bounded (by decide))
  have ⟨hlease, hclaim⟩ := refused (lentTwice.take 4) (lentTwice.drop 5) firstLease rfl
  have ⟨e, he⟩ := hlease firstLease (by decide) rfl (.setInput firstLease [6#8]) rfl
  have ⟨e', he'⟩ := hclaim firstClaim (by decide) rfl (.bytes firstClaim) rfl
  have hread : (written 1).perform (.bytes firstClaim) = some (.ok (written 1, .bytes [5#8])) := rfl
  have ⟨i, w, hw, hbytes⟩ := reads _ firstLease firstClaim _ _ [5#8] s₂ rfl .refl hread
  exact ⟨i, w, e, e', hw, hbytes ▸ hread, released firstLease _ rfl firstClaim (by decide) rfl, he, he',
    hcount⟩

theorem borrow_single {w : Context} {served : List Served} {n : Nat} (hn : nextGeneration w.generation = n)
    (hs : w.state = .available) (hc : w.outputClaim = 0) :
    Step ⟨⟨0, [w], [0], 1⟩, served⟩ ⟨⟨0, [{ w with generation := n, state := .borrowed }], [], 1⟩,
      served ++ [⟨.borrow .waits, .lease ⟨some 0, some 0, n⟩⟩]⟩ := by
  have hretire : w.retireFailedClaim = w := by
    rw [Context.retireFailedClaim, Context.claimed, hc]
    rfl
  refine .call ⟨by rintro _ ⟨⟩, by rintro _ ⟨⟩⟩ ?_
  simp only [Arena.perform, Arena.borrow, Arena.valid]
  simp [hretire, hn, hs, Arena.put]

theorem steps_single {n : Nat} (hn : n < 2 ^ 64) : ∃ w served, Steps ⟨single, []⟩
    ⟨⟨0, [w], [0], 1⟩, served⟩ ∧ w.generation = n ∧ w.state = .available ∧ w.outputClaim = 0 ∧
      (n ≠ 0 → ∃ before lease, served = before ++ [⟨.giveBack lease, .returned⟩] ∧
        ⟨some 0, some 0, 1⟩ ∈ leasesOf before ∧ lease.context = some 0) := by
  induction n
  case zero => exact ⟨{}, [], .refl, rfl, rfl, rfl, fun h => absurd rfl h⟩
  case succ n ih =>
    obtain ⟨w, served, hs, hg, hst, hc, hfirst⟩ := ih (Nat.lt_of_succ_lt hn)
    have hnext : nextGeneration w.generation = n + 1 := by
      rw [nextGeneration, hg, Nat.mod_eq_of_lt hn, if_neg (Nat.succ_ne_zero _)]
    let lease : Lease := ⟨some 0, some 0, n + 1⟩
    let lent : Context := { w with generation := n + 1, state := .borrowed }
    have hborrow : Step ⟨⟨0, [w], [0], 1⟩, served⟩
        ⟨⟨0, [lent], [], 1⟩, served ++ [⟨.borrow .waits, .lease lease⟩]⟩ := borrow_single hnext hst hc
    have hreturn : Step ⟨⟨0, [lent], [], 1⟩, served ++ [⟨.borrow .waits, .lease lease⟩]⟩
        ⟨⟨0, [{ lent with input := [], output := [], evidenceOffsets := [], outputClaim := 0,
                          result := (lent.result.reset 0).getD .empty, state := .available }], [0], 1⟩,
          served ++ [⟨.borrow .waits, .lease lease⟩] ++ [⟨.giveBack lease, .returned⟩]⟩ := by
      refine .call ⟨fun l hl => .inl ?_, by rintro _ ⟨⟩⟩ ?_
      · cases hl
        rw [leasesOf_append]
        exact List.mem_append_right _ (List.mem_singleton_self _)
      · have hcl : lent.claimed = false := by simp [Context.claimed, lent, hc]
        have hactive : Arena.leased ⟨0, [lent], [], 1⟩ lease = some (0, lent) := by
          simp [Arena.leased, lease]
        simp only [Arena.perform, Arena.giveBack, Arena.valid, hactive, hcl]
        rw [if_neg (by simp), if_neg (not_not.mpr rfl), if_neg (not_not.mpr rfl), if_neg (by rintro ⟨⟩)]
        rfl
    refine ⟨_, _, (hs.tail hborrow).tail hreturn, rfl, rfl, rfl, fun _ => ⟨_, lease, rfl, ?_, rfl⟩⟩
    rw [leasesOf_append, List.mem_append]
    by_cases h0 : n = 0
    case pos =>
      subst h0
      exact .inr (List.mem_singleton_self _)
    case neg =>
      obtain ⟨before, l, hb, hm, _⟩ := hfirst h0
      refine .inl ?_
      rw [hb, leasesOf_append]
      exact List.mem_append_left _ hm

-- After 2^64 - 1 generations the first lease is in force again.
theorem lease_in_force_again : newArena 0 1 ⟨0, 0, 0⟩ = .ok single ∧
    ∃ s before after lease, Steps ⟨single, []⟩ s ∧
      s.served = before ++ ⟨.giveBack lease, .returned⟩ :: after ∧
      ⟨some 0, some 0, 1⟩ ∈ leasesOf before ∧ lease.context = some 0 ∧
      ∃ w, s.arena.active ⟨some 0, some 0, 1⟩ = .ok (0, w) := by
  refine ⟨rfl, ?_⟩
  obtain ⟨w, served, hs, hg, hst, hc, hfirst⟩ := steps_single (n := 2 ^ 64 - 1) (by decide)
  obtain ⟨before, lease, rfl, hm, hctx⟩ := hfirst (by decide)
  have hnext : nextGeneration w.generation = 1 := by rw [hg]; decide
  let lent : Context := { w with generation := 1, state := .borrowed }
  refine ⟨_, before, _, lease, hs.tail (borrow_single hnext hst hc), List.append_assoc .., hm, hctx, lent, ?_⟩
  simp [Arena.active, Arena.leased, lent]

end Service
end NornRune
