import NornRune.Scheduling.Arena

namespace NornRune

def Reply.Quiet : Reply → Prop
  | .lease _ | .claim _ | .returned | .released => False
  | _ => True

namespace Context

structure Uses (w w' : Context) : Prop where
  generation : w'.generation = w.generation
  state : w'.state = w.state
  outputClaim : w'.outputClaim = w.outputClaim
  output : w.claimed → w'.output = w.output

theorem Uses.refl (w : Context) : w.Uses w := ⟨rfl, rfl, rfl, fun _ => rfl⟩

end Context

namespace Arena

variable {a a' : Arena} {i : Nat} {w : Context}

inductive Effect (a : Arena) : ArenaCall → Arena → Reply → Prop
  | refused {call : ArenaCall} (e : ArenaError) : Effect a call a (.error e)
  | read {claim : OutputLease} {i : Nat} {w : Context} (hc : a.claimedBy claim = some (i, w))
    (hg : w.generation = claim.generation) (hs : w.state = .borrowed)
    (ho : w.outputClaim = claim.claim) : Effect a (.bytes claim) a (.bytes w.output)
  | used {call : ArenaCall} {lease : Lease} {i : Nat} {w w' : Context} {reply : Reply}
    (hl : a.active lease = .ok (i, w)) (hc : call.lease = some lease) (uses : w.Uses w')
    (hr : reply.Quiet) : Effect a call (a.put i w') reply
  | borrowed {i : Nat} {available : List Nat} {w : Context} (ha : a.available = i :: available)
    (hw : a.contexts[i]? = some w) (hs : w.state = .available) :
    Effect a (.borrow .waits) ({ a with available }.put i { w.retireFailedClaim with
      generation := nextGeneration w.generation
      state := .borrowed }) (.lease ⟨some a.address, some i, nextGeneration w.generation⟩)
  | returned {lease : Lease} {i : Nat} {w : Context} {result : ResultBatch}
    (hl : a.active lease = .ok (i, w)) (hc : ¬w.claimed) (ha : a.available.length < a.capacity) :
    Effect a (.giveBack lease) ({ a with available := a.available ++ [i] }.put i { w with
      input := [], output := [], evidenceOffsets := [], outputClaim := 0, result
      state := .available }) .returned
  | claimed {lease : Lease} {i : Nat} {w : Context} (hl : a.active lease = .ok (i, w))
    (hc : ¬w.claimed) (hm : w.outputClaim ≠ maxUint32 - 1) :
    Effect a (.claimOutput lease) (a.put i { w with outputClaim := w.outputClaim + 1 })
      (.claim ⟨some i, lease.generation, w.outputClaim + 1⟩)
  | released {claim : OutputLease} {i : Nat} {w : Context} (hc : a.claimedBy claim = some (i, w))
    (hg : w.generation = claim.generation) (ho : w.outputClaim = claim.claim) :
    Effect a (.release claim) (a.put i { w with outputClaim := (w.outputClaim + 1) % 2 ^ 32 })
      .released

variable {lease : Lease} {claim : OutputLease} {call : ArenaCall} {r : Reply}

theorem active_eq_ok (h : a.active lease = .ok (i, w)) :
    lease.arena = some a.address ∧ lease.context = some i ∧ lease.generation ≠ 0 ∧
      a.contexts[i]? = some w ∧ w.generation = lease.generation ∧ w.state = .borrowed := by
  unfold active at h
  split at h
  case h_1 => cases h
  case h_2 j v hl =>
    have ⟨hn, h⟩ := Checked.of_guard h
    cases h
    have ⟨hz, hl⟩ := Option.ite_none_left_eq_some.mp hl
    have ⟨k, hk, hl⟩ := Option.bind_eq_some_iff.mp hl
    have ⟨v, hv, he⟩ := Option.map_eq_some_iff.mp hl
    cases he
    simp only [not_or, not_not] at hn hz
    exact ⟨hz.1, hk, hz.2, hv, hn.1, hn.2⟩

theorem active_of_leased (h : a.leased lease = some (i, w)) (hg : w.generation = lease.generation)
    (hs : w.state = .borrowed) :
    a.active lease = .ok (i, w) := by
  simp only [active, h]
  rw [if_neg]
  simp [hg, hs]

theorem claimedBy_eq_some (h : a.claimedBy claim = some (i, w)) :
    claim.context = some i ∧ claim.generation ≠ 0 ∧ claim.claim % 2 = 1 ∧
      a.contexts[i]? = some w := by
  have ⟨hz, hl⟩ := Option.ite_none_left_eq_some.mp h
  have ⟨k, hk, hl⟩ := Option.bind_eq_some_iff.mp hl
  have ⟨v, hv, he⟩ := Option.map_eq_some_iff.mp hl
  cases he
  rw [not_or] at hz
  exact ⟨hk, hz.1, by omega, hv⟩

theorem effect_withLease {writesOutput : Bool} {f : Context → Context} {reply : Context → Reply}
    (h : a.withLease lease writesOutput f reply = .ok (a', r)) (hc : call.lease = some lease)
    (hq : ∀ w, (reply w).Quiet) (hf : ∀ w : Context, (writesOutput → ¬w.claimed) → w.Uses (f w)) :
    Effect a call a' r := by
  revert h
  fun_cases withLease a lease writesOutput f reply
  all_goals intro h; cases h
  case case3 hl hn =>
    refine .used hl hc (hf _ fun hw hcl => hn ?_) (hq _)
    rw [hw, hcl, Bool.and_self]
  all_goals exact .refused _

theorem effect_borrow {patience : Patience} (h : a.borrow patience = some (.ok (a', r))) :
    Effect a (.borrow patience) a' r := by
  revert h
  fun_cases borrow a patience
  all_goals intro h; cases h
  case case8 i available ha v hv w generation hs =>
    have hr : w.generation = v.generation ∧ w.state = v.state := by
      simp only [w]
      unfold Context.retireFailedClaim
      split <;> exact ⟨rfl, rfl⟩
    have hg : generation = nextGeneration v.generation := congrArg nextGeneration hr.1
    rw [hg]
    exact .borrowed ha hv (hr.2 ▸ not_not.mp hs)
  all_goals exact .refused _

theorem effect_giveBack (h : a.giveBack lease = .ok (a', r)) :
    Effect a (.giveBack lease) a' r := by
  revert h
  fun_cases giveBack a lease
  all_goals intro h
  case case6 i w hl hg hs hc =>
    have ⟨w', hw', h⟩ := Checked.of_bind h
    split at h
    case isFalse => cases h
    case isTrue ha =>
      unfold Context.reset at hw'
      split at hw'
      case h_1 => cases hw'
      case h_2 result _ =>
        cases hw'
        cases h
        exact @Effect.returned a lease i w result
          (active_of_leased hl (not_not.mp hg) (not_not.mp hs)) hc ha
  all_goals
    cases h
    exact .refused _

theorem effect_claimOutput (h : a.claimOutput lease = .ok (a', r)) :
    Effect a (.claimOutput lease) a' r := by
  revert h
  fun_cases claimOutput a lease
  all_goals intro h; cases h
  case case3 hl hn _ =>
    rw [not_or] at hn
    exact .claimed hl hn.1 hn.2
  all_goals exact .refused _

theorem effect_bytes (h : a.bytes claim = .ok (a', r)) :
    Effect a (.bytes claim) a' r := by
  revert h
  fun_cases bytes a claim
  all_goals intro h; cases h
  case case4 hc hn ho =>
    simp only [not_or, not_not] at hn ho
    exact .read hc hn.1 hn.2 ho
  all_goals exact .refused _

theorem effect_release (h : a.release claim = .ok (a', r)) :
    Effect a (.release claim) a' r := by
  revert h
  fun_cases release a claim
  all_goals intro h; cases h
  case case4 hc hg ho =>
    rw [← not_not.mp ho]
    exact .released hc (not_not.mp hg) (not_not.mp ho)
  all_goals exact .refused _

theorem effect_perform (h : a.perform call = some (.ok (a', r))) :
    Effect a call a' r := by
  cases call
  case borrow => exact effect_borrow h
  all_goals replace h := Option.some.inj h
  case giveBack => exact effect_giveBack h
  case claimOutput => exact effect_claimOutput h
  case bytes => exact effect_bytes h
  case release => exact effect_release h
  case grow lease capacity =>
    change a.grow lease capacity = _ at h
    revert h
    fun_cases grow a lease capacity
    all_goals intro h
    case case3 => exact effect_withLease h rfl (fun _ => trivial) fun w _ => .refl w
    all_goals
      cases h
      exact .refused _
  case setInput =>
    exact effect_withLease h rfl (fun _ => trivial) fun w _ => ⟨rfl, rfl, rfl, fun _ => rfl⟩
  case inputBytes => exact effect_withLease h rfl (fun _ => trivial) fun w _ => .refl w
  case appendOutput | resetOutput =>
    exact effect_withLease h rfl (fun _ => trivial)
      fun w hn => ⟨rfl, rfl, rfl, fun hc => absurd hc (hn rfl)⟩
  case part => exact effect_withLease h rfl (fun _ => trivial) fun w _ => .refl w

end Arena
end NornRune
