import NornRune.Serving.Theorems.Ownership
import NornRune.Scheduling.Theorems.Atomic

open Ledger Threads

-- Handles of admissions and of leases that have ended.
namespace NornRune

namespace Admissions

-- The outline of the runs in which no slot is counted on while a call looks at its generation.
def unseenOutline : Outline (guarded step advancesUnseen) :=
  view.outline True Counted fun {t s p e s' p'} h hcounted k hp => by
    have ⟨guard, hs⟩ := guarded_eq_some.mp hp
    have ⟨delta, turn⟩ := turn_of_step h hcounted k
      (fun n g hp => k.own h trivial (by rw [hp]; rfl) (by rw [hp]; rfl))
      (fun _ i hp => by
        rw [hp] at guard
        exact guard) hs
    exact ⟨delta, turn.toTurn, turn.counted h k hcounted⟩

theorem unseen_valid_new {limit : Int} {c : Config Admissions AdmissionPoint} (h : new limit = .ok c) :
    unseenOutline.Valid c := by
  unfold new at h
  have ⟨_, h⟩ := Checked.ite_eq_of_ne h nofun
  cases h
  exact ⟨⟨holds_new _, counted_new _⟩, fun t => knows_idle _ t⟩

-- A call is admitted. Another call shows a copy of the admission and finds its generation. The admission
-- is released, and a third call is admitted to the same slot.
def readmission : List (Nat × AdmissionEvent) :=
  [(0, .call (.admitCall (some false))), (0, .go), (0, .receive), (0, .go), (0, .go), (0, .go),
    (1, .call (.release (some 0))), (1, .go),
    (0, .call (.release (some 0))), (0, .go), (0, .go), (0, .go), (0, .go), (0, .go), (0, .go),
    (2, .call (.admitCall (some false))), (2, .go), (2, .receive), (2, .go), (2, .go), (2, .go)]

def releaseTwice : List (Nat × AdmissionEvent) :=
  [(0, .call (.admitCall (some false))), (0, .go), (0, .receive), (0, .go), (0, .go), (0, .go),
    (0, .call (.release (some 0))), (0, .go), (0, .go), (0, .go), (0, .go), (0, .go), (0, .go),
    (2, .call (.admitCall (some false))), (2, .go), (2, .receive), (2, .go), (2, .go), (2, .go),
    (1, .call (.release (some 0))), (1, .go)]

end Admissions

namespace Leases

def reborrow : List (Nat × LeaseEvent) :=
  [(0, .call (.borrow (some false))), (0, .receive), (0, .go), (0, .go), (0, .go),
    (1, .call (.giveBack (some 0))), (1, .go),
    (0, .call (.giveBack (some 0))), (0, .go), (0, .go), (0, .go), (0, .go), (0, .go), (0, .go),
    (2, .call (.borrow (some false))), (2, .receive), (2, .go), (2, .go), (2, .go)]

def returnTwice : List (Nat × LeaseEvent) :=
  [(0, .call (.borrow (some false))), (0, .receive), (0, .go), (0, .go), (0, .go),
    (0, .call (.giveBack (some 0))), (0, .go), (0, .go), (0, .go), (0, .go), (0, .go), (0, .go),
    (2, .call (.borrow (some false))), (2, .receive), (2, .go), (2, .go), (2, .go),
    (1, .call (.giveBack (some 0))), (1, .go)]

end Leases

-- As long as no slot is counted on while a call looks at its generation, a handle that has ended has no
-- effect, and no handle ends what another one was given for.
theorem ended_handles_harmless {limit count : Int} {c₀ c : Config Admissions AdmissionPoint}
    {d₀ d : Config Leases LeasePoint} {es : List (Nat × AdmissionEvent)} {fs : List (Nat × LeaseEvent)}
    (hservice : Admissions.new limit = .ok c₀)
    (hes : run (guarded Admissions.step Admissions.advancesUnseen) c₀ es = some c)
    (harena : Leases.new count = .ok d₀)
    (hfs : run (guarded Leases.step Leases.advancesUnseen) d₀ fs = some d) :
    c.shared.pool.ledger.Faithful ∧ d.shared.pool.ledger.Faithful := by
  refine ⟨?_, ?_⟩
  · exact ((Admissions.unseen_valid_new hservice).run hes).holds.1.owned.sound.toFaithful
  · exact ((Leases.valid_new harena).run hfs).holds.1.owned.sound.toFaithful

-- A handle that has ended is shown again, with another one for the same slot.
theorem ended_handles_harmless_twice : ∃ c₀ c d₀ d, Admissions.new 1 = .ok c₀ ∧
    run (guarded Admissions.step Admissions.advancesUnseen) c₀ Admissions.releaseTwice = some c ∧
    c.shared.pool.ledger.ended = [(0, 0)] ∧ Leases.new 1 = .ok d₀ ∧
    run (guarded Leases.step Leases.advancesUnseen) d₀ Leases.returnTwice = some d ∧
    d.shared.pool.ledger.ended = [(0, 0)] ∧
    c.shared.pool.ledger.Faithful ∧ d.shared.pool.ledger.Faithful := by
  let c₀ : Config Admissions AdmissionPoint := ⟨{ pool := Pool.new 1 }, fun _ => .idle⟩
  let d₀ : Config Leases LeasePoint := ⟨{ pool := Pool.new 1 }, fun _ => .idle⟩
  have hc : (run (guarded Admissions.step Admissions.advancesUnseen) c₀
    Admissions.releaseTwice).map (·.shared.pool.ledger.ended) = some [(0, 0)] := rfl
  have hd : (run (guarded Leases.step Leases.advancesUnseen) d₀ Leases.returnTwice).map
    (·.shared.pool.ledger.ended) = some [(0, 0)] := rfl
  have ⟨c, hes, hended⟩ := Option.map_eq_some_iff.mp hc
  have ⟨d, hfs, hended'⟩ := Option.map_eq_some_iff.mp hd
  have hnew : Admissions.new 1 = .ok c₀ := rfl
  have hnew' : Leases.new 1 = .ok d₀ := rfl
  exact ⟨c₀, c, d₀, d, hnew, hes, hended, hnew', hfs, hended',
    ended_handles_harmless hnew hes hnew' hfs⟩

-- The call that has found the generation of the first handle switches the slot of the second one.
theorem ended_handle_ends_another :
    (∃ c₀ c, Admissions.new 1 = .ok c₀ ∧
      run Admissions.step c₀ (Admissions.readmission ++ [(1, .go), (1, .go)]) = some c ∧
      c.shared.pool.ledger.ended = [(0, 0), (0, 1)] ∧ ¬c.shared.pool.ledger.Faithful) ∧
    ∃ c₀ c, Leases.new 1 = .ok c₀ ∧
      run Leases.step c₀ (Leases.reborrow ++ [(1, .go), (1, .go)]) = some c ∧
      c.shared.pool.ledger.ended = [(0, 0), (0, 1)] ∧ ¬c.shared.pool.ledger.Faithful := by
  have unfaithful : ∀ {l : Ledger}, l.ended = [(0, 0), (0, 1)] → ¬l.Faithful := fun {l} he h => by
    have := h.own (0, 1) (by rw [he]; simp)
    cases this
  refine ⟨?_, ?_⟩
  case refine_1 =>
    let c₀ : Config Admissions AdmissionPoint := ⟨{ pool := Pool.new 1 }, fun _ => .idle⟩
    have hended : (run Admissions.step c₀ (Admissions.readmission ++ [(1, .go), (1, .go)])).map
      (·.shared.pool.ledger.ended) = some [(0, 0), (0, 1)] := rfl
    have ⟨c, hrun, he⟩ := Option.map_eq_some_iff.mp hended
    exact ⟨c₀, c, rfl, hrun, he, unfaithful he⟩
  case refine_2 =>
    let c₀ : Config Leases LeasePoint := ⟨{ pool := Pool.new 1 }, fun _ => .idle⟩
    have hended : (run Leases.step c₀ (Leases.reborrow ++ [(1, .go), (1, .go)])).map
      (·.shared.pool.ledger.ended) = some [(0, 0), (0, 1)] := rfl
    have ⟨c, hrun, he⟩ := Option.map_eq_some_iff.mp hended
    exact ⟨c₀, c, rfl, hrun, he, unfaithful he⟩

end NornRune
