import NornRune.Publication.Theorems.Registry

open Threads

namespace NornRune

def RegistryEvent.isCall : RegistryEvent → Bool
  | .call _ => true
  | _ => false

def Publisher.flight : Publisher → Option Nat
  | .caller => none
  | .leader _ f => some f

namespace RegistryPoint

def publishing : RegistryPoint → Bool
  | .publishLoad _ _ | .publishStore _ _ _ | .publishUnlock _ _ _ => true
  | _ => false

def joining : RegistryPoint → Bool
  | .loadAgain _ | .foundUnlock _ _ | .join _ | .waitUnlock _ _ | .leadUnlock _ _ | .finish _ _ _
  | .finishUnlock _ _ _ => true
  | _ => false

def leads : RegistryPoint → Option Nat
  | .publishLock publisher _ | .publishLoad publisher _ | .publishStore publisher _ _
  | .publishUnlock publisher _ _ => publisher.flight
  | .leadUnlock _ f | .compile _ f | .finishLock _ f _ | .finish _ f _ => some f
  | _ => none

@[simp]
def turns : RegistryPoint → Nat
  | .idle => 0
  | .foundUnlock _ _ | .wait _ _ | .activateStore _ _ | .finishUnlock _ _ _ => 1
  | .waitUnlock _ _ | .activateLoad _ | .finish _ _ _ => 2
  | .finishLock _ _ _ => 3
  | .publishUnlock _ _ _ => 4
  | .publishStore _ _ _ => 5
  | .publishLoad _ _ => 6
  | .publishLock _ _ => 7
  | .compile _ _ => 8
  | .leadUnlock _ _ => 9
  | .join _ => 10
  | .loadAgain _ => 11
  | .loadLock _ => 12
  | .loadFirst _ => 13

end RegistryPoint

namespace Registry

variable {content : Nat → ContentHash} {t : Nat} {r r' : Registry} {p p' : RegistryPoint}
  {e : RegistryEvent} {hash : ContentHash} {f : Nat} {c c' : Config Registry RegistryPoint}
  {es es' : List (Nat × RegistryEvent)}

-- The thread has what others wait for only where it goes on to let go of it.
structure Owes (t : Nat) (r : Registry) (p : RegistryPoint) : Prop where
  publish : r.publish = some t → p.publishing
  flight : r.flight = some t → p.joining
  made : ∀ (f : Nat) flight, r.made[f]? = some flight → flight.leader = t → flight.done = none →
    p.leads = some f

def Moves (t : Nat) (lock lock' : Option Nat) (has has' : Bool) : Prop :=
  lock' = lock ∧ has' = has ∨ lock' = none ∨ lock' = some t ∧ has'

structure Passes (t : Nat) (r : Registry) (p : RegistryPoint) (r' : Registry) (p' : RegistryPoint) :
    Prop where
  turns : p = .idle ∨ p'.turns < p.turns
  owes : Owes t r p → Owes t r' p'
  others : ∀ u k, u ≠ t → Owes u r k → Owes u r' k

theorem Moves.owes {lock lock' : Option Nat} {has has' : Bool} (h : Moves t lock lock' has has') :
    ((lock = some t → has) → lock' = some t → has') ∧
      ∀ u, u ≠ t → lock' = some u → lock = some u := by
  rcases h with ⟨rfl, rfl⟩ | rfl | ⟨rfl, h⟩
  case inl => exact ⟨id, fun _ _ => id⟩
  case inr.inl => exact ⟨fun _ => nofun, fun _ _ => nofun⟩
  case inr.inr => exact ⟨fun _ _ => h, fun u hu he => absurd (Option.some.inj he).symm hu⟩

theorem Passes.of_moves (ht : p = .idle ∨ p'.turns < p.turns)
    (hp : Moves t r.publish r'.publish p.publishing p'.publishing)
    (hf : Moves t r.flight r'.flight p.joining p'.joining) (hm : r'.made = r.made)
    (hl : p'.leads = p.leads) : Passes t r p r' p' where
  turns := ht
  owes h := ⟨hp.owes.1 h.publish, hf.owes.1 h.flight, hm ▸ hl ▸ h.made⟩
  others u _ hu h := ⟨h.publish ∘ hp.owes.2 u hu, h.flight ∘ hf.owes.2 u hu, hm ▸ h.made⟩

theorem Passes.of_same (ht : p = .idle ∨ p'.turns < p.turns) (hp : p'.publishing = p.publishing)
    (hf : p'.joining = p.joining) (hl : p'.leads = p.leads) (hp' : r'.publish = r.publish)
    (hf' : r'.flight = r.flight) (hm : r'.made = r.made) : Passes t r p r' p' :=
  .of_moves ht (.inl ⟨hp', hp⟩) (.inl ⟨hf', hf⟩) hm hl

theorem passes_publishFrom {publisher : Publisher} {c : Nat} :
    Passes t r (.publishLoad publisher c) r (publishFrom content r.snapshot publisher c) := by
  unfold publishFrom
  repeat' split
  all_goals exact .of_same (by simp) rfl rfl rfl rfl rfl rfl

theorem passes_start {call : RegistryCall} :
    Passes t r .idle (r.start content call).1 (r.start content call).2 := by
  unfold start startPublish
  repeat' split
  all_goals exact .of_same (.inl rfl) rfl rfl rfl rfl rfl rfl

theorem passes_endCompile {program error : Option Nat} :
    Passes t r (.compile hash f) (r.endCompile content hash f program error).1
      (r.endCompile content hash f program error).2 := by
  unfold endCompile startPublish
  repeat' split
  all_goals exact .of_same (.inr (by simp [endPublish])) rfl rfl rfl rfl rfl rfl

theorem passes_lead : Passes t r (.join hash) { r with
    flights := r.flights ++ [(hash, r.made.length)]
    made := r.made ++ [⟨hash, t, none⟩] } (.leadUnlock hash r.made.length) where
  turns := by simp
  owes h := ⟨h.publish, h.flight, by grind [h.made, RegistryPoint.leads]⟩
  others u k hu h := ⟨h.publish, h.flight, by grind [h.made]⟩

theorem passes_finish {result : Compiled} : Passes t r (.finish hash f result) { r with
    made := r.made.modify f fun flight => { flight with done := some result }
    flights := r.flights.filter (·.1 != hash) } (.finishUnlock hash f result) where
  turns := by simp
  owes h := ⟨h.publish, h.flight, by grind [h.made, RegistryPoint.leads]⟩
  others u k hu h := ⟨h.publish, h.flight, by grind [h.made]⟩

theorem passes_of_step (hs : step content t r p e = some (r', p')) : Passes t r p r' p' := by
  unfold step at hs
  split at hs
  case h_1 c =>
    obtain rfl : r' = _ := congrArg Prod.fst (Option.some.inj hs).symm
    obtain rfl : p' = _ := congrArg Prod.snd (Option.some.inj hs).symm
    exact passes_start
  case h_3 publisher c =>
    cases hs
    exact passes_publishFrom
  case h_5 publisher c result =>
    cases publisher
    all_goals
      cases hs
      exact .of_moves (by simp) (.inr (.inl rfl)) (.inl ⟨rfl, rfl⟩) rfl rfl
  case h_14 hash f =>
    have ⟨_, _, he⟩ := Option.map_eq_some_iff.mp hs
    cases he
    exact .of_same (by simp) rfl rfl rfl rfl rfl rfl
  case h_16 hash f program error =>
    obtain rfl : r' = _ := congrArg Prod.fst (Option.some.inj hs).symm
    obtain rfl : p' = _ := congrArg Prod.snd (Option.some.inj hs).symm
    exact passes_endCompile
  -- The other points lead or finish a flight, take or release a lock, or only read.
  all_goals
    repeat' split at hs
    all_goals cases hs
    all_goals first
    | exact passes_lead
    | exact passes_finish
    | exact .of_same (by simp) rfl rfl rfl rfl rfl rfl
    | exact .of_moves (by simp) (.inr (.inr ⟨rfl, rfl⟩)) (.inl ⟨rfl, rfl⟩) rfl rfl
    | exact .of_moves (by simp) (.inl ⟨rfl, rfl⟩) (.inr (.inr ⟨rfl, rfl⟩)) rfl rfl
    | exact .of_moves (by simp) (.inl ⟨rfl, rfl⟩) (.inr (.inl rfl)) rfl rfl

def owing (content : Nat → ContentHash) : Outline (step content) where
  Holds _ := True
  Knows := Owes
  step _ h hs := ⟨trivial, (passes_of_step hs).owes h⟩
  stable _ _ hs hu := (passes_of_step hs).others _ _ hu

theorem not_isCall_go : ¬RegistryEvent.go.isCall :=
  nofun

theorem turns_of_step (he : ¬e.isCall) (hs : step content t r p e = some (r', p')) :
    p'.turns < p.turns := by
  refine (passes_of_step hs).turns.resolve_left ?_
  rintro rfl
  cases e
  case call => exact he rfl
  all_goals cases hs

theorem isSome_step_of_lock (h : p.publishing ∨ p.joining) : (step content t r p .go).isSome := by
  unfold step
  repeat' split
  all_goals simp_all [RegistryPoint.publishing, RegistryPoint.joining]

theorem owing_empty : (owing content).Valid empty where
  holds := trivial
  knows t := ⟨nofun, nofun, by simp [empty]⟩

-- A thread that is in a call is blocked by a lock or by a flight.
theorem exists_step (hp : r.publish = none) (hf : r.flight = none) (hi : p ≠ .idle)
    (hw : ∀ hash f, p = .wait hash f → ((r.made[f]?).bind (·.done)).isSome) :
    ∃ e : RegistryEvent, ¬e.isCall ∧ (step content t r p e).isSome := by
  cases p
  case idle => exact absurd rfl hi
  case compile => exact ⟨.compiled none none, Bool.false_ne_true, rfl⟩
  case wait hash f => exact ⟨.go, not_isCall_go, Option.isSome_map.trans (hw hash f rfl)⟩
  all_goals
    refine ⟨.go, not_isCall_go, ?_⟩
    simp only [step, hp, hf, Option.isSome_none, Bool.false_eq_true, if_false]
    repeat' split
    all_goals rfl

def Blocked (content : Nat → ContentHash) (c : Config Registry RegistryPoint) : Prop :=
  ∀ e : Nat × RegistryEvent, ¬e.2.isCall → turn (step content) c e = none

structure Rests (r : Registry) : Prop where
  publish : r.publish = none
  flight : r.flight = none
  made : ∀ flight ∈ r.made, flight.done.isSome

theorem not_isSome_step (h : Blocked content c) (he : ¬e.isCall) :
    ¬(step content t c.shared (c.threads t) e).isSome := by
  rw [Option.map_eq_none_iff.mp (h (t, e) he)]
  nofun

theorem rests_of_blocked (valid : (owing content).Valid c) (h : Blocked content c) :
    c.shared.Rests := by
  have hp : c.shared.publish = none := Option.eq_none_iff_forall_ne_some.mpr fun u hu =>
    not_isSome_step h not_isCall_go (isSome_step_of_lock (.inl ((valid.knows u).publish hu)))
  have hf : c.shared.flight = none := Option.eq_none_iff_forall_ne_some.mpr fun u hu =>
    not_isSome_step h not_isCall_go (isSome_step_of_lock (.inr ((valid.knows u).flight hu)))
  refine ⟨hp, hf, fun flight hm => ?_⟩
  by_contra hd
  have ⟨f, hm⟩ := List.mem_iff_getElem?.mp hm
  have hl := (valid.knows _).made f flight hm rfl (Option.not_isSome_iff_eq_none.mp hd)
  have ⟨e, he, hs⟩ := @exists_step content flight.leader _ (c.threads flight.leader) hp hf
    (fun hi => nomatch hi ▸ hl) (fun _ _ hi => nomatch hi ▸ hl)
  exact not_isSome_step h he hs

-- However the threads are scheduled, each turn brings a call nearer to its end, and where no thread
-- has a turn all calls have returned.
theorem calls_return_under_every_schedule (h : run content es = some c)
    (h' : Threads.run (step content) c es' = some c') {T : Finset Nat}
    (he : ∀ e ∈ es', e.1 ∈ T ∧ ¬e.2.isCall) :
    es'.length + held T RegistryPoint.turns c' ≤ held T RegistryPoint.turns c ∧
      (Blocked content c' → c'.shared.Rests ∧ ∀ t, c'.threads t = .idle) := by
  have owes := (owing_empty.run h).run h'
  have valid := ((valid_empty content).run h).run h'
  refine ⟨Outline.length_add_held_le turns_of_step h' he, fun hb => ?_⟩
  have rests := rests_of_blocked owes hb
  refine ⟨rests, fun t => ?_⟩
  by_contra hi
  have hwait : ∀ hash f, c'.threads t = .wait hash f →
      ((c'.shared.made[f]?).bind (·.done)).isSome := by
    intro hash f hw
    have hk : Knows content t c'.shared (c'.threads t) := valid.knows t
    rw [hw] at hk
    have ⟨flight, hm, _⟩ := hk
    rw [hm]
    exact rests.made flight (List.mem_of_getElem? hm)
  have ⟨e, he, hs⟩ := @exists_step content t _ _ rests.publish rests.flight hi hwait
  exact not_isSome_step hb he hs

-- The second caller waits for the first one, which publishes what it has compiled.
theorem calls_return_in_sharedFlight : ∃ c c',
    run (fun _ => 1#256) (sharedFlight.take 12) = some c ∧
    Threads.run (step fun _ => 1#256) c (sharedFlight.drop 12) = some c' ∧
      8 + held {0, 1} RegistryPoint.turns c' ≤ held {0, 1} RegistryPoint.turns c := by
  have hrun : (run (fun _ => 1#256) sharedFlight).isSome := by decide +kernel
  have ⟨c', h⟩ := Option.isSome_iff_exists.mp hrun
  rw [← List.take_append_drop 12 sharedFlight, run, Threads.run, List.foldlM_append] at h
  have ⟨c, h₁, h₂⟩ := Option.bind_eq_some_iff.mp h
  refine ⟨c, c', h₁, h₂, ?_⟩
  exact (@calls_return_under_every_schedule (fun _ => 1#256) c c' (sharedFlight.take 12)
    (sharedFlight.drop 12) h₁ h₂ {0, 1} (by decide)).1

end Registry
end NornRune
