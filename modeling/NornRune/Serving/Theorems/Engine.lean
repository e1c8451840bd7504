import NornRune.Publication.Theorems.Success
import NornRune.Serving.Engine

open Threads

namespace NornRune
namespace Engine

open PolicyPublisher (Prepared Promises PublishTurn)

section Invariant

variable (heap : Nat → FrozenProgram) (t : Nat) (s : Engine)

-- What holds of an engine at all times. Each program of the registry has a version on record, or a thread
-- is going to record it.
structure Sound : Prop where
  publisher : s.publisher.Sound heap none
  versions : ∀ hash c, s.publisher.registry.lookup hash = some c →
    0 < s.versions hash ∨ ∃ t, (t, hash) ∈ s.pending
  served : .evaluated (.error .unversioned) ∉ s.trace

def Owes (hash : ContentHash) : EnginePoint → Prop
  | .publish p => Promises hash p
  | .writeLock _ v | .write _ v => v.contentHash = hash
  | _ => False

def Relies : EnginePoint → Prop
  | .publish p => s.publisher.Knows heap t p ∧ Prepared heap p ∧ p ≠ .idle
  | .writeLock _ v | .write _ v => 0 < v.id
  | .readLock c | .read c => s.publisher.registry.lookup (heap c).contentHash = some c
  | .readUnlock _ version => 0 < version
  | _ => True

structure Knows (p : EnginePoint) : Prop where
  relies : Relies heap t s p
  owes : ∀ hash, (t, hash) ∈ s.pending → Owes hash p

structure Effect (s' : Engine) : Prop where
  publisher : s.publisher.Effect t s'.publisher
  pending : ∀ u hash, u ≠ t → (u, hash) ∈ s'.pending → (u, hash) ∈ s.pending

structure Good (s' : Engine) (p' : EnginePoint) : Prop where
  effect : Effect t s s'
  sound : Sound heap s'
  knows : Knows heap t s' p'

end Invariant

variable {sha256 : List Byte → ContentHash} {heap : Nat → FrozenProgram} {compilerVersion : List Byte}
  {maxPolicyBytes : Nat} {t u : Nat} {s s' : Engine} {p p' : EnginePoint}

theorem Knows.stable (e : Effect t s s') (hu : u ≠ t) (h : Knows heap u s p) : Knows heap u s' p where
  relies := by
    have hr := h.relies
    cases p
    case publish => exact ⟨hr.1.stable e.publisher hu, hr.2⟩
    case readLock => exact e.publisher.registry.lookup _ _ hr
    case read => exact e.publisher.registry.lookup _ _ hr
    all_goals exact hr
  owes hash hm := h.owes hash (e.pending u hash hu hm)

theorem Effect.same (hp : s'.publisher = s.publisher) (hq : s'.pending = s.pending) : Effect t s s' :=
  ⟨hp ▸ .move (.refl t _), fun _ _ _ h => hq ▸ h⟩

theorem Good.plain (h : Sound heap s) (hp : s'.publisher = s.publisher) (hq : s'.pending = s.pending)
    (hv : s'.versions = s.versions)
    (ht : s'.trace = s.trace ∨ ∃ e, e ≠ .evaluated (.error .unversioned) ∧ s'.trace = s.trace ++ [e])
    (hk : Knows heap t s' p') : Good heap t s s' p' where
  effect := .same hp hq
  sound := by
    refine ⟨hp ▸ h.publisher, fun hash c hc => ?_, ?_⟩
    case refine_1 =>
      rw [hp] at hc
      rw [hv, hq]
      exact h.versions hash c hc
    case refine_2 =>
      rcases ht with ht | ⟨e, he, ht⟩
      case inl => exact ht ▸ h.served
      case inr =>
        rw [ht]
        intro hm
        rcases List.mem_append.mp hm with hm | hm
        · exact h.served hm
        · exact he (List.mem_singleton.mp hm).symm
  knows := hk

section Publish

variable {q q' : PublisherPoint} {r : PolicyPublisher}

-- A turn in the publisher. What is put into the registry is owed, and what is owed is recorded when the
-- publisher has returned.
theorem good_resume (h : Sound heap s) (hk : ∀ hash, (t, hash) ∈ s.pending → Promises hash q)
    (hp : Prepared heap q) (hg : PolicyPublisher.Good heap none t s.publisher r q')
    (turn : PublishTurn heap s.publisher q r q') (hs : (s.owe heap t q).resume (r, q') = some (s', p')) :
    Good heap t s s' p' := by
  let s₁ : Engine := { s.owe heap t q with publisher := r }
  have mem : ∀ {u hash}, (u, hash) ∈ s₁.pending → (u, hash) ∈ s.pending ∨
      u = t ∧ ∃ c, q.storing = some c ∧ (heap c).contentHash = hash := fun {u hash} hm => by
    rcases List.mem_append.mp hm with hm | hm
    case inl => exact .inl hm
    case inr =>
      have ⟨c, hc, he⟩ := Option.map_eq_some_iff.mp (Option.mem_toList.mp hm)
      exact .inr ⟨(congrArg Prod.fst he).symm, c, hc, congrArg Prod.snd he⟩
  have effect : Effect t s s₁ := ⟨hg.effect, fun u hash hu hm =>
    (mem hm).elim id fun ⟨he, _⟩ => absurd he hu⟩
  have sound : Sound heap s₁ := by
    refine ⟨hg.sound, fun hash c hc => ?_, h.served⟩
    rcases turn.found hash c hc with hc | ⟨hq, hh⟩
    case inl => exact (h.versions hash c hc).imp_right fun ⟨u, hu⟩ => ⟨u, List.mem_append_left _ hu⟩
    case inr =>
      refine .inr ⟨t, List.mem_append_right _ ?_⟩
      rw [hq, ← hh]
      exact List.mem_singleton_self _
  -- A thread that returns from the publisher has put nothing into the registry in the same turn.
  have idle : q' = .idle → ∀ hash, (t, hash) ∈ s₁.pending → Promises hash q := fun hi hash hm => by
    rcases mem hm with hm | ⟨_, c, hc, _⟩
    case inl => exact hk hash hm
    case inr => cases hi ▸ turn.stored c hc
  simp only [resume] at hs
  split at hs
  case isTrue hi =>
    have ⟨call, result, hlast, hcase⟩ := turn.returned hi
    rw [hlast] at hs
    cases result
    case ok pair =>
      have ⟨compiled, v⟩ := pair
      cases hs
      rcases hcase with rfl | ⟨⟨_, he⟩, _⟩
      case inl => exact ⟨effect, sound, (hp _ _ rfl).id, fun hash hm => idle hi hash hm⟩
      case inr => cases he
    case error pair =>
      cases hs
      have free : ∀ hash, ¬Promises hash q := by
        rcases hcase with rfl | ⟨_, hn⟩
        · exact fun _ => id
        · exact hn
      refine ⟨⟨effect.publisher, effect.pending⟩, ⟨sound.publisher, sound.versions, fun hm => ?_⟩, trivial,
        fun hash hm => absurd (idle hi hash hm) (free hash)⟩
      rcases List.mem_append.mp hm with hm | hm
      · exact sound.served hm
      · cases List.mem_singleton.mp hm
  case isFalse hn =>
    cases hs
    refine ⟨effect, sound, ⟨hg.knows, turn.prepared, hn⟩, fun hash hm => ?_⟩
    rcases mem hm with hm | ⟨_, c, hc, hh⟩
    case inl => exact turn.promised hash (hk hash hm) hn
    case inr => exact hh ▸ turn.stored c hc

end Publish

theorem good_write (h : Sound heap s) {v : PolicyVersion} (hv : 0 < v.id)
    (hk : ∀ hash, (t, hash) ∈ s.pending → v.contentHash = hash) (compiled : Nat) :
    Good heap t s { s with
      versions := Function.update s.versions v.contentHash v.id
      pending := s.pending.filter (·.1 != t) } (.writeUnlock compiled) where
  effect := ⟨.move (.refl t _), fun _ _ _ hm => (List.mem_filter.mp hm).1⟩
  sound := by
    refine ⟨h.publisher, fun hash c hc => ?_, h.served⟩
    simp only
    by_cases he : hash = v.contentHash
    case pos =>
      rw [he, Function.update_self]
      exact .inl hv
    case neg =>
      rw [Function.update_of_ne he]
      refine (h.versions hash c hc).imp_right fun ⟨u, hu⟩ => ⟨u, List.mem_filter.mpr ⟨hu, ?_⟩⟩
      rw [bne_iff_ne]
      rintro rfl
      exact he (hk hash hu).symm
  knows := by
    refine ⟨trivial, fun hash hm => ?_⟩
    have hn := (List.mem_filter.mp hm).2
    rw [bne_self_eq_false] at hn
    cases hn

theorem good_start {error : Option Nat} {c : EngineCall} (h : Sound heap s) (hk : Knows heap t s .idle)
    (hs : s.start sha256 heap compilerVersion maxPolicyBytes t error c = some (s', p')) :
    Good heap t s s' p' := by
  have free : ∀ hash, (t, hash) ∉ s.pending := hk.owes
  have log : ∀ {e}, e ≠ .evaluated (.error .unversioned) → Good heap t s (s.log e) .idle := fun {e} he =>
    .plain h rfl rfl rfl (.inr ⟨e, he, rfl⟩) ⟨trivial, free⟩
  have go : ∀ {p'}, Relies heap t s p' → Good heap t s s p' := fun hr =>
    .plain h rfl rfl rfl (.inl rfl) ⟨hr, fun hash hm => absurd hm (free hash)⟩
  revert hs
  fun_cases start sha256 heap compilerVersion maxPolicyBytes s t error c
  all_goals intro hs
  case case2 =>
    have ⟨⟨r, q'⟩, hstep, hs⟩ := Option.bind_eq_some_iff.mp hs
    have hi : s.publisher.Knows heap t .idle := trivial
    have owe : s.owe heap t .idle = s := by
      simp only [owe, PublisherPoint.storing, Option.map_none, Option.toList_none, List.append_nil]
    refine good_resume (q := .idle) h (fun hash hm => absurd hm (free hash)) trivial
      (PolicyPublisher.good_step h.publisher hi hstep)
      (PolicyPublisher.publishTurn_of_step hi trivial rfl hstep) (owe.symm ▸ hs)
  all_goals cases hs
  case case5 | case8 | case9 => exact go trivial
  all_goals exact log nofun

theorem good_step {e : EngineEvent} (h : Sound heap s) (hk : Knows heap t s p) (hr : recorded heap t s p e)
    (hs : step sha256 heap compilerVersion maxPolicyBytes t s p e = some (s', p')) : Good heap t s s' p' := by
  have log : ∀ {s' : Engine} {e}, s'.publisher = s.publisher → s'.pending = s.pending →
      s'.versions = s.versions → s'.trace = s.trace → e ≠ .evaluated (.error .unversioned) →
      (∀ hash, (t, hash) ∉ s.pending) → Good heap t s (s'.log e) .idle :=
    fun {s' e} hp hq hv ht he free =>
      .plain h hp hq hv (.inr ⟨e, he, congrArg (· ++ [e]) ht⟩)
        ⟨trivial, fun hash hm => free hash (hq ▸ hm)⟩
  revert hs
  fun_cases step sha256 heap compilerVersion maxPolicyBytes t s p e
  all_goals intro hs
  case case1 => exact good_start h hk hs
  case case2 q e =>
    have ⟨⟨r, q'⟩, hstep, hs⟩ := Option.bind_eq_some_iff.mp hs
    have ⟨hq, hprep, hn⟩ := hk.relies
    have he := PolicyPublisher.publishes_of_step hprep hn hstep
    exact good_resume h hk.owes hprep (PolicyPublisher.good_step h.publisher hq hstep)
      (PolicyPublisher.publishTurn_of_step hq hprep he hstep) hs
  case case16 hv => exact absurd hk.relies (Int.not_lt.mpr hv)
  all_goals cases hs
  case case5 compiled v => exact good_write h hk.relies hk.owes compiled
  case case10 c hc => exact .plain h rfl rfl rfl (.inl rfl) ⟨h.publisher.registry.active c hc, hk.owes⟩
  case case12 hash c hc =>
    have hh : (heap c).contentHash = hash := h.publisher.registry.keys hash c hc
    have hc : s.publisher.registry.lookup (heap c).contentHash = some c := hh ▸ hc
    exact .plain h rfl rfl rfl (.inl rfl) ⟨hc, hk.owes⟩
  case case15 c =>
    refine .plain h rfl rfl rfl (.inl rfl) ⟨?_, hk.owes⟩
    rcases h.versions _ _ hk.relies with hv | ⟨u, hu⟩
    case inl => exact hv
    case inr =>
      have hne := List.all_eq_true.mp hr _ hu
      rw [bne_self_eq_false] at hne
      cases hne
  case case4 | case14 => exact .plain h rfl rfl rfl (.inl rfl) ⟨hk.relies, hk.owes⟩
  all_goals exact log rfl rfl rfl rfl nofun hk.owes

def outline (sha256 : List Byte → ContentHash) (heap : Nat → FrozenProgram) (compilerVersion : List Byte)
    (maxPolicyBytes : Nat) :
    Outline (guarded (step sha256 heap compilerVersion maxPolicyBytes) (recorded heap)) where
  Holds := Sound heap
  Knows := Knows heap
  step h hk hs :=
    have ⟨hr, hs⟩ := guarded_eq_some.mp hs
    have good := good_step h hk hr hs
    ⟨good.sound, good.knows⟩
  stable h hk hs hu hku :=
    have ⟨hr, hs⟩ := guarded_eq_some.mp hs
    hku.stable (good_step h hk hr hs).effect hu

theorem valid_new : (outline sha256 heap compilerVersion maxPolicyBytes).Valid new where
  holds := ⟨PolicyPublisher.sound_new (Registry.valid_empty _).holds, nofun, nofun⟩
  knows _ := ⟨trivial, nofun⟩

-- In every interleaving in which no version is read between the publication of its program and its record,
-- no evaluation is refused because the version of its program is not on record.
theorem evaluations_find_versions (sha256 : List Byte → ContentHash) (heap : Nat → FrozenProgram)
    (compilerVersion : List Byte) (maxPolicyBytes : Nat) {es : List (Nat × EngineEvent)}
    {c : Config Engine EnginePoint}
    (h : Threads.run (guarded (step sha256 heap compilerVersion maxPolicyBytes) (recorded heap)) new es = some c) :
    .evaluated (.error .unversioned) ∉ c.shared.trace :=
  have valid : (outline sha256 heap compilerVersion maxPolicyBytes).Valid c := valid_new.run h
  valid.holds.served

section Example

def twoSources (source : List Byte) : ContentHash :=
  if source = [1#8] then 1#256 else 2#256

def twoPrograms (c : Nat) : FrozenProgram where
  program := Scheduler.definedField
  contentHash := if c = 1 then 1#256 else 2#256
  inputBytes := if c = 1 then [1#8] else [2#8]

def publication (t c : Nat) : List (Nat × EngineEvent) :=
  let p := twoPrograms c
  let v : PolicyVersion := ⟨bytes "flag", bytes "flag", bytes "v", 1, p.inputBytes, p.contentHash, 1, c⟩
  [(t, .call (.compilePolicy true p.inputBytes) none), (t, .publisher (.compiled (some c) none)),
    (t, .publisher .go), (t, .publisher (.context none)), (t, .publisher (.stored (.ok v)))] ++
    List.replicate 9 (t, .publisher .go)

def evaluation (t : Nat) : List (Nat × EngineEvent) :=
  (t, .call (.evaluateBatch true [1#8] [1#8] none) none) :: List.replicate 4 (t, .go)

-- The second policy is active and is not on record yet when the evaluation starts.
theorem active_policy_refused :
    ∃ c, Threads.run (step twoSources twoPrograms (bytes "v") 1) new
        (publication 0 1 ++ List.replicate 3 (0, .go) ++ publication 1 2 ++ evaluation 2) = some c ∧
      c.shared.publisher.registry.active = some 2 ∧
      c.shared.trace = [.compiled (policyMetadata twoPrograms 1), .evaluated (.error .unversioned)] ∧
      (policyMetadata twoPrograms 1).toOption.isSome := by
  have hrun : (Threads.run (step twoSources twoPrograms (bytes "v") 1) new
      (publication 0 1 ++ List.replicate 3 (0, .go) ++ publication 1 2 ++ evaluation 2)).map
        (fun c => (c.shared.publisher.registry.active, c.shared.trace)) =
      some (some 2, [.compiled (policyMetadata twoPrograms 1), .evaluated (.error .unversioned)]) := by
    decide +kernel
  have ⟨c, hc, he⟩ := Option.map_eq_some_iff.mp hrun
  have ⟨hactive, htrace⟩ := Prod.mk.inj he
  exact ⟨c, hc, hactive, htrace, rfl⟩

-- The evaluation starts when the policy is on record.
theorem evaluations_find_versions_recorded :
    ∃ c, Threads.run (guarded (step twoSources twoPrograms (bytes "v") 1) (recorded twoPrograms)) new
        (publication 0 1 ++ List.replicate 3 (0, .go) ++ evaluation 1) = some c ∧
      .evaluated (.ok (1, 1)) ∈ c.shared.trace ∧ .evaluated (.error .unversioned) ∉ c.shared.trace := by
  have hrun : (Threads.run (guarded (step twoSources twoPrograms (bytes "v") 1) (recorded twoPrograms)) new
      (publication 0 1 ++ List.replicate 3 (0, .go) ++ evaluation 1)).map (·.shared.trace) =
      some [.compiled (policyMetadata twoPrograms 1), .evaluated (.ok (1, 1))] := by
    decide +kernel
  have ⟨c, hc, he⟩ := Option.map_eq_some_iff.mp hrun
  exact ⟨c, hc, he ▸ List.mem_cons_of_mem _ (List.mem_singleton_self _),
    evaluations_find_versions twoSources twoPrograms (bytes "v") 1 hc⟩

end Example
end Engine
end NornRune
