import NornRune.Publication.Theorems.Publisher

open Checked

-- A publication that has put its own program into the registry succeeds: the program was compared with the
-- durable version before, and it stays where it is.
namespace NornRune

variable {sha256 : List Byte → ContentHash} {heap : Nat → FrozenProgram} {compilerVersion : List Byte}

structure PolicyVersion.Durable (v : PolicyVersion) : Prop where
  id : 0 < v.id
  hash : validRegistryHash v.contentHash

structure PolicyCandidate.Fits (heap : Nat → FrozenProgram) (c : PolicyCandidate) : Prop where
  contentHash : (heap c.program).contentHash = c.contentHash
  inputBytes : (heap c.program).inputBytes = c.source
  name : (heap c.program).name = some c.name
  version : (heap c.program).version = some c.semanticVersion

variable {c : PolicyCandidate} {v : PolicyVersion}

theorem fits_of_validateCandidate (h : validateCandidate sha256 heap c = .ok ()) :
    c.Fits heap := by
  unfold validateCandidate at h
  have ⟨_, h⟩ := of_guard h
  have ⟨hid, h⟩ := of_guard h
  have ⟨hmeta, _⟩ := of_guard h
  simp only [not_or, ne_eq, not_not] at hid hmeta
  exact ⟨hid.1, hid.2, hmeta.1, hmeta.2⟩

theorem fits_of_candidateFromProgram {compiled : Option Nat} {source : List Byte}
    (h : candidateFromProgram sha256 heap compiled source compilerVersion = .ok c) :
    c.Fits heap := by
  unfold candidateFromProgram at h
  split at h
  case h_1 => cases h
  case h_2 =>
    have ⟨_, h⟩ := of_guard h
    split at h
    case h_1 =>
      simp only at h
      split at h
      case h_1 => cases h
      case h_2 hv =>
        cases h
        exact fits_of_validateCandidate hv
    case h_2 => cases h

theorem durable_of_validatePolicyVersion (h : validatePolicyVersion sha256 v = .ok ()) :
    v.Durable := by
  unfold validatePolicyVersion at h
  have ⟨hn, _⟩ := of_guard h
  simp only [validPolicyMetadata, not_or, Bool.not_eq_true, Bool.not_eq_false', Bool.and_eq_true] at hn
  exact ⟨Int.not_le.mp hn.2.1, hn.2.2.2.1.2⟩

theorem matches_of_validateStoredCandidate (hc : c.Fits heap)
    (h : validateStoredCandidate sha256 v c = .ok ()) : (heap c.program).Matches v ∧ v.Durable := by
  unfold validateStoredCandidate at h
  split at h
  case h_1 => cases h
  case h_2 hv =>
    have ⟨hn, _⟩ := of_guard h
    simp only [not_or, ne_eq, not_not] at hn
    have ⟨hname, hversion, hhash, hsource⟩ := hn
    refine ⟨⟨?_, ?_, ?_, ?_⟩, durable_of_validatePolicyVersion hv⟩
    · rw [hhash, hc.contentHash]
    · rw [hsource, hc.inputBytes]
    · rw [hname, hc.name]
    · rw [hversion, hc.version]

namespace PolicyPublisher

def Ready (heap : Nat → FrozenProgram) : RegistryWork → Prop
  | .publish compiled v => (heap compiled).Matches v ∧ v.Durable
  | .load _ => False
  | .activate v _ => v.Durable

def Prepared (heap : Nat → FrozenProgram) : PublisherPoint → Prop
  | .idle | .compile _ _ => True
  | .lock _ work | .recheck _ work | .store _ work => ∃ c, work = .publishActive c ∧ c.Fits heap
  | .enter _ work | .registry _ work _ => Ready heap work
  | .unlock _ result => ∀ program v, result = .ok (program, v) → v.Durable
  | .outside _ => False

def Promises (hash : ContentHash) : PublisherPoint → Prop
  | .registry _ (.publish compiled v) (.publishUnlock _ _ result) => result = .ok compiled ∧ v.contentHash = hash
  | .enter _ (.activate v _) | .registry _ (.activate v _) _ => v.contentHash = hash
  | .unlock _ (.ok (_, v)) => v.contentHash = hash
  | _ => False

def publishes : PublisherEvent → Bool
  | .call (.publish _ _) _ | .context _ | .compiled _ _ | .stored _ | .go => true
  | _ => false

variable {t : Nat} {s s' : PolicyPublisher} {call : Nat} {work : RegistryWork}
  {p p' : PublisherPoint} {e : PublisherEvent} {v : PolicyVersion} {next : Registry × RegistryPoint}
  {canonical : Nat} {q : RegistryPoint}

theorem prepared_checkCanonical (hv : v.Durable) (canonical : Nat) :
    Prepared heap (checkCanonical heap v canonical call) := by
  unfold checkCanonical
  split
  case h_1 => exact nofun
  case h_2 => exact hv

theorem prepared_resume (hw : Ready heap work) (hs : s.resume heap call work next = some (s', p')) :
    Prepared heap p' ∧ p' ≠ .idle := by
  unfold resume at hs
  split at hs
  case isTrue =>
    unfold endRegistry at hs
    split at hs
    case h_1 =>
      cases hs
      refine ⟨prepared_checkCanonical hw.2 _, ?_⟩
      unfold checkCanonical
      split <;> nofun
    case h_3 => cases hw
    case h_4 => cases hw
    case h_5 v canonical _ =>
      cases hs
      refine ⟨fun p v' he => ?_, nofun⟩
      cases he
      exact hw
    case h_7 => cases hs
    all_goals
      cases hs
      exact ⟨nofun, nofun⟩
  case isFalse =>
    cases hs
    exact ⟨hw, nofun⟩

structure PublishTurn (heap : Nat → FrozenProgram) (s : PolicyPublisher) (p : PublisherPoint) (s' : PolicyPublisher)
    (p' : PublisherPoint) : Prop where
  prepared : Prepared heap p'
  found : ∀ hash c, s'.registry.lookup hash = some c →
    s.registry.lookup hash = some c ∨ p.storing = some c ∧ (heap c).contentHash = hash
  stored : ∀ c, p.storing = some c → Promises (heap c).contentHash p'
  promised : ∀ hash, Promises hash p → p' ≠ .idle → Promises hash p'
  returned : p' = .idle → ∃ call result, s'.trace.getLast? = some (.returned call result) ∧
    (p = .unlock call result ∨ (∃ err, result = .error err) ∧ ∀ hash, ¬Promises hash p)

theorem PublishTurn.plain (hr : s'.registry = s.registry) (hp : ∀ hash, ¬Promises hash p)
    (hs : p.storing = none) (prepared : Prepared heap p') (hn : p' ≠ .idle) : PublishTurn heap s p s' p' where
  prepared := prepared
  found hash c hc := .inl (hr ▸ hc)
  stored c hc := by rw [hs] at hc; cases hc
  promised hash h _ := absurd h (hp hash)
  returned h := absurd h hn

theorem publishTurn_fail (calls : List Nat) (hp : ∀ hash, ¬Promises hash p) (hs : p.storing = none)
    (err : PolicyError) : PublishTurn heap s p ({ s with calls }.fail call err).1
      ({ s with calls }.fail call err).2 where
  prepared := trivial
  found hash c hc := .inl hc
  stored c hc := by rw [hs] at hc; cases hc
  promised hash h _ := absurd h (hp hash)
  returned _ := ⟨call, _, List.getLast?_concat, .inr ⟨⟨_, rfl⟩, hp⟩⟩

theorem publishTurn_start (ctx : Bool) (source : List Byte) (error : Option Nat) :
    PublishTurn heap s .idle (s.start t (.publish ctx source) error).1
      (s.start t (.publish ctx source) error).2 := by
  unfold start
  simp only
  split
  · exact publishTurn_fail _ (fun _ => id) rfl _
  · split
    · exact publishTurn_fail _ (fun _ => id) rfl _
    · exact .plain rfl (fun _ => id) rfl trivial nofun

theorem publishTurn_endCompile (sha256 : List Byte → ContentHash) (compilerVersion source : List Byte) (program error : Option Nat) :
    PublishTurn heap s (.compile call source) (s.endCompile sha256 heap compilerVersion call source program error).1
      (s.endCompile sha256 heap compilerVersion call source program error).2 := by
  unfold endCompile
  split
  · exact publishTurn_fail s.calls (fun _ => id) rfl _
  · split
    · exact publishTurn_fail s.calls (fun _ => id) rfl _
    · exact .plain rfl (fun _ => id) rfl ⟨_, rfl, fits_of_candidateFromProgram ‹_›⟩ nofun

theorem publishTurn_endStore (sha256 : List Byte → ContentHash) {c : PolicyCandidate} (hc : c.Fits heap) (answer : Except Nat PolicyVersion) :
    PublishTurn heap s (.store call (.publishActive c)) (s.endStore sha256 call (.publishActive c) answer).1
      (s.endStore sha256 call (.publishActive c) answer).2 := by
  unfold endStore
  split
  · exact .plain rfl (fun _ => id) rfl nofun nofun
  · split
    case h_1 => exact .plain rfl (fun _ => id) rfl nofun nofun
    case h_2 v _ work hw =>
      simp only [checkStored] at hw
      split at hw
      case h_1 => cases hw
      case h_2 hv =>
        cases hw
        exact .plain rfl (fun _ => id) rfl (matches_of_validateStoredCandidate hc hv) nofun

theorem resume_registry (hs : s.resume heap call work next = some (s', p')) :
    s'.registry = next.1 := by
  unfold resume at hs
  split at hs
  case isTrue =>
    unfold endRegistry at hs
    split at hs
    case h_7 => cases hs
    all_goals
      cases hs
      rfl
  case isFalse =>
    cases hs
    rfl

theorem publishTurn_resume (hw : Ready heap work)
    (hs : s.resume heap call work next = some (s', p'))
    (found : ∀ hash c, next.1.lookup hash = some c → s.registry.lookup hash = some c ∨ p.storing = some c ∧ (heap c).contentHash = hash)
    (stored : ∀ c, p.storing = some c → Promises (heap c).contentHash p')
    (promised : ∀ hash, Promises hash p → Promises hash p') : PublishTurn heap s p s' p' where
  prepared := (prepared_resume hw hs).1
  found hash c hc := found hash c (resume_registry hs ▸ hc)
  stored := stored
  promised hash h _ := promised hash h
  returned h := absurd h (prepared_resume hw hs).2

theorem snapshot_start (content : Nat → ContentHash) (r : Registry) (c : RegistryCall) :
    (r.start content c).1.snapshot = r.snapshot := by
  have hs : Registry.step content 0 r .idle (.call c) =
      some ((r.start content c).1, (r.start content c).2) := rfl
  rcases Registry.snapshot_of_step hs with h | ⟨_, _, _, hp, _⟩
  · exact h
  · cases hp

theorem promises_enter (hv : v.Durable)
    (hs : s.resume heap call (.activate v canonical) (s.registry.start (content heap) (.activate v.contentHash)) = some (s', p')) :
    Promises v.contentHash p' := by
  rw [Registry.start, if_pos hv.hash, resume, if_neg (by rintro ⟨⟩)] at hs
  cases hs
  rfl

theorem promises_activate (hq : q.call = some (.activate v.contentHash))
    (hf : s.registry.lookup v.contentHash = some canonical)
    (hstep : Registry.step (content heap) t s.registry q .go = some next)
    (hs : s.resume heap call (.activate v canonical) next = some (s', p')) :
    Promises v.contentHash p' := by
  cases q
  case activateLoad =>
    cases hq
    simp only [Registry.step, hf] at hstep
    cases hstep
    rw [resume, if_neg (by rintro ⟨⟩)] at hs
    cases hs
    rfl
  case activateStore =>
    cases hq
    cases hstep
    rw [resume, if_pos rfl] at hs
    simp only [Registry.log, List.getLast?_concat] at hs
    cases hs
    rfl
  case publishLock publisher _ => cases publisher <;> cases hq
  case publishLoad publisher _ => cases publisher <;> cases hq
  case publishStore publisher _ _ => cases publisher <;> cases hq
  case publishUnlock publisher _ _ => cases publisher <;> cases hq
  all_goals cases hq

theorem promises_publish {compiled : Nat} (hm : (heap compiled).Matches v)
    (hq : q.call = some (.publish (some compiled)))
    (hstep : Registry.step (content heap) t s.registry q .go = some next)
    (hs : s.resume heap call (.publish compiled v) next = some (s', p')) {hash : ContentHash}
    (h : Promises hash (.registry call (.publish compiled v) q)) : Promises hash p' := by
  cases q
  case publishUnlock publisher c result =>
    obtain ⟨rfl, rfl⟩ := h
    cases publisher
    case caller =>
      cases hstep
      simp only [resume, Registry.endPublish, Registry.log, if_true, List.getLast?_concat] at hs
      cases hs
      rw [checkCanonical, validateProgramVersion_eq_ok.mpr hm]
      rfl
    case leader => cases hq
  all_goals cases h

theorem promises_store (hw : Ready heap work) (hq : q.call = some work.call) {c : Nat}
    (hc : (PublisherPoint.registry call work q).storing = some c)
    (hstep : Registry.step (content heap) t s.registry q .go = some next)
    (hs : s.resume heap call work next = some (s', p')) : Promises (heap c).contentHash p' := by
  cases q
  case publishStore publisher c' current =>
    cases hc
    cases publisher
    case caller =>
      cases work
      case publish compiled v =>
        cases hq
        cases hstep
        simp only [resume, reduceCtorEq, if_false] at hs
        cases hs
        exact ⟨rfl, hw.1.contentHash.symm⟩
      all_goals cases hq
    case leader =>
      cases work
      case load => cases hw
      all_goals cases hq
  all_goals cases hc

theorem publishTurn_of_step (hk : Knows heap t s p) (hp : Prepared heap p) (he : publishes e)
    (hs : step sha256 heap compilerVersion t s p e = some (s', p')) :
    PublishTurn heap s p s' p' := by
  unfold step at hs
  split at hs
  case h_1 c error =>
    cases c
    case publish ctx source =>
      have turn : PublishTurn heap s .idle _ _ := publishTurn_start (t := t) ctx source error
      rwa [Option.some.inj hs] at turn
    all_goals cases he
  case h_2 call source program error =>
    have turn : PublishTurn heap s (.compile call source) _ _ :=
      publishTurn_endCompile sha256 compilerVersion source program error
    rwa [Option.some.inj hs] at turn
  case h_3 =>
    obtain ⟨_, hs⟩ := Option.ite_none_left_eq_some.mp hs
    cases hs
    exact .plain rfl (fun _ => id) rfl hp (by rintro ⟨⟩)
  case h_4 =>
    split at hs
    case h_1 =>
      cases hs
      exact .plain rfl (fun _ => id) rfl (by rintro _ _ ⟨⟩) (by rintro ⟨⟩)
    case h_2 =>
      cases hs
      exact .plain rfl (fun _ => id) rfl hp (by rintro ⟨⟩)
  case h_5 call work answer =>
    obtain ⟨c, rfl, hc⟩ := hp
    have turn : PublishTurn heap s (.store call (.publishActive c)) _ _ := publishTurn_endStore sha256 hc answer
    rwa [Option.some.inj hs] at turn
  case h_6 call work =>
    refine publishTurn_resume hp hs (fun hash c hc => .inl ?_) (by rintro _ ⟨⟩) fun hash hpr => ?_
    case refine_1 =>
      rw [Registry.lookup, snapshot_start] at hc
      exact hc
    case refine_2 =>
      cases work
      case activate =>
        cases hpr
        exact promises_enter hp hs
      all_goals cases hpr
  case h_7 call work q =>
    obtain ⟨next, hstep, hnext⟩ := Option.bind_eq_some_iff.mp hs
    obtain ⟨hw, hq, hcall⟩ := hk
    refine publishTurn_resume hp hnext (fun hash c hc => ?_) (fun c hc => ?_) fun hash hpr => ?_
    case refine_1 =>
      rcases Registry.lookup_of_step hstep hq hc with hc | ⟨hh, publisher, current, rfl⟩
      · exact .inl hc
      · exact .inr ⟨rfl, hh⟩
    case refine_2 =>
      exact promises_store hp hcall hc hstep hnext
    case refine_3 =>
      cases work
      case publish => exact promises_publish hp.1 hcall hstep hnext hpr
      case load => cases hpr
      case activate v canonical =>
        obtain rfl : v.contentHash = hash := hpr
        exact promises_activate hcall (hw.canonical v canonical rfl).found hstep hnext
  case h_8 => cases hp
  case h_9 call result =>
    cases hs
    exact ⟨trivial, fun _ _ hc => .inl hc, (by rintro _ ⟨⟩), fun _ _ hn => absurd rfl hn,
      fun _ => ⟨call, result, List.getLast?_concat, .inl rfl⟩⟩
  case h_10 => cases he
  case h_11 => cases he
  case h_12 => cases hs

theorem publishes_of_step (hp : Prepared heap p) (hn : p ≠ .idle)
    (hs : step sha256 heap compilerVersion t s p e = some (s', p')) : publishes e := by
  cases e
  case call =>
    cases p
    case idle => exact absurd rfl hn
    all_goals cases hs
  case registry =>
    cases p
    case idle => exact absurd rfl hn
    case outside => cases hp
    all_goals cases hs
  all_goals rfl

end PolicyPublisher
end NornRune
