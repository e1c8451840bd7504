import NornRune.Publication.Publisher
import NornRune.Publication.Theorems.Registry
import NornRune.Scheduling.Theorems.Partition

open Checked Threads

namespace NornRune

structure FrozenProgram.Matches (p : FrozenProgram) (v : PolicyVersion) : Prop where
  contentHash : p.contentHash = v.contentHash
  inputBytes : p.inputBytes = v.source
  name : p.name = some v.name
  version : p.version = some v.semanticVersion

theorem validateProgramVersion_eq_ok {heap : Nat → FrozenProgram} {p : Nat} {v : PolicyVersion} :
    validateProgramVersion heap (some p) v = .ok () ↔ (heap p).Matches v := by
  simp only [validateProgramVersion]
  constructor
  case mp =>
    intro h
    have ⟨hid, h⟩ := of_guard h
    have ⟨hmeta, _⟩ := of_guard h
    simp only [not_or, ne_eq, not_not] at hid hmeta
    exact ⟨hid.1, hid.2, hmeta.1, hmeta.2⟩
  case mpr => exact fun h => by simp [h.contentHash, h.inputBytes, h.name, h.version]

namespace PublisherEntry

def call : PublisherEntry → Nat
  | .stored call _ | .activated call _ | .returned call _ => call

def storing : PublisherEntry → Option Nat
  | .stored call _ => some call
  | _ => none

def activating : PublisherEntry → Option Nat
  | .activated call _ => some call
  | _ => none

def active : PublisherEntry → Option (Option Nat)
  | .activated _ active => some active
  | _ => none

end PublisherEntry

namespace PolicyPublisher

def stores (s : PolicyPublisher) : List Nat :=
  s.trace.filterMap (·.storing)

def activations (s : PolicyPublisher) : List Nat :=
  s.trace.filterMap (·.activating)

def activeFrom (s : PolicyPublisher) (active : Option Nat) : Option Nat :=
  (s.trace.filterMap (·.active)).getLast?.getD active

-- Before the given place of the trace, the call has got the version from the store, and after that it
-- has activated the program.
def Activates (s : PolicyPublisher) (i : Nat) (call program : Nat) (v : PolicyVersion) : Prop :=
  ∃ k j, k < j ∧ j < i ∧ s.trace[k]? = some (.stored call v) ∧
    s.trace[j]? = some (.activated call (some program))

section Log

variable (s : PolicyPublisher) (call : Nat)

@[simp] theorem log_registry (e : PublisherEntry) : (s.log e).registry = s.registry := rfl
@[simp] theorem log_publish (e : PublisherEntry) : (s.log e).publish = s.publish := rfl
@[simp] theorem log_calls (e : PublisherEntry) : (s.log e).calls = s.calls := rfl
@[simp] theorem log_trace (e : PublisherEntry) : (s.log e).trace = s.trace ++ [e] := rfl

@[simp] theorem stores_log (e : PublisherEntry) : (s.log e).stores = s.stores ++ e.storing.toList := by
  cases e <;> simp [stores, PublisherEntry.storing]

@[simp] theorem activations_log (e : PublisherEntry) :
    (s.log e).activations = s.activations ++ e.activating.toList := by
  cases e <;> simp [activations, PublisherEntry.activating]

theorem activeFrom_log (e : PublisherEntry) (active : Option Nat) :
    (s.log e).activeFrom active = e.active.getD (s.activeFrom active) := by
  cases e <;> simp [activeFrom, PublisherEntry.active]

theorem mem_stores {s : PolicyPublisher} {call : Nat} : call ∈ s.stores ↔ ∃ v, PublisherEntry.stored call v ∈ s.trace := by
  simp only [stores, List.mem_filterMap]
  constructor
  case mp =>
    rintro ⟨e, he, hc⟩
    cases e
    case stored =>
      cases hc
      exact ⟨_, he⟩
    all_goals cases hc
  case mpr => exact fun ⟨v, h⟩ => ⟨_, h, rfl⟩

theorem mem_activations {s : PolicyPublisher} {call : Nat} :
    call ∈ s.activations ↔ ∃ a, PublisherEntry.activated call a ∈ s.trace := by
  simp only [activations, List.mem_filterMap]
  constructor
  case mp =>
    rintro ⟨e, he, hc⟩
    cases e
    case activated =>
      cases hc
      exact ⟨_, he⟩
    all_goals cases hc
  case mpr => exact fun ⟨a, h⟩ => ⟨_, h, rfl⟩

end Log

theorem Activates.mono {s s' : PolicyPublisher} (h : s.trace <+: s'.trace) {i i' : Nat} (hi : i ≤ i')
    {call program : Nat} {v : PolicyVersion} (ha : s.Activates i call program v) :
    s'.Activates i' call program v := by
  have ⟨k, j, hkj, hji, hk, hj⟩ := ha
  exact ⟨k, j, hkj, by omega, Ragged.getElem?_of_prefix h hk, Ragged.getElem?_of_prefix h hj⟩

theorem sublist_concat {α} {l l' : List α} {a : α} (h : l.Sublist l') (hlast : l'.getLast? = some a)
    (ha : a ∉ l) : (l ++ [a]).Sublist l' := by
  obtain ⟨init, rfl⟩ := List.getLast?_eq_some_iff.mp hlast
  obtain ⟨l₁, l₂, rfl, h₁, h₂⟩ := List.sublist_append_iff.mp h
  obtain rfl : l₂ = [] := by
    rcases List.sublist_singleton.mp h₂ with h | h
    · exact h
    · exact absurd (h ▸ List.mem_append_right _ (List.mem_singleton_self a)) ha
  rw [List.append_nil]
  exact h₁.append (List.Sublist.refl _)

section Invariant

variable (heap : Nat → FrozenProgram) (initial : Option Nat) (t : Nat) (s : PolicyPublisher) (call : Nat)

-- A program that was activated for the version is the published one, and it is what the version says.
structure Serves (program : Nat) (v : PolicyVersion) : Prop where
  found : s.registry.lookup v.contentHash = some program
  same : (heap program).Matches v

structure Sound : Prop where
  registry : s.registry.Sound (content heap)
  active : s.registry.active = s.activeFrom initial
  succeeded : ∀ (i : Nat) call program v, s.trace[i]? = some (.returned call (.ok (program, v))) →
    s.Activates i call program v ∧ s.Serves heap program v
  failed : ∀ call e, .returned call (.error e) ∈ s.trace → call ∉ s.activations
  order : s.activations.Sublist s.stores
  distinct : s.stores.Nodup
  made : ∀ e ∈ s.trace, e.call < s.calls.length

structure Owns : Prop where
  made : s.calls[call]? = some t
  live : ∀ result, .returned call result ∉ s.trace

structure Begun : Prop where
  made : s.calls[call]? = some t
  clean : ∀ e ∈ s.trace, e.call ≠ call

structure Works (work : RegistryWork) : Prop extends Owns t s call where
  lock : s.publish = some t
  last : s.stores.getLast? = some call
  stored : .stored call work.version ∈ s.trace
  quiet : call ∉ s.activations
  canonical : ∀ v program, work = .activate v program → s.Serves heap program v

structure Ends (result : Published) : Prop extends Owns t s call where
  lock : s.publish = some t
  ok : ∀ program v, result = .ok (program, v) →
    s.Activates s.trace.length call program v ∧ s.Serves heap program v
  error : ∀ e, result = .error e → call ∉ s.activations

def Knows : PublisherPoint → Prop
  | .idle => True
  | .compile call _ => Begun t s call
  | .lock call _ => Begun t s call
  | .recheck call _ => Begun t s call ∧ s.publish = some t
  | .store call _ => Begun t s call ∧ s.publish = some t
  | .enter call work => Works heap t s call work
  | .registry call work p => Works heap t s call work ∧
    Registry.Knows (content heap) t s.registry p ∧ p.call = some work.call
  | .unlock call result => Ends heap t s call result
  | .outside p => Registry.Knows (content heap) t s.registry p ∧
    ∃ c, p.call = some c ∧ ∀ hash, c ≠ .activate hash

structure Effect (s' : PolicyPublisher) : Prop where
  registry : Registry.Effect t s.registry s'.registry
  calls : s.calls <+: s'.calls
  trace : ∃ new, s'.trace = s.trace ++ new ∧ ∀ e ∈ new, s'.calls[e.call]? = some t
  lock : ∀ u, u ≠ t → s.publish = some u → s'.publish = some u ∧ s'.stores = s.stores

structure Good (s' : PolicyPublisher) (p' : PublisherPoint) : Prop where
  effect : Effect t s s'
  sound : Sound heap initial s'
  knows : Knows heap t s' p'

end Invariant

variable {heap : Nat → FrozenProgram} {initial : Option Nat} {t u : Nat} {s s' : PolicyPublisher}
  {call : Nat} {work : RegistryWork} {result : Published}

theorem Begun.owns (h : Begun t s call) : Owns t s call where
  made := h.made
  live _ hmem := h.clean _ hmem rfl

theorem Begun.quiet (h : Begun t s call) : call ∉ s.activations := by
  intro hm
  have ⟨_, hm⟩ := mem_activations.mp hm
  exact h.clean _ hm rfl

section Stable

variable (e : Effect t s s')
include e

theorem Effect.prefix_trace : s.trace <+: s'.trace :=
  have ⟨new, hn, _⟩ := e.trace
  ⟨new, hn.symm⟩

theorem Effect.mem_trace (hu : u ≠ t) (hc : s.calls[call]? = some u) {entry : PublisherEntry}
    (hm : entry ∈ s'.trace) (he : entry.call = call) : entry ∈ s.trace := by
  have ⟨new, hn, hnew⟩ := e.trace
  rw [hn] at hm
  rcases List.mem_append.mp hm with hm | hm
  case inl => exact hm
  case inr =>
    have ht := hnew entry hm
    rw [he, Ragged.getElem?_of_prefix e.calls hc] at ht
    exact absurd (Option.some.inj ht) hu

theorem Serves.mono {program : Nat} {v : PolicyVersion} (h : s.Serves heap program v) :
    s'.Serves heap program v :=
  ⟨e.registry.lookup _ _ h.found, h.same⟩

variable (hu : u ≠ t)
include hu

theorem Owns.stable (h : Owns u s call) : Owns u s' call where
  made := Ragged.getElem?_of_prefix e.calls h.made
  live result hm := h.live result (e.mem_trace hu h.made hm rfl)

theorem Begun.stable (h : Begun u s call) : Begun u s' call where
  made := Ragged.getElem?_of_prefix e.calls h.made
  clean entry hm he := h.clean entry (e.mem_trace hu h.made hm he) he

theorem Effect.activations (hc : s.calls[call]? = some u) (h : call ∉ s.activations) :
    call ∉ s'.activations := by
  intro hm
  have ⟨a, hm⟩ := mem_activations.mp hm
  exact h (mem_activations.mpr ⟨a, e.mem_trace hu hc hm rfl⟩)

theorem Works.stable (h : Works heap u s call work) : Works heap u s' call work where
  toOwns := h.toOwns.stable e hu
  lock := (e.lock u hu h.lock).1
  last := (e.lock u hu h.lock).2 ▸ h.last
  stored := e.prefix_trace.subset h.stored
  quiet := e.activations hu h.made h.quiet
  canonical v p hw := (h.canonical v p hw).mono e

theorem Ends.stable (h : Ends heap u s call result) : Ends heap u s' call result where
  toOwns := h.toOwns.stable e hu
  lock := (e.lock u hu h.lock).1
  ok p v hr :=
    have ⟨ha, hs⟩ := h.ok p v hr
    ⟨ha.mono e.prefix_trace e.prefix_trace.length_le, hs.mono e⟩
  error er hr := e.activations hu h.made (h.error er hr)

theorem Knows.stable {p : PublisherPoint} (h : Knows heap u s p) : Knows heap u s' p := by
  cases p
  case idle => trivial
  case compile => exact Begun.stable e hu h
  case lock => exact Begun.stable e hu h
  case recheck => exact ⟨Begun.stable e hu h.1, (e.lock u hu h.2).1⟩
  case store => exact ⟨Begun.stable e hu h.1, (e.lock u hu h.2).1⟩
  case enter => exact Works.stable e hu h
  case registry => exact ⟨Works.stable e hu h.1, h.2.1.stable e.registry hu, h.2.2⟩
  case unlock => exact Ends.stable e hu h
  case outside => exact ⟨h.1.stable e.registry hu, h.2⟩

end Stable

section Updates

variable {e : PublisherEntry}

theorem Effect.log (made : s.calls[e.call]? = some t)
    (lock : ∀ u, u ≠ t → s.publish = some u → e.storing = none) : Effect t s (s.log e) where
  registry := .refl t _
  calls := List.prefix_refl _
  trace := ⟨[e], rfl, fun e' he => List.mem_singleton.mp he ▸ made⟩
  lock u hu h := ⟨h, by simp [lock u hu h]⟩

theorem Effect.move {r : Registry} (h : Registry.Effect t s.registry r) :
    Effect t s { s with registry := r } where
  registry := h
  calls := List.prefix_refl _
  trace := ⟨[], (List.append_nil _).symm, nofun⟩
  lock _ _ h := ⟨h, rfl⟩

theorem Effect.trans {s'' : PolicyPublisher} (h : Effect t s s') (h' : Effect t s' s'')
    (hr : Registry.Effect t s.registry s''.registry) : Effect t s s'' where
  registry := hr
  calls := h.calls.trans h'.calls
  trace := by
    have ⟨new, hn, hnew⟩ := h.trace
    have ⟨new', hn', hnew'⟩ := h'.trace
    refine ⟨new ++ new', by rw [hn', hn, List.append_assoc], fun e he => ?_⟩
    rcases List.mem_append.mp he with he | he
    · exact Ragged.getElem?_of_prefix h'.calls (hnew e he)
    · exact hnew' e he
  lock u hu hp :=
    have ⟨hp, hs⟩ := h.lock u hu hp
    have ⟨hp', hs'⟩ := h'.lock u hu hp
    ⟨hp', hs'.trans hs⟩

theorem Sound.move {r : Registry} (h : Sound heap initial s) (he : Registry.Effect t s.registry r)
    (hr : r.Sound (content heap)) (ha : r.active = s.registry.active) :
    Sound heap initial { s with registry := r } :=
  { h with
    registry := hr
    active := ha.trans h.active
    succeeded := fun i call p v hi =>
      have ⟨hact, hs⟩ := h.succeeded i call p v hi
      ⟨hact, hs.mono (Effect.move he)⟩ }

theorem getElem?_log {i : Nat} {e' : PublisherEntry} (hi : (s.log e).trace[i]? = some e') :
    s.trace[i]? = some e' ∨ i = s.trace.length ∧ e = e' := by
  rw [log_trace, List.getElem?_append] at hi
  split at hi
  case isTrue => exact .inl hi
  case isFalse hn =>
    have hlt := (List.getElem?_eq_some_iff.mp hi).1
    rw [List.length_singleton] at hlt
    have hz : i - s.trace.length = 0 := by omega
    rw [hz] at hi
    exact .inr ⟨by omega, Option.some.inj hi⟩

variable (h : Sound heap initial s)
include h

theorem Sound.made_log (made : s.calls[e.call]? = some t) :
    ∀ e' ∈ (s.log e).trace, e'.call < s.calls.length := by
  intro e' hm
  rcases List.mem_append.mp hm with hm | hm
  case inl => exact h.made e' hm
  case inr =>
    rw [List.mem_singleton.mp hm]
    exact (List.getElem?_eq_some_iff.mp made).1

theorem Sound.log_stored (hb : Begun t s call) (v : PolicyVersion) :
    Sound heap initial (s.log (.stored call v)) where
  registry := h.registry
  active := by rw [activeFrom_log]; exact h.active
  succeeded i call' p v' hi := by
    rcases getElem?_log hi with hi | ⟨_, he⟩
    case inl =>
      have ⟨ha, hs⟩ := h.succeeded i call' p v' hi
      exact ⟨ha.mono (List.prefix_append _ _) (Nat.le_refl _), hs.found, hs.same⟩
    case inr => cases he
  failed call' e hm := by
    rw [activations_log]
    rcases List.mem_append.mp hm with hm | hm
    case inl => simpa [PublisherEntry.activating] using h.failed call' e hm
    case inr => cases List.mem_singleton.mp hm
  order := by
    simp only [activations_log, stores_log, PublisherEntry.activating, PublisherEntry.storing,
      Option.toList_none, Option.toList_some, List.append_nil]
    exact h.order.trans (List.sublist_append_left _ _)
  distinct := by
    simp only [stores_log, PublisherEntry.storing, Option.toList_some]
    refine List.nodup_append.mpr ⟨h.distinct, List.nodup_singleton _, fun a ha b hb' => ?_⟩
    rw [List.mem_singleton.mp hb']
    rintro rfl
    have ⟨_, hm⟩ := mem_stores.mp ha
    exact hb.clean _ hm rfl
  made := h.made_log hb.made

theorem Sound.log_activated {r : Registry} (hw : Works heap t s call work)
    (he : Registry.Effect t s.registry r) (hr : r.Sound (content heap)) :
    Sound heap initial ({ s with registry := r }.log (.activated call r.active)) where
  registry := hr
  active := by rw [activeFrom_log]; rfl
  succeeded i call' p v hi := by
    rcases getElem?_log hi with hi | ⟨_, he⟩
    case inl =>
      have ⟨ha, hs⟩ := h.succeeded i call' p v hi
      exact ⟨ha.mono (List.prefix_append _ _) (Nat.le_refl _), he.lookup _ _ hs.found, hs.same⟩
    case inr => cases he
  failed call' e hm := by
    rw [activations_log]
    rcases List.mem_append.mp hm with hm | hm
    case inl =>
      intro hmem
      rcases List.mem_append.mp hmem with hmem | hmem
      case inl => exact h.failed call' e hm hmem
      case inr =>
        rw [List.mem_singleton.mp hmem] at hm
        exact hw.live _ hm
    case inr => cases List.mem_singleton.mp hm
  order := by
    simp only [activations_log, stores_log, PublisherEntry.activating, PublisherEntry.storing,
      Option.toList_none, Option.toList_some, List.append_nil]
    exact sublist_concat h.order hw.last hw.quiet
  distinct := by
    simp only [stores_log, PublisherEntry.storing, Option.toList_none, List.append_nil]
    exact h.distinct
  made := h.made_log hw.made

theorem Sound.log_returned (made : s.calls[call]? = some t)
    (ok : ∀ program v, result = .ok (program, v) → s.Activates s.trace.length call program v ∧ s.Serves heap program v)
    (error : ∀ e, result = .error e → call ∉ s.activations) :
    Sound heap initial (s.log (.returned call result)) where
  registry := h.registry
  active := by rw [activeFrom_log]; exact h.active
  succeeded i call' p v hi := by
    rcases getElem?_log hi with hi | ⟨hlast, he⟩
    case inl =>
      have ⟨ha, hs⟩ := h.succeeded i call' p v hi
      exact ⟨ha.mono (List.prefix_append _ _) (Nat.le_refl _), hs.found, hs.same⟩
    case inr =>
      cases he
      have ⟨ha, hs⟩ := ok p v rfl
      exact ⟨ha.mono (List.prefix_append _ _) (Nat.le_of_eq hlast.symm), hs.found, hs.same⟩
  failed call' e hm := by
    simp only [activations_log, PublisherEntry.activating, Option.toList_none, List.append_nil]
    rcases List.mem_append.mp hm with hm | hm
    case inl => exact h.failed call' e hm
    case inr =>
      cases List.mem_singleton.mp hm
      exact error e rfl
  order := by
    simp only [activations_log, stores_log, PublisherEntry.activating, PublisherEntry.storing,
      Option.toList_none, List.append_nil]
    exact h.order
  distinct := by
    simp only [stores_log, PublisherEntry.storing, Option.toList_none, List.append_nil]
    exact h.distinct
  made := h.made_log made

end Updates

section Turns

variable {p' : PublisherPoint}

theorem Good.stay (h : Sound heap initial s) (hk : Knows heap t s p') : Good heap initial t s s p' where
  effect := .move (.refl t _)
  sound := h
  knows := hk

theorem good_fail (h : Sound heap initial s) (hb : Begun t s call) (e : PolicyError) :
    Good heap initial t s (s.fail call e).1 (s.fail call e).2 where
  effect := .log hb.made fun _ _ _ => rfl
  sound := h.log_returned hb.made nofun fun _ _ => hb.quiet
  knows := trivial

theorem good_start (h : Sound heap initial s) (c : PolicyCall) (error : Option Nat) :
    Good heap initial t s (s.start t c error).1 (s.start t c error).2 := by
  let s₁ : PolicyPublisher := { s with calls := s.calls ++ [t] }
  have begun : Begun t s₁ s.calls.length :=
    ⟨List.getElem?_concat_length, fun e he hc => Nat.lt_irrefl _ (hc ▸ h.made e he)⟩
  have effect : Effect t s s₁ :=
    ⟨.refl t _, List.prefix_append _ _, ⟨[], (List.append_nil _).symm, nofun⟩, fun _ _ h => ⟨h, rfl⟩⟩
  have sound : Sound heap initial s₁ :=
    { h with
      succeeded := fun i call p v hi =>
        have ⟨ha, hs⟩ := h.succeeded i call p v hi
        ⟨ha, hs.mono effect⟩
      made := fun e he => Nat.lt_of_lt_of_le (h.made e he) effect.calls.length_le }
  have good : ∀ {s' p'}, s'.registry = s.registry → Good heap initial t s₁ s' p' →
      Good heap initial t s s' p' := fun hr g =>
    ⟨effect.trans g.effect (hr ▸ .refl t _), g.sound, g.knows⟩
  have fail : ∀ e, Good heap initial t s (s₁.fail s.calls.length e).1 (s₁.fail s.calls.length e).2 :=
    fun e => good rfl (good_fail sound begun e)
  unfold start
  split
  all_goals
    split
    · exact fail _
    · split
      · exact fail _
      · exact good rfl (.stay sound begun)

theorem good_endCompile (sha256 : List Byte → ContentHash) (compilerVersion : List Byte)
    (h : Sound heap initial s) (hb : Begun t s call) (source : List Byte) (program error : Option Nat) :
    Good heap initial t s (s.endCompile sha256 heap compilerVersion call source program error).1
      (s.endCompile sha256 heap compilerVersion call source program error).2 := by
  unfold endCompile
  split
  · exact good_fail h hb _
  · split
    · exact good_fail h hb _
    · exact .stay h hb

theorem Begun.ends (hb : Begun t s call) (hl : s.publish = some t) (e : PolicyError × Option PolicyVersion) :
    Ends heap t s call (.error e) :=
  ⟨hb.owns, hl, nofun, fun _ _ => hb.quiet⟩

theorem Works.ends (hw : Works heap t s call work) (e : PolicyError × Option PolicyVersion) :
    Ends heap t s call (.error e) :=
  ⟨hw.toOwns, hw.lock, nofun, fun _ _ => hw.quiet⟩

theorem version_of_checkStored {sha256 : List Byte → ContentHash} {v : PolicyVersion} {w : PolicyWork}
    (h : checkStored sha256 v w = .ok work) : (∃ c, work = .publish c v) ∨ work = .load v := by
  unfold checkStored at h
  split at h
  case h_1 =>
    split at h
    · cases h
    · cases h
      exact .inl ⟨_, rfl⟩
  all_goals
    split at h
    · cases h
    · have ⟨_, h⟩ := of_guard h
      cases h
      exact .inr rfl

theorem good_endStore (sha256 : List Byte → ContentHash) (h : Sound heap initial s) (hb : Begun t s call)
    (hl : s.publish = some t) (w : PolicyWork) (answer : Except Nat PolicyVersion) :
    Good heap initial t s (s.endStore sha256 call w answer).1 (s.endStore sha256 call w answer).2 := by
  unfold endStore
  split
  case h_1 => exact .stay h (hb.ends hl _)
  case h_2 v =>
    have effect : Effect t s (s.log (.stored call v)) :=
      .log hb.made fun u hu hp => absurd (Option.some.inj (hp.symm.trans hl)) hu
    have sound := h.log_stored hb v
    have owns : Owns t (s.log (.stored call v)) call := by
      refine ⟨hb.made, fun result hm => ?_⟩
      rcases List.mem_append.mp hm with hm | hm
      · exact hb.owns.live result hm
      · cases List.mem_singleton.mp hm
    have quiet : call ∉ (s.log (.stored call v)).activations := by
      simpa [PublisherEntry.activating] using hb.quiet
    split
    case h_1 e _ => exact ⟨effect, sound, owns, hl, nofun, fun _ _ => quiet⟩
    case h_2 work hc =>
      have works : ∀ {work : RegistryWork}, work.version = v → (∀ v p, work ≠ .activate v p) →
          Works heap t (s.log (.stored call v)) call work := fun hv hn =>
        { toOwns := owns
          lock := hl
          last := by simp [PublisherEntry.storing]
          stored := hv ▸ List.mem_append_right _ (List.mem_singleton_self _)
          quiet := quiet
          canonical := fun v p he => absurd he (hn v p) }
      rcases version_of_checkStored hc with ⟨c, rfl⟩ | rfl
      · exact ⟨effect, sound, works rfl nofun⟩
      · exact ⟨effect, sound, works rfl nofun⟩

end Turns

section Resume

variable {r : Registry} {p₀ p : RegistryPoint} {p' : PublisherPoint}

theorem Works.move (hw : Works heap t s call work) (he : Registry.Effect t s.registry r) :
    Works heap t { s with registry := r } call work :=
  { hw with canonical := fun v p hp => (hw.canonical v p hp).mono (Effect.move he) }

theorem knows_checkCanonical {hash : ContentHash} {canonical : Nat} (hr : s.registry.Sound (content heap))
    (hw : Works heap t s call work) (hf : s.registry.lookup hash = some canonical) :
    Knows heap t s (checkCanonical heap work.version canonical call) := by
  unfold checkCanonical
  split
  case h_1 => exact hw.ends _
  case h_2 hc =>
    have same := validateProgramVersion_eq_ok.mp hc
    refine ⟨hw.toOwns, hw.lock, hw.last, hw.stored, hw.quiet, fun v p he => ?_⟩
    cases he
    have hk : (heap canonical).contentHash = hash := hr.keys hash canonical hf
    refine ⟨?_, same⟩
    rw [← same.contentHash, hk]
    exact hf

theorem explains_answer {answer : Returned} (hr : r.Sound (content heap)) {returned : List Returned}
    (ha : r.returned = returned ++ [answer]) : r.Explains (content heap) answer :=
  hr.returned answer (ha ▸ List.mem_append_right _ (List.mem_singleton_self _))

theorem Works.activates (hw : Works heap t s call work) (a : Nat) :
    (s.log (.activated call (some a))).Activates (s.trace.length + 1) call a work.version := by
  have ⟨k, hk, he⟩ := List.mem_iff_getElem.mp hw.stored
  refine ⟨k, s.trace.length, hk, Nat.lt_succ_self _, ?_, List.getElem?_concat_length⟩
  exact Ragged.getElem?_of_prefix (List.prefix_append _ _) (List.getElem?_eq_some_iff.mpr ⟨hk, he⟩)

theorem good_resume (h : Sound heap initial s) (hw : Works heap t s call work)
    (hk : Registry.Knows (content heap) t s.registry p₀)
    (hg : Registry.Good (content heap) t s.registry r p)
    (hc : Registry.CallTurn work.call s.registry p₀ r p)
    (hs : s.resume heap call work (r, p) = some (s', p')) : Good heap initial t s s' p' := by
  have hr : r.Sound (content heap) := h.registry.keeps hg.effect hg.keeps
  have works : Works heap t { s with registry := r } call work := hw.move hg.effect
  cases hc
  case goesOn hp _ ha =>
    have hn : p ≠ .idle := by
      rintro rfl
      cases hp
    rw [resume, if_neg hn] at hs
    cases hs
    exact ⟨.move hg.effect, h.move hg.effect hr ha, works, hg.knows, hp⟩
  case returns answer hp hret hans ha hplain =>
    rw [resume, if_pos hp, hret, List.getLast?_concat] at hs
    have sound := h.move hg.effect hr ha
    have explains := explains_answer hr hret
    have ended : ∀ e, Good heap initial t s { s with registry := r } (.unlock call (.error e)) := fun e =>
      ⟨.move hg.effect, sound, works.ends e⟩
    cases work
    all_goals
      cases answer
      all_goals try cases hans
    case publish.publish.refl compiled v result =>
      cases result
      case ok canonical =>
        cases hs
        exact ⟨.move hg.effect, sound, knows_checkCanonical hr works (explains _ rfl _ rfl)⟩
      case error =>
        cases hs
        exact ended _
    case load.load.refl v path result =>
      cases result
      case ok canonical =>
        cases hs
        exact ⟨.move hg.effect, sound, knows_checkCanonical hr works (explains.1 _ rfl)⟩
      case error =>
        cases hs
        exact ended _
    case activate.activate.refl v canonical result =>
      cases result
      case ok => exact absurd rfl (hplain _)
      case error =>
        cases hs
        exact ended _
  case activates hash program hp₀ hp hcall hret ha =>
    rw [resume, if_pos hp, hret, List.getLast?_concat] at hs
    cases work
    case activate v canonical =>
      cases hcall
      cases hs
      subst hp₀
      have serves := hw.canonical v canonical rfl
      obtain rfl : program = canonical := Option.some.inj (hk.symm.trans serves.found)
      have sound := h.log_activated hw hg.effect hr
      have effect : Effect t s ({ s with registry := r }.log (.activated call r.active)) :=
        (Effect.move hg.effect).trans (.log hw.made fun _ _ _ => rfl) hg.effect
      refine ⟨effect, sound, ⟨hw.made, fun result hm => ?_⟩, hw.lock, fun p v' he => ?_, nofun⟩
      case refine_1 =>
        rcases List.mem_append.mp hm with hm | hm
        · exact hw.live result hm
        · cases List.mem_singleton.mp hm
      case refine_2 =>
        cases he
        rw [ha]
        refine ⟨?_, hg.effect.lookup _ _ serves.found, serves.same⟩
        rw [log_trace, List.length_append]
        exact works.activates program
    all_goals cases hcall

theorem good_resumeOutside {c : RegistryCall} {next : Registry × RegistryPoint} (h : Sound heap initial s)
    (hn : ∀ hash, c ≠ .activate hash) (hg : Registry.Good (content heap) t s.registry next.1 next.2)
    (hc : Registry.CallTurn c s.registry p₀ next.1 next.2) :
    Good heap initial t s (s.resumeOutside next).1 (s.resumeOutside next).2 := by
  have hr : next.1.Sound (content heap) := h.registry.keeps hg.effect hg.keeps
  cases hc
  case goesOn hp _ ha =>
    refine ⟨.move hg.effect, h.move hg.effect hr ha, ?_⟩
    simp only [resumeOutside]
    split
    · trivial
    · exact ⟨hg.knows, c, hp, hn⟩
  case returns answer hp _ _ ha _ =>
    refine ⟨.move hg.effect, h.move hg.effect hr ha, ?_⟩
    simp only [resumeOutside, hp, if_true]
    trivial
  case activates hash _ _ _ hcall _ _ => exact absurd hcall (hn hash)

end Resume

theorem good_step {sha256 : List Byte → ContentHash} {compilerVersion : List Byte} {p p' : PublisherPoint}
    {e : PublisherEvent} (h : Sound heap initial s) (hk : Knows heap t s p)
    (hs : step sha256 heap compilerVersion t s p e = some (s', p')) : Good heap initial t s s' p' := by
  have relock : ∀ publish, Sound heap initial { s with publish } := fun _ =>
    { h with succeeded := fun i call p v hi =>
        have ⟨ha, hs⟩ := h.succeeded i call p v hi
        ⟨ha, hs.found, hs.same⟩ }
  unfold step at hs
  split at hs
  case h_1 c error =>
    have good : Good heap initial t s _ _ := good_start h c error
    rwa [Option.some.inj hs] at good
  case h_2 call source program error =>
    have good := good_endCompile sha256 compilerVersion h hk source program error
    rwa [Option.some.inj hs] at good
  case h_3 call work =>
    have ⟨hn, hs⟩ := Option.ite_none_left_eq_some.mp hs
    cases hs
    refine ⟨⟨.refl t _, List.prefix_refl _, ⟨[], (List.append_nil _).symm, nofun⟩, fun u _ hu => ?_⟩,
      relock _, ⟨hk.made, hk.clean⟩, rfl⟩
    exact absurd (hu ▸ rfl) hn
  case h_4 call work error =>
    split at hs
    case h_1 =>
      cases hs
      exact .stay h (hk.1.ends hk.2 _)
    case h_2 =>
      cases hs
      exact .stay h hk
  case h_5 call work answer =>
    have good := good_endStore sha256 h hk.1 hk.2 work answer
    rwa [Option.some.inj hs] at good
  case h_6 call work =>
    exact good_resume h hk (show Registry.Knows _ t s.registry .idle from trivial)
      (Registry.good_start work.call) (Registry.callTurn_start s.registry work.call) hs
  case h_7 call work p =>
    have ⟨⟨r, p₁⟩, hstep, hs⟩ := Option.bind_eq_some_iff.mp hs
    exact good_resume h hk.1 hk.2.1 (Registry.good_step h.registry hk.2.1 hstep)
      (Registry.callTurn_of_step hk.2.2 hstep) hs
  case h_8 call v p program error =>
    have ⟨⟨r, p₁⟩, hstep, hs⟩ := Option.bind_eq_some_iff.mp hs
    exact good_resume h hk.1 hk.2.1 (Registry.good_step h.registry hk.2.1 hstep)
      (Registry.callTurn_of_step hk.2.2 hstep) hs
  case h_9 call result =>
    cases hs
    have effect : Effect t s { s with publish := none } :=
      ⟨.refl t _, List.prefix_refl _, ⟨[], (List.append_nil _).symm, nofun⟩,
        fun u hu hp => absurd (Option.some.inj (hp.symm.trans hk.lock)) hu⟩
    refine ⟨effect.trans (.log hk.made fun _ _ _ => rfl) (.refl t _),
      (relock none).log_returned hk.made (fun p v hr => ?_) hk.error, trivial⟩
    have ⟨ha, hs⟩ := hk.ok p v hr
    exact ⟨ha, hs.mono effect⟩
  case h_10 e =>
    cases e
    case call c =>
      have ⟨hn, hs⟩ := Option.ite_none_left_eq_some.mp hs
      have plain : ∀ hash, c ≠ .activate hash := by
        rintro hash rfl
        exact hn rfl
      have good : Good heap initial t s _ _ := good_resumeOutside h plain (Registry.good_start c)
        (Registry.callTurn_start (p := .idle) s.registry c)
      rwa [show s.resumeOutside _ = (s', p') from Option.some.inj hs] at good
    all_goals cases hs
  case h_11 p e =>
    have ⟨_, hs⟩ := Option.ite_none_left_eq_some.mp hs
    have ⟨next, hstep, hs⟩ := Option.map_eq_some_iff.mp hs
    have ⟨c, hc, hn⟩ := hk.2
    have good := good_resumeOutside h hn (Registry.good_step h.registry hk.1 hstep)
      (Registry.callTurn_of_step hc hstep)
    rwa [hs] at good
  case h_12 => cases hs

def outline (sha256 : List Byte → ContentHash) (heap : Nat → FrozenProgram) (compilerVersion : List Byte)
    (initial : Option Nat) : Outline (step sha256 heap compilerVersion) where
  Holds := Sound heap initial
  Knows := Knows heap
  step h hk hs := have good := good_step h hk hs; ⟨good.sound, good.knows⟩
  stable h hk hs hu hku := Knows.stable (good_step h hk hs).effect hu hku

theorem sound_new {registry : Registry} (h : registry.Sound (content heap)) :
    Sound heap registry.active { registry } :=
  ⟨h, rfl, by simp, by simp, List.Sublist.refl _, List.nodup_nil, by simp⟩

theorem valid_new {sha256 : List Byte → ContentHash} {compilerVersion : List Byte} {registry : Registry}
    (h : registry.Sound (content heap)) :
    (outline sha256 heap compilerVersion registry.active).Valid (new registry) where
  holds := sound_new h
  knows _ := trivial

-- In every interleaving, with whatever the store and the compiler answer, a call that succeeds has
-- activated the published program of the version that it returns, a call that fails has activated
-- nothing, and programs are activated in the order in which their versions were committed or loaded.
theorem publication_in_order (sha256 : List Byte → ContentHash) (heap : Nat → FrozenProgram)
    (compilerVersion : List Byte) {registry : Registry} (sound : registry.Sound (content heap))
    {es : List (Nat × PublisherEvent)} {c : Config PolicyPublisher PublisherPoint}
    (h : run sha256 heap compilerVersion registry es = some c) :
    (∀ (i : Nat) call program v, c.shared.trace[i]? = some (.returned call (.ok (program, v))) →
      c.shared.Activates i call program v ∧ c.shared.registry.lookup v.contentHash = some program ∧
      (heap program).contentHash = v.contentHash ∧ (heap program).name = some v.name ∧
      (heap program).version = some v.semanticVersion ∧ (heap program).inputBytes = v.source) ∧
    (∀ call e, .returned call (.error e) ∈ c.shared.trace → call ∉ c.shared.activations) ∧
    c.shared.registry.active = c.shared.activeFrom registry.active ∧
    c.shared.activations.Sublist c.shared.stores ∧ c.shared.stores.Nodup := by
  have hs : Sound heap registry.active c.shared := ((valid_new sound).run h).holds
  refine ⟨fun i call program v hi => ?_, hs.failed, hs.active, hs.order, hs.distinct⟩
  have ⟨ha, hserves⟩ := hs.succeeded i call program v hi
  exact ⟨ha, hserves.found, hserves.same.contentHash, hserves.same.name, hserves.same.version,
    hserves.same.inputBytes⟩

def republished : List (Nat × PublisherEvent) :=
  [(0, .call (.publish true [7#8]) none), (0, .compiled (some 0) none), (0, .go), (0, .context none),
    (0, .stored (.ok ⟨bytes "flag", bytes "flag", bytes "v", 1, [7#8], 1#256, 1, 1⟩)), (0, .go), (0, .go),
    (0, .go), (0, .go), (0, .go), (0, .go), (0, .go), (0, .go)]

theorem publication_in_order_republished :
    ∃ c, run (fun _ => 1#256) (fun _ => ⟨Scheduler.definedField, 1#256, [7#8]⟩) (bytes "v")
        { snapshot := some [(1#256, 4)] } republished = some c ∧
      c.shared.registry.active = some 4 ∧ c.shared.registry.lookup 1#256 = some 4 := by
  let heap : Nat → FrozenProgram := fun _ => ⟨Scheduler.definedField, 1#256, [7#8]⟩
  let registry : Registry := { snapshot := some [(1#256, 4)] }
  have sound : registry.Sound (content heap) := by
    refine ⟨fun hash p h => ?_, nofun, by simp [registry], by simp [registry], by simp [registry]⟩
    have hm : (hash, p) ∈ [(1#256, 4)] := Snapshot.mem_of_lookup h
    cases List.mem_singleton.mp hm
    rfl
  have hrun : (run (fun _ => 1#256) heap (bytes "v") registry republished).map
      (fun c => (c.shared.trace[2]?, c.shared.registry.active)) = some (some (.returned 0
        (.ok (4, ⟨bytes "flag", bytes "flag", bytes "v", 1, [7#8], 1#256, 1, 1⟩))), some 4) := by
    decide +kernel
  have ⟨c, hc, he⟩ := Option.map_eq_some_iff.mp hrun
  have ⟨hlast, hactive⟩ := Prod.mk.inj he
  have ⟨_, hfound, _⟩ := (publication_in_order (fun _ => 1#256) heap (bytes "v") sound hc).1 _ _ _ _ hlast
  exact ⟨c, hc, hactive, hfound⟩

end PolicyPublisher
end NornRune
