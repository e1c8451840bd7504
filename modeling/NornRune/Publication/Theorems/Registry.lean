import NornRune.Publication.Registry

open Threads

namespace NornRune

namespace Snapshot

variable {s : Snapshot} {hash : ContentHash} {c : Nat}

theorem mem_of_lookup (h : s.lookup hash = some c) : (hash, c) ∈ s := by
  have ⟨⟨hash', c'⟩, hf, he⟩ := Option.map_eq_some_iff.mp h
  have hh : hash' = hash := by simpa using List.find?_some hf
  cases he
  exact hh ▸ List.mem_of_find?_eq_some hf

theorem lookup_append (s s' : Snapshot) (hash : ContentHash) :
    Snapshot.lookup (s ++ s') hash = (s.lookup hash).or (s'.lookup hash) := by
  simp only [lookup, List.find?_append, Option.map_or]

end Snapshot

def RegistryPoint.call : RegistryPoint → Option RegistryCall
  | .idle => none
  | .publishLock publisher c | .publishLoad publisher c | .publishStore publisher c _
  | .publishUnlock publisher c _ =>
    match publisher with
    | .caller => some (.publish (some c))
    | .leader hash _ => some (.loadOrCompile hash true)
  | .activateLoad hash | .activateStore hash _ => some (.activate hash)
  | .loadFirst hash | .loadLock hash | .loadAgain hash | .foundUnlock hash _ | .join hash
  | .waitUnlock hash _ | .wait hash _ | .leadUnlock hash _ | .compile hash _ | .finishLock hash _ _
  | .finish hash _ _ | .finishUnlock hash _ _ => some (.loadOrCompile hash true)

def Returned.Answers : Returned → RegistryCall → Prop
  | .publish candidate _, .publish candidate' => candidate = candidate'
  | .activate hash _, .activate hash' => hash = hash'
  | .load hash _ _, .loadOrCompile hash' _ => hash = hash'
  | _, _ => False

namespace Registry

variable (content : Nat → ContentHash)

def Backs (r : Registry) (hash : ContentHash) (result : Compiled) : Prop :=
  ∀ c, result = .ok c → r.lookup hash = some c

def Made (r : Registry) (hash : ContentHash) (f : Nat) : Prop :=
  ∃ flight : Flight, r.made[f]? = some flight ∧ flight.hash = hash

def Explains (r : Registry) : Returned → Prop
  | .publish candidate result => ∀ c, candidate = some c → r.Backs (content c) result
  | .activate hash result => result = .ok () → (r.lookup hash).isSome
  | .load hash path result => r.Backs hash result ∧ ∀ f : Nat, path = some (.led f) ∨ path = some (.joined f) →
    ∃ flight, r.made[f]? = some flight ∧ flight.hash = hash ∧ flight.done = some result

structure Sound (r : Registry) : Prop where
  keys : ∀ hash c, r.lookup hash = some c → content c = hash
  active : ∀ c, r.active = some c → r.lookup (content c) = some c
  flights : ∀ hash (f : Nat), (hash, f) ∈ r.flights → r.Made hash f
  made : ∀ (f : Nat) (flight : Flight) result, r.made[f]? = some flight → flight.done = some result →
    r.Backs flight.hash result
  returned : ∀ call ∈ r.returned, r.Explains content call

def Leads (t : Nat) (r : Registry) (hash : ContentHash) (f : Nat) : Prop :=
  r.made[f]? = some ⟨hash, t, none⟩

def Publishes (t : Nat) (r : Registry) (candidate : Nat) : Publisher → Prop
  | .caller => True
  | .leader hash f => Leads t r hash f ∧ content candidate = hash

def Knows (t : Nat) (r : Registry) : RegistryPoint → Prop
  | .publishLock publisher c => Publishes content t r c publisher
  | .publishLoad publisher c => Publishes content t r c publisher ∧ r.publish = some t
  | .publishStore publisher c current => Publishes content t r c publisher ∧ r.publish = some t ∧
    current = r.snapshot ∧ r.lookup (content c) = none
  | .publishUnlock publisher c result => Publishes content t r c publisher ∧ r.publish = some t ∧
    r.Backs (content c) result
  | .activateStore hash c => r.lookup hash = some c
  | .foundUnlock hash c => r.lookup hash = some c
  | .waitUnlock hash f | .wait hash f => r.Made hash f
  | .leadUnlock hash f => Leads t r hash f
  | .compile hash f => Leads t r hash f
  | .finishLock hash f result => Leads t r hash f ∧ r.Backs hash result
  | .finish hash f result => Leads t r hash f ∧ r.Backs hash result
  | .finishUnlock hash f result => r.made[f]? = some ⟨hash, t, some result⟩
  | _ => True

structure Effect (t : Nat) (r r' : Registry) : Prop where
  lookup : ∀ hash c, r.lookup hash = some c → r'.lookup hash = some c
  others : ∀ (f : Nat) (flight : Flight), r.made[f]? = some flight → flight.leader ≠ t → r'.made[f]? = some flight
  done : ∀ (f : Nat) (flight : Flight), r.made[f]? = some flight → ∃ done, r'.made[f]? = some { flight with done } ∧
    (flight.done = none ∨ done = flight.done)
  publish : ∀ u, u ≠ t → r.publish = some u → r'.publish = some u ∧ r'.snapshot = r.snapshot
  returned : r.returned <+: r'.returned

variable {content} {t : Nat} {r r' r'' : Registry}

theorem Effect.of_same (hs : r'.snapshot = r.snapshot) (hm : r'.made = r.made)
    (hp : ∀ u, u ≠ t → r.publish = some u → r'.publish = some u) (hr : r.returned <+: r'.returned) :
    Effect t r r' where
  lookup hash c h := by rwa [Registry.lookup, hs]
  others f flight h _ := hm ▸ h
  done f flight h := ⟨flight.done, hm ▸ h, .inr rfl⟩
  publish u hu h := ⟨hp u hu h, hs⟩
  returned := hr

theorem Effect.refl (t : Nat) (r : Registry) : Effect t r r :=
  .of_same rfl rfl (fun _ _ h => h) (List.prefix_refl _)

variable {hash : ContentHash} {result : Compiled} {call : Returned} {f c : Nat}
  {p p' : RegistryPoint} {publish flight : Option Nat} {publisher : Publisher} {e : RegistryEvent}

theorem Backs.mono (e : Effect t r r') (h : r.Backs hash result) : r'.Backs hash result :=
  fun c hc => e.lookup hash c (h c hc)

theorem Explains.mono (e : Effect t r r') (h : r.Explains content call) :
    r'.Explains content call := by
  cases call
  case publish candidate result => exact fun c hc => (h c hc).mono e
  case activate hash result =>
    intro hr
    have ⟨c, hc⟩ := Option.isSome_iff_exists.mp (h hr)
    exact Option.isSome_iff_exists.mpr ⟨c, e.lookup hash c hc⟩
  case load hash path result =>
    refine ⟨h.1.mono e, fun f hf => ?_⟩
    have ⟨flight, hm, hh, hd⟩ := h.2 f hf
    have ⟨done, hm', hdone⟩ := e.done f flight hm
    rcases hdone with hdone | hdone
    case inl =>
      rw [hdone] at hd
      cases hd
    case inr => exact ⟨_, hm', hh, hdone.trans hd⟩

theorem Made.mono (e : Effect t r r') (h : r.Made hash f) :
    r'.Made hash f := by
  have ⟨flight, hm, hh⟩ := h
  have ⟨done, hm', _⟩ := e.done f flight hm
  exact ⟨_, hm', hh⟩

theorem Knows.stable (e : Effect t r r') {u : Nat} (hu : u ≠ t) (h : Knows content u r p) :
    Knows content u r' p := by
  have leads : ∀ {hash f}, Leads u r hash f → Leads u r' hash f := fun h => e.others _ _ h hu
  have publishes : ∀ {c publisher}, Publishes content u r c publisher →
      Publishes content u r' c publisher := fun {c publisher} h => by
    cases publisher
    case caller => trivial
    case leader => exact ⟨leads h.1, h.2⟩
  cases p
  case publishLock => exact publishes h
  case publishLoad => exact ⟨publishes h.1, (e.publish u hu h.2).1⟩
  case publishStore =>
    have ⟨hp, hs⟩ := e.publish u hu h.2.1
    refine ⟨publishes h.1, hp, h.2.2.1.trans hs.symm, ?_⟩
    rw [Registry.lookup, hs]
    exact h.2.2.2
  case publishUnlock => exact ⟨publishes h.1, (e.publish u hu h.2.1).1, h.2.2.mono e⟩
  case activateStore => exact e.lookup _ _ h
  case foundUnlock => exact e.lookup _ _ h
  case waitUnlock => exact Made.mono e h
  case wait => exact Made.mono e h
  case leadUnlock => exact leads h
  case compile => exact leads h
  case finishLock => exact ⟨leads h.1, h.2.mono e⟩
  case finish => exact ⟨leads h.1, h.2.mono e⟩
  case finishUnlock => exact e.others _ _ h hu
  all_goals trivial

-- What it takes to see that a registry is still sound after a turn.
structure Keeps (content : Nat → ContentHash) (r r' : Registry) : Prop where
  keys : ∀ hash c, r'.lookup hash = some c → r.lookup hash = some c ∨ content c = hash
  active : r'.active = r.active ∨ ∃ c, r'.active = some c ∧ r'.lookup (content c) = some c
  flights : ∀ hash (f : Nat), (hash, f) ∈ r'.flights → (hash, f) ∈ r.flights ∨
    r'.Made hash f
  made : ∀ (f : Nat) (flight : Flight) result, r'.made[f]? = some flight → flight.done = some result →
    r.made[f]? = some flight ∨ r'.Backs flight.hash result
  returned : ∀ call ∈ r'.returned, call ∈ r.returned ∨ r'.Explains content call

theorem Sound.keeps (h : Sound content r) (e : Effect t r r') (k : Keeps content r r') :
    Sound content r' where
  keys hash c hc := (k.keys hash c hc).elim (h.keys hash c) id
  active c hc := by
    rcases k.active with ha | ⟨c', hc', hl⟩
    case inl => exact e.lookup _ _ (h.active c (ha ▸ hc))
    case inr =>
      rw [hc', Option.some.injEq] at hc
      exact hc ▸ hl
  flights hash f hf := (k.flights hash f hf).elim (fun hf => (h.flights hash f hf).mono e) id
  made f flight result hm hd :=
    (k.made f flight result hm hd).elim (fun hm => (h.made f flight result hm hd).mono e) id
  returned call hc := (k.returned call hc).elim (fun hc => (h.returned call hc).mono e) id

-- What a turn must do: it changes what it may, and the registry stays sound.
structure Good (content : Nat → ContentHash) (t : Nat) (r r' : Registry) (p : RegistryPoint) : Prop where
  effect : Effect t r r'
  keeps : Keeps content r r'
  knows : Knows content t r' p

theorem Keeps.of_same (hs : r'.snapshot = r.snapshot) (ha : r'.active = r.active)
    (hf : r'.flights = r.flights) (hm : r'.made = r.made) (hr : r'.returned = r.returned) :
    Keeps content r r' where
  keys _ _ h := .inl (by rwa [Registry.lookup, hs] at h)
  active := .inl ha
  flights _ _ h := .inl (hf ▸ h)
  made _ _ _ h _ := .inl (hm ▸ h)
  returned _ h := .inl (hr ▸ h)

theorem Good.stay (h : Knows content t r p) : Good content t r r p :=
  ⟨.refl t r, .of_same rfl rfl rfl rfl rfl, h⟩

theorem Good.log (he : r.Explains content call) :
    Good content t r (r.log call) .idle := by
  have effect : Effect t r (r.log call) :=
    .of_same rfl rfl (fun _ _ h => h) (List.prefix_append _ _)
  refine ⟨effect, ⟨fun _ _ h => .inl h, .inl rfl, fun _ _ h => .inl h, fun _ _ _ h _ => .inl h,
    fun c h => ?_⟩, trivial⟩
  rcases List.mem_append.mp h with h | h
  · exact .inl h
  · rw [List.mem_singleton.mp h]
    exact .inr (he.mono effect)

section

variable (hp : ∀ u, u ≠ t → r.publish = some u → publish = some u)
include hp

theorem Good.locks (h : Knows content t { r with publish, flight } p) :
    Good content t r { r with publish, flight } p :=
  ⟨.of_same rfl rfl hp (List.prefix_refl _), .of_same rfl rfl rfl rfl rfl, h⟩

theorem Good.locks_log (he : r.Explains content call) :
    Good content t r ({ r with publish, flight }.log call) .idle := by
  have effect : Effect t r ({ r with publish, flight }.log call) :=
    .of_same rfl rfl hp (List.prefix_append _ _)
  refine ⟨effect, ⟨fun _ _ h => .inl h, .inl rfl, fun _ _ h => .inl h, fun _ _ _ h _ => .inl h,
    fun c h => ?_⟩, trivial⟩
  rcases List.mem_append.mp h with h | h
  · exact .inl h
  · rw [List.mem_singleton.mp h]
    exact .inr (he.mono effect)

end

section Publish

variable {publisher : Publisher} {publish : Option Nat}

theorem good_endPublish {c : Nat} {result : Compiled}
    (hp : ∀ u, u ≠ t → r.publish = some u → publish = some u) (h : Publishes content t r c publisher)
    (hb : r.Backs (content c) result) :
    Good content t r ({ r with publish }.endPublish (some c) result publisher).1
      ({ r with publish }.endPublish (some c) result publisher).2 := by
  cases publisher
  case caller => exact .locks_log hp fun c' hc => Option.some.inj hc ▸ hb
  case leader hash f => exact .locks hp ⟨h.1, h.2 ▸ hb⟩

theorem good_startPublish {c : Nat} (h : Publishes content t r c publisher) :
    Good content t r (r.startPublish content publisher (some c)).1
      (r.startPublish content publisher (some c)).2 := by
  rw [startPublish]
  split
  case isTrue => exact .stay h
  case isFalse => exact good_endPublish (fun _ _ h => h) h nofun

end Publish

theorem backs_error (r : Registry) (hash : ContentHash) (e : RegistryError) :
    r.Backs hash (.error e) := nofun

theorem good_start (c : RegistryCall) :
    Good content t r (r.start content c).1 (r.start content c).2 := by
  cases c
  case publish candidate =>
    cases candidate
    case none => exact .log nofun
    case some c => exact good_startPublish trivial
  case activate hash =>
    rw [start]
    split
    · exact .stay trivial
    · exact .log nofun
  case loadOrCompile hash compile =>
    rw [start]
    split
    · exact .stay trivial
    · exact .log ⟨nofun, by simp⟩

theorem good_endCompile (h : Leads t r hash f) (program error : Option Nat) :
    Good content t r (r.endCompile content hash f program error).1
      (r.endCompile content hash f program error).2 := by
  unfold endCompile
  split
  case h_1 => exact .stay ⟨h, backs_error _ _ _⟩
  case h_2 => exact .stay ⟨h, backs_error _ _ _⟩
  case h_3 c =>
    split
    case isTrue hc => exact good_startPublish ⟨h, hc⟩
    case isFalse => exact .stay ⟨h, backs_error _ _ _⟩

theorem knows_publishFrom (h : Publishes content t r c publisher) (hp : r.publish = some t) :
    Knows content t r (publishFrom content r.snapshot publisher c) := by
  unfold publishFrom
  split
  case h_1 hs => exact ⟨h, hp, rfl, by rw [Registry.lookup, hs]; rfl⟩
  case h_2 programs hs =>
    have hl : r.lookup (content c) = programs.lookup (content c) := by rw [Registry.lookup, hs]; rfl
    split
    case h_1 existing he =>
      refine ⟨h, hp, fun c' hc => ?_⟩
      cases hc
      exact hl.trans he
    case h_2 he =>
      split
      · exact ⟨h, hp, backs_error _ _ _⟩
      · exact ⟨h, hp, rfl, hl.trans he⟩

theorem good_publishStore (h : Publishes content t r c publisher) (hp : r.publish = some t)
    (hl : r.lookup (content c) = none) :
    Good content t r { r with snapshot := some (r.snapshot.getD [] ++ [(content c, c)]) }
      (.publishUnlock publisher c (.ok c)) := by
  have lookup : ∀ hash, Registry.lookup { r with
      snapshot := some (r.snapshot.getD [] ++ [(content c, c)]) } hash =
      (r.lookup hash).or (if content c = hash then some c else none) := by
    intro hash
    have hr : r.lookup hash = Snapshot.lookup (r.snapshot.getD []) hash := by
      rw [Registry.lookup]
      cases r.snapshot <;> rfl
    rw [hr, Registry.lookup, Option.bind_some, Snapshot.lookup_append]
    congr 1
    by_cases he : content c = hash
    · simp [Snapshot.lookup, he]
    · simp [Snapshot.lookup, he]
  refine ⟨⟨fun hash c' hc => ?_, fun _ _ h _ => h, fun f flight h => ⟨flight.done, h, .inr rfl⟩,
    fun u hu h => ?_, List.prefix_refl _⟩, ⟨fun hash c' hc => ?_, .inl rfl, fun _ _ h => .inl h,
    fun _ _ _ h _ => .inl h, fun _ h => .inl h⟩, h, hp, fun c' hc => ?_⟩
  case refine_1 => rw [lookup, hc, Option.some_or]
  case refine_2 =>
    rw [hp, Option.some.injEq] at h
    exact absurd h.symm hu
  case refine_3 =>
    rw [lookup] at hc
    rcases Option.or_eq_some_iff.mp hc with hc | ⟨_, hc⟩
    · exact .inl hc
    · split at hc
      case isTrue he =>
        cases hc
        exact .inr he
      case isFalse => cases hc
  case refine_4 =>
    cases hc
    rw [lookup, hl, if_pos rfl, Option.none_or]

theorem good_lead (hash : ContentHash) :
    Good content t r { r with
      flights := r.flights ++ [(hash, r.made.length)]
      made := r.made ++ [⟨hash, t, none⟩] } (.leadUnlock hash r.made.length) := by
  have old : ∀ {f : Nat} {flight : Flight}, r.made[f]? = some flight →
      (r.made ++ [⟨hash, t, none⟩])[f]? = some flight := fun h => by
    rw [List.getElem?_append_left (List.getElem?_eq_some_iff.mp h).1, h]
  have new : (r.made ++ [⟨hash, t, none⟩])[r.made.length]? = some ⟨hash, t, none⟩ :=
    List.getElem?_concat_length
  refine ⟨⟨fun _ _ h => h, fun _ _ h _ => old h, fun f flight h => ⟨flight.done, old h, .inr rfl⟩,
    fun _ _ h => ⟨h, rfl⟩, List.prefix_refl _⟩, ⟨fun _ _ h => .inl h, .inl rfl, fun hash' f h => ?_,
    fun f flight result h hd => ?_, fun _ h => .inl h⟩, new⟩
  case refine_1 =>
    rcases List.mem_append.mp h with h | h
    · exact .inl h
    · cases List.mem_singleton.mp h
      exact .inr ⟨_, new, rfl⟩
  case refine_2 =>
    rcases Nat.lt_trichotomy f r.made.length with hf | hf | hf
    · exact .inl ((List.getElem?_append_left hf).symm.trans h)
    · rw [hf, new, Option.some.injEq] at h
      rw [← h] at hd
      cases hd
    · rw [List.getElem?_eq_none (by rw [List.length_append, List.length_singleton]; omega)] at h
      cases h

theorem good_finish (h : Leads t r hash f) (hb : r.Backs hash result) :
    Good content t r { r with
      made := r.made.modify f fun flight => { flight with done := some result }
      flights := r.flights.filter (·.1 != hash) } (.finishUnlock hash f result) := by
  have hget : ∀ g, (r.made.modify f fun flight => { flight with done := some result })[g]? =
      if f = g then (r.made[g]?).map (fun flight => { flight with done := some result })
      else r.made[g]? := fun g => by
    rw [List.getElem?_modify]
    split <;> simp
  have hend : (r.made.modify f fun flight => { flight with done := some result })[f]? =
      some ⟨hash, t, some result⟩ := by
    rw [hget, if_pos rfl, h]
    rfl
  refine ⟨⟨fun _ _ h => h, fun g flight hg hl => ?_, fun g flight hg => ?_, fun _ _ h => ⟨h, rfl⟩,
    List.prefix_refl _⟩, ⟨fun _ _ h => .inl h, .inl rfl, fun hash' g hm => .inl (List.mem_filter.mp hm).1,
    fun g flight result' hg hd => ?_, fun _ h => .inl h⟩, hend⟩
  case refine_1 =>
    rw [hget, if_neg]
    · exact hg
    · rintro rfl
      rw [h, Option.some.injEq] at hg
      exact hl (hg ▸ rfl)
  case refine_2 =>
    by_cases hf : f = g
    case pos =>
      subst hf
      rw [h, Option.some.injEq] at hg
      exact ⟨some result, hg ▸ hend, .inl (hg ▸ rfl)⟩
    case neg => exact ⟨flight.done, by rw [hget, if_neg hf]; exact hg, .inr rfl⟩
  case refine_3 =>
    by_cases hf : f = g
    case pos =>
      subst hf
      rw [hend, Option.some.injEq] at hg
      subst hg
      cases hd
      exact .inr hb
    case neg =>
      rw [hget, if_neg hf] at hg
      exact .inl hg

theorem good_activate (hc : r.lookup (content c) = some c) (hh : (r.lookup hash).isSome) :
    Good content t r ({ r with active := some c }.log (.activate hash (.ok ()))) .idle := by
  refine ⟨.of_same rfl rfl (fun _ _ h => h) (List.prefix_append _ _), ⟨fun _ _ h => .inl h,
    .inr ⟨c, rfl, hc⟩, fun _ _ h => .inl h, fun _ _ _ h _ => .inl h, fun call h => ?_⟩, trivial⟩
  rcases List.mem_append.mp h with h | h
  · exact .inl h
  · rw [List.mem_singleton.mp h]
    exact .inr fun _ => hh

theorem good_step (sound : Sound content r) (h : Knows content t r p)
    (hs : step content t r p e = some (r', p')) : Good content t r r' p' := by
  revert hs
  fun_cases step content t r p e
  all_goals intro hs
  case case1 c =>
    have good : Good content t r _ _ := good_start c
    rwa [Option.some.inj hs] at good
  case case6 =>
    have mine : ∀ u, u ≠ t → r.publish = some u → none = some u := fun u hu hp => by
      rw [h.2.1, Option.some.injEq] at hp
      exact absurd hp.symm hu
    have good : Good content t r _ _ := good_endPublish mine h.1 h.2.2
    rwa [Option.some.inj hs] at good
  case case20 hash f =>
    have ⟨result, hd, hs⟩ := Option.map_eq_some_iff.mp hs
    have ⟨flight, hm, hd⟩ := Option.bind_eq_some_iff.mp hd
    cases hs
    have ⟨flight', hm', hh⟩ := h
    obtain rfl : flight = flight' := Option.some.inj (hm.symm.trans hm')
    refine .log ⟨hh ▸ sound.made f flight result hm hd, fun g hg => ?_⟩
    obtain rfl : f = g := by simpa using hg
    exact ⟨flight, hm, hh, hd⟩
  case case22 hash f program error =>
    have good : Good content t r _ _ := good_endCompile h program error
    rwa [Option.some.inj hs] at good
  all_goals cases hs
  case case3 publisher c hn =>
    refine .locks (fun u _ hu => absurd (hu ▸ rfl) hn) ⟨?_, rfl⟩
    cases publisher <;> exact h
  case case4 => exact .stay (knows_publishFrom h.1 h.2)
  case case5 =>
    obtain ⟨hpub, hp, rfl, hl⟩ := h
    exact good_publishStore hpub hp hl
  case case7 => exact .log nofun
  case case8 hc => exact .stay hc
  case case9 hash c =>
    exact good_activate (sound.keys hash c h ▸ h) (Option.isSome_iff_exists.mpr ⟨c, h⟩)
  case case10 hc => exact .log ⟨fun c' he => by cases he; exact hc, by simp⟩
  case case14 hc => exact .stay hc
  case case16 => exact .locks_log (fun _ _ h => h) ⟨fun c' he => by cases he; exact h, by simp⟩
  case case17 hash f hf => exact .stay (sound.flights hash f (Snapshot.mem_of_lookup hf))
  case case18 hash _ _ => exact good_lead hash
  case case25 => exact good_finish h.1 h.2
  case case26 hash f result =>
    refine .locks_log (fun _ _ h => h) ⟨sound.made f _ result h rfl, fun g hg => ?_⟩
    obtain rfl : f = g := by simpa using hg
    exact ⟨_, h, rfl, rfl⟩
  case case11 | case15 => exact .stay trivial
  case case13 => exact .locks (fun _ _ h => h) trivial
  -- Elsewhere the lock of the flights is taken or released.
  all_goals exact .locks (fun _ _ h => h) h

theorem snapshot_endPublish (r : Registry) (candidate : Option Nat) (result : Compiled)
    (publisher : Publisher) : (r.endPublish candidate result publisher).1.snapshot = r.snapshot := by
  cases publisher <;> rfl

theorem snapshot_startPublish (r : Registry) (publisher : Publisher) (candidate : Option Nat) :
    (r.startPublish content publisher candidate).1.snapshot = r.snapshot := by
  fun_cases startPublish content r publisher candidate
  case case2 => rfl
  all_goals exact snapshot_endPublish _ _ _ _

theorem snapshot_of_step (hs : step content t r p e = some (r', p')) :
    r'.snapshot = r.snapshot ∨ ∃ publisher c current, p = .publishStore publisher c current ∧
      r'.snapshot = some (current.getD [] ++ [(content c, c)]) := by
  revert hs
  fun_cases step content t r p e
  all_goals intro hs
  case case1 c =>
    refine .inl ((congrArg (·.1.snapshot) (Option.some.inj hs)).symm.trans ?_)
    fun_cases start content r c
    case case1 => exact snapshot_startPublish _ _ _
    all_goals rfl
  case case6 =>
    exact .inl ((congrArg (·.1.snapshot) (Option.some.inj hs)).symm.trans (snapshot_endPublish _ _ _ _))
  case case20 =>
    have ⟨_, _, hs⟩ := Option.map_eq_some_iff.mp hs
    cases hs
    exact .inl rfl
  case case22 hash f program error =>
    refine .inl ((congrArg (·.1.snapshot) (Option.some.inj hs)).symm.trans ?_)
    fun_cases endCompile content r hash f program error
    case case3 => exact snapshot_startPublish _ _ _
    all_goals rfl
  all_goals cases hs
  case case5 publisher c current => exact .inr ⟨publisher, c, current, rfl, rfl⟩
  all_goals exact .inl rfl

section Calls

variable {p p' : RegistryPoint} {c : RegistryCall}

-- What a turn does with the call that the thread is in: the thread goes on with it or returns from it,
-- and the active program changes only when an activation returns.
inductive CallTurn (c : RegistryCall) (r : Registry) (p : RegistryPoint) (r' : Registry) (p' : RegistryPoint) : Prop
  | goesOn (call : p'.call = some c) (returned : r'.returned = r.returned) (active : r'.active = r.active)
  | returns (answer : Returned) (idle : p' = .idle) (returned : r'.returned = r.returned ++ [answer])
      (answers : answer.Answers c) (active : r'.active = r.active)
      (plain : ∀ hash, answer ≠ .activate hash (.ok ()))
  | activates (hash : ContentHash) (program : Nat) (point : p = .activateStore hash program) (idle : p' = .idle)
      (call : c = .activate hash) (returned : r'.returned = r.returned ++ [.activate hash (.ok ())])
      (active : r'.active = some program)

theorem callTurn_startPublish {publisher : Publisher} {candidate : Option Nat} {s : Registry × RegistryPoint}
    (hc : match publisher with
      | .caller => c = .publish candidate
      | .leader hash _ => c = .loadOrCompile hash true)
    (hs : r.startPublish content publisher candidate = s) : CallTurn c r p s.1 s.2 := by
  subst hs
  have ended : ∀ e, CallTurn c r p (r.endPublish candidate (.error e) publisher).1
      (r.endPublish candidate (.error e) publisher).2 := by
    intro e
    cases publisher
    case caller => exact .returns _ rfl rfl (by rw [hc]; rfl) rfl nofun
    case leader => exact .goesOn (congrArg some hc.symm) rfl rfl
  unfold startPublish
  split
  case h_1 => exact ended _
  case h_2 =>
    split
    case isTrue =>
      refine .goesOn ?_ rfl rfl
      cases publisher <;> exact congrArg some hc.symm
    case isFalse => exact ended _

theorem callTurn_start (r : Registry) (c : RegistryCall) :
    CallTurn c r p (r.start content c).1 (r.start content c).2 := by
  cases c
  case publish => exact callTurn_startPublish rfl rfl
  case activate hash =>
    rw [start]
    split
    · exact .goesOn rfl rfl rfl
    · exact .returns _ rfl rfl rfl rfl nofun
  case loadOrCompile hash compile =>
    rw [start]
    split
    case isTrue h =>
      rw [Bool.and_eq_true] at h
      exact .goesOn (by rw [h.1]; rfl) rfl rfl
    case isFalse => exact .returns _ rfl rfl rfl rfl nofun

theorem callTurn_of_step {e : RegistryEvent} (hc : p.call = some c)
    (hs : step content t r p e = some (r', p')) : CallTurn c r p r' p' := by
  revert hs
  fun_cases step content t r p e
  all_goals intro hs
  case case6 publisher _ _ =>
    cases publisher
    case caller =>
      cases hs
      exact .returns _ rfl rfl (by rw [← Option.some.inj hc]; rfl) rfl nofun
    case leader =>
      cases hs
      exact .goesOn hc rfl rfl
  case case20 =>
    have ⟨_, _, hs⟩ := Option.map_eq_some_iff.mp hs
    cases hs
    cases hc
    exact .returns _ rfl rfl rfl rfl nofun
  case case22 hash f program error =>
    cases hc
    have hs := Option.some.inj hs
    revert hs
    fun_cases endCompile content r hash f program error
    case case3 => exact callTurn_startPublish rfl
    all_goals
      intro hs
      cases hs
      exact .goesOn rfl rfl rfl
  case case1 => cases hc
  all_goals cases hs
  case case3 publisher _ _ | case5 publisher _ _ =>
    exact .goesOn (by cases publisher <;> exact hc) rfl rfl
  case case4 publisher c =>
    refine .goesOn ?_ rfl rfl
    fun_cases publishFrom content r.snapshot publisher c
    all_goals cases publisher <;> exact hc
  all_goals cases hc
  case case7 | case10 | case16 | case26 => exact .returns _ rfl rfl rfl rfl nofun
  case case9 hash program => exact .activates hash program rfl rfl rfl rfl rfl
  all_goals exact .goesOn rfl rfl rfl

end Calls

theorem lookup_of_step (hs : step content t r p e = some (r', p')) (hk : Knows content t r p)
    (hc : r'.lookup hash = some c) :
    r.lookup hash = some c ∨ content c = hash ∧ ∃ publisher current, p = .publishStore publisher c current := by
  rcases snapshot_of_step hs with he | ⟨publisher, c', current, rfl, he⟩
  case inl =>
    rw [lookup, he] at hc
    exact .inl hc
  case inr =>
    have hold : r.lookup hash = Snapshot.lookup (current.getD []) hash := by
      rw [hk.2.2.1, lookup]
      cases r.snapshot <;> rfl
    rw [lookup, he, Option.bind_some, Snapshot.lookup_append, ← hold] at hc
    rcases Option.or_eq_some_iff.mp hc with hc | ⟨_, hc⟩
    case inl => exact .inl hc
    case inr =>
      have hm : (hash, c) = (content c', c') := List.mem_singleton.mp (Snapshot.mem_of_lookup hc)
      cases hm
      exact .inr ⟨rfl, publisher, current, rfl⟩

def outline (content : Nat → ContentHash) : Outline (step content) where
  Holds := Sound content
  Knows := Knows content
  step sound h hs := have good := good_step sound h hs; ⟨sound.keeps good.effect good.keeps, good.knows⟩
  stable sound h hs hu := Knows.stable (good_step sound h hs).effect hu

theorem valid_empty (content : Nat → ContentHash) : (outline content).Valid empty where
  holds := ⟨nofun, nofun, by simp [empty], by simp [empty], by simp [empty]⟩
  knows _ := trivial

end Registry

def Returned.program (content : Nat → ContentHash) : Returned → Option (ContentHash × Nat)
  | .publish (some c) (.ok p) => some (content c, p)
  | .load hash _ (.ok p) => some (hash, p)
  | _ => none

def Returned.flight : Returned → Option (Nat × ContentHash × Compiled)
  | .load hash (some (.led f)) result => some (f, hash, result)
  | .load hash (some (.joined f)) result => some (f, hash, result)
  | _ => none

namespace Registry

variable {content : Nat → ContentHash} {r : Registry} {call : Returned} {hash : ContentHash}

theorem Sound.lookup_of_program (h : Sound content r) (hc : call ∈ r.returned) {p : Nat}
    (hp : call.program content = some (hash, p)) :
    r.lookup hash = some p := by
  have he := h.returned call hc
  unfold Returned.program at hp
  split at hp
  case h_1 =>
    cases hp
    exact he _ rfl _ rfl
  case h_2 =>
    cases hp
    exact he.1 _ rfl
  case h_3 => cases hp

theorem Sound.done_of_flight (h : Sound content r) (hc : call ∈ r.returned) {f : Nat}
    {result : Compiled} (hf : call.flight = some (f, hash, result)) :
    ∃ flight, r.made[f]? = some flight ∧ flight.hash = hash ∧ flight.done = some result := by
  have he := h.returned call hc
  unfold Returned.flight at hf
  split at hf
  case h_1 =>
    cases hf
    exact he.2 f (.inl rfl)
  case h_2 =>
    cases hf
    exact he.2 f (.inr rfl)
  case h_3 => cases hf

variable {c c' : Config Registry RegistryPoint}

theorem candidate_of_lookup {e : Nat × RegistryEvent} (ht : turn (step content) c e = some c')
    {p : Nat} (hn : c.shared.lookup hash = none) (hp : c'.shared.lookup hash = some p)
    (valid : (outline content).Valid c) :
    content p = hash ∧ ∃ publisher current, c.threads e.1 = .publishStore publisher p current := by
  rcases lookup_of_step (Outline.turn_eq_some ht).1 (valid.knows e.1) hp with h | h
  case inl => cases hn.symm.trans h
  case inr => exact h

-- In every interleaving, the first program that is published for a hash is the one for good: it is
-- what lookups, publications and loads of the hash return, and only such programs are active. Callers
-- that share a flight share its result.
theorem canonical_in_every_interleaving (content : Nat → ContentHash) {es es' : List (Nat × RegistryEvent)}
    (h : run content es = some c) (h' : Threads.run (step content) c es' = some c') :
    (∀ hash p, c.shared.lookup hash = some p → content p = hash ∧ c'.shared.lookup hash = some p) ∧
    (∀ e c₁ hash p, turn (step content) c e = some c₁ → c.shared.lookup hash = none →
      c₁.shared.lookup hash = some p → content p = hash ∧
        ∃ publisher current, c.threads e.1 = .publishStore publisher p current) ∧
    (∀ call ∈ c'.shared.returned, ∀ hash p, call.program content = some (hash, p) →
      c'.shared.lookup hash = some p) ∧
    (∀ call ∈ c'.shared.returned, ∀ call' ∈ c'.shared.returned, ∀ hash p p',
      call.program content = some (hash, p) → call'.program content = some (hash, p') → p = p') ∧
    (∀ p, c'.shared.active = some p → c'.shared.lookup (content p) = some p) ∧
    (∀ call ∈ c'.shared.returned, ∀ call' ∈ c'.shared.returned, ∀ f hash hash' result result',
      call.flight = some (f, hash, result) → call'.flight = some (f, hash', result') →
        hash = hash' ∧ result = result') ∧
    (∀ call ∈ c'.shared.returned, ∀ t f hash hash' result, call.flight = some (f, hash, result) →
      c'.threads t = .wait hash' f → hash = hash' ∧ ∃ c'', turn (step content) c' (t, .go) = some c'' ∧
        c''.threads t = .idle ∧
        c''.shared.returned = c'.shared.returned ++ [.load hash (some (.joined f)) result]) := by
  have valid : (outline content).Valid c := (valid_empty content).run h
  have valid' : (outline content).Valid c' := valid.run h'
  have sound : Sound content c.shared := valid.holds
  have sound' : Sound content c'.shared := valid'.holds
  refine ⟨fun hash p hp => ⟨sound.keys hash p hp, ?_⟩, fun e c₁ hash p ht hn hp =>
    candidate_of_lookup ht hn hp valid, fun call hc hash p => sound'.lookup_of_program hc,
    fun call hc call' hc' hash p p' hp hp' => ?_, sound'.active,
    fun call hc call' hc' f hash hash' result result' hf hf' => ?_,
    fun call hc t f hash hash' result hf ht => ?_⟩
  case refine_1 =>
    refine valid.run_relates (fun (r r' : Registry) => r.lookup hash = some p → r'.lookup hash = some p)
      (fun _ h => h) (fun _ _ _ h h' => h' ∘ h) (fun t r pt e r' pt' hr hk hs => ?_) h' hp
    exact (good_step hr hk hs).effect.lookup hash p
  case refine_2 =>
    have := (sound'.lookup_of_program hc hp).symm.trans (sound'.lookup_of_program hc' hp')
    exact Option.some.inj this
  case refine_3 =>
    have ⟨flight, hm, hh, hd⟩ := sound'.done_of_flight hc hf
    have ⟨flight', hm', hh', hd'⟩ := sound'.done_of_flight hc' hf'
    obtain rfl : flight = flight' := Option.some.inj (hm.symm.trans hm')
    exact ⟨hh.symm.trans hh', Option.some.inj (hd.symm.trans hd')⟩
  case refine_4 =>
    have ⟨flight, hm, hh, hd⟩ := sound'.done_of_flight hc hf
    have hk : Knows content t c'.shared (c'.threads t) := valid'.knows t
    rw [ht] at hk
    have ⟨flight', hm', hh'⟩ := hk
    obtain rfl : flight = flight' := Option.some.inj (hm.symm.trans hm')
    obtain rfl : hash = hash' := hh.symm.trans hh'
    refine ⟨rfl, ⟨c'.shared.log (.load hash (some (.joined f)) result),
      Function.update c'.threads t .idle⟩, ?_, Function.update_self .., rfl⟩
    simp only [turn, ht, step, hm, hd, Option.bind_some, Option.map_some]

def sharedFlight : List (Nat × RegistryEvent) :=
  [(0, .call (.loadOrCompile 1#256 true)), (1, .call (.loadOrCompile 1#256 true)), (0, .go), (1, .go),
    (0, .go), (0, .go), (0, .go), (0, .go), (1, .go), (1, .go), (1, .go), (1, .go),
    (0, .compiled (some 7) none), (0, .go), (0, .go), (0, .go), (0, .go), (0, .go), (0, .go), (0, .go)]

theorem canonical_in_sharedFlight : ∃ c, run (fun _ => 1#256) sharedFlight = some c ∧
    c.shared.lookup 1#256 = some 7 ∧ ∃ c'', turn (step fun _ => 1#256) c (1, .go) = some c'' ∧
      c''.threads 1 = .idle ∧
      c''.shared.returned = c.shared.returned ++ [.load 1#256 (some (.joined 0)) (.ok 7)] := by
  have hrun : (run (fun _ => 1#256) sharedFlight).map (fun c => (c.threads 1, c.shared.returned)) =
      some (.wait 1#256 0, [.load 1#256 (some (.led 0)) (.ok 7)]) := by decide +kernel
  have ⟨c, hc, he⟩ := Option.map_eq_some_iff.mp hrun
  have hwait : c.threads 1 = .wait 1#256 0 := congrArg Prod.fst he
  have hled : Returned.load 1#256 (some (.led 0)) (.ok 7) ∈ c.shared.returned := by
    rw [show c.shared.returned = _ from congrArg Prod.snd he]
    exact List.mem_singleton_self _
  have ⟨_, _, hpub, _, _, _, hgo⟩ := canonical_in_every_interleaving (fun _ => 1#256) hc
    (show Threads.run _ c [] = some c from rfl)
  exact ⟨c, hc, hpub _ hled _ _ rfl, (hgo _ hled 1 0 _ _ _ rfl hwait).2⟩

end Registry
end NornRune
