import Mathlib.Algebra.Group.Nat.Defs
import Mathlib.Data.List.Basic
import Mathlib.Data.List.Nodup
import Mathlib.Logic.Function.Basic

-- Slots that are lent to one holder at a time. A slot counts its generations, and a holder shows the
-- generation of its grant to give the slot back.
namespace Ledger

inductive State
  | free
  | held
  | returning
  deriving DecidableEq, Repr

-- Where a slot is: in the pool, taken from the pool by a thread, lent for a grant, switched by a thread
-- that gives it back, or with a thread that has ended a grant.
inductive Place
  | pool
  | taken (thread : Nat)
  | lent (grant : Nat)
  | leaving (grant : Nat) (thread : Nat)
  | back (thread : Nat)
  deriving DecidableEq, Repr

def Place.thread : Place → Option Nat
  | taken t | leaving _ t | back t => some t
  | _ => none

def Place.grant : Place → Option Nat
  | lent n | leaving n _ => some n
  | _ => none

-- The generation and the state are words that threads read and write. The place is not stored
-- anywhere, and neither are the threads that have found their generation and not yet tried to switch
-- the state.
structure Slot where
  generation : Nat := 0
  state : State := .free
  place : Place := .pool
  checked : List Nat := []

structure Grant where
  slot : Nat
  generation : Nat
  deriving DecidableEq, Repr

end Ledger

open Ledger

-- The slots, the grants that were ever made, and the grants that were shown with success, each with the
-- grant that was ended.
structure Ledger where
  slots : Nat → Slot := fun _ => {}
  grants : List Grant := []
  ended : List (Nat × Nat) := []

namespace Ledger

variable (l : Ledger)

def modify (i : Nat) (f : Slot → Slot) : Ledger :=
  { l with slots := Function.update l.slots i (f (l.slots i)) }

-- A thread takes a slot from the pool, and puts one back.
def take (t i : Nat) : Ledger :=
  l.modify i fun s => { s with place := .taken t }

def putBack (i : Nat) : Ledger :=
  l.modify i fun s => { s with place := .pool }

-- Generations are counted in 64 bits.
def advance (i : Nat) : Ledger :=
  l.modify i fun s => { s with generation := (s.generation + 1) % 2 ^ 64 }

def lend (i generation : Nat) : Option Ledger :=
  if (l.slots i).state = .free then
    let l' := l.modify i fun s => { s with state := .held, place := .lent l.grants.length }
    some { l' with grants := l.grants ++ [⟨i, generation⟩] }
  else none

def check (t i generation : Nat) : Option Ledger :=
  if (l.slots i).generation = generation then
    some (l.modify i fun s => { s with checked := t :: s.checked })
  else none

def switch (t i : Nat) : Ledger × Bool :=
  let s := l.slots i
  let s := { s with checked := s.checked.erase t }
  if s.state = .held then
    (l.modify i fun _ => { s with
      state := .returning
      place := match s.place with
        | .lent n => .leaving n t
        | place => place }, true)
  else (l.modify i fun _ => s, false)

def restore (i : Nat) : Ledger :=
  l.modify i fun s => { s with
    state := .held
    place := match s.place with
      | .leaving n _ => .lent n
      | place => place }

-- Ends the grant that a slot is lent for. The grant `n` was shown.
def finish (t n i : Nat) : Ledger :=
  let l' := l.modify i fun s => { s with place := .back t }
  { l' with ended := l.ended ++ [(n, (l.slots i).place.grant.getD n)] }

def free (i : Nat) : Ledger :=
  l.modify i fun s => { s with state := .free }

-- A grant is ended by showing it, and only once.
structure Faithful : Prop where
  own : ∀ e ∈ l.ended, e.1 = e.2
  once : (l.ended.map (·.2)).Nodup

-- How the state of a slot and the grants go together with its place.
def Slot.Fits (i : Nat) (s : Slot) : Prop :=
  match s.place with
  | .pool | .taken _ => s.state = .free
  | .lent n => s.state = .held ∧ l.grants[n]? = some ⟨i, s.generation⟩ ∧
    n ∉ l.ended.map (·.2)
  | .leaving n _ => s.state = .returning ∧ l.grants[n]? = some ⟨i, s.generation⟩ ∧
    n ∉ l.ended.map (·.2)
  | .back _ => s.state ≠ .held

structure Sound : Prop extends l.Faithful where
  fits : ∀ i, (l.slots i).Fits l i
  known : ∀ e ∈ l.ended, e.2 < l.grants.length
  -- A slot is lent for a grant until the grant has ended.
  live : ∀ (n : Nat) g, l.grants[n]? = some g → n ∉ l.ended.map (·.2) →
    (l.slots g.slot).place.grant = some n

-- What a turn of a thread leaves alone: the slots that are in the hands of others, and the grants that
-- were made.
structure Effect (t : Nat) (l l' : Ledger) : Prop where
  kept : ∀ i u, u ≠ t → (l.slots i).place.thread = some u →
    (l'.slots i).place = (l.slots i).place ∧ (l'.slots i).state = (l.slots i).state ∧
      (l'.slots i).generation = (l.slots i).generation
  others : ∀ i u, u ≠ t → (l'.slots i).place.thread = some u → (l.slots i).place.thread = some u
  grants : ∀ (n : Nat) g, l.grants[n]? = some g → l'.grants[n]? = some g
  made : ∀ (n : Nat) g, l'.grants[n]? = some g → l.grants[n]? = some g ∨
    (l.slots g.slot).place.thread = some t

variable {l} {l' : Ledger} {t i j n generation : Nat} {f : Slot → Slot}

theorem slots_modify (j : Nat) :
    (l.modify i f).slots j = if j = i then f (l.slots j) else l.slots j := by
  by_cases h : j = i
  case pos =>
    subst h
    rw [if_pos rfl]
    exact Function.update_self ..
  case neg =>
    rw [if_neg h]
    exact Function.update_of_ne h ..

theorem slots_modify_self : (l.modify i f).slots i = f (l.slots i) := by
  rw [slots_modify, if_pos rfl]

theorem slots_modify_of_ne (h : j ≠ i) : (l.modify i f).slots j = l.slots j := by
  rw [slots_modify, if_neg h]

theorem lend_eq_some (h : l.lend i generation = some l') :
    (l.slots i).state = .free ∧ (l'.slots i).place = .lent l.grants.length ∧
      (∀ j, j ≠ i → l'.slots j = l.slots j) ∧ l'.grants = l.grants ++ [⟨i, generation⟩] ∧
      ∀ j, (l'.slots j).generation = (l.slots j).generation ∧ (l'.slots j).checked = (l.slots j).checked := by
  unfold lend at h
  split at h
  case isFalse => cases h
  case isTrue hf =>
    cases h
    refine ⟨hf, ?_, fun j hj => ?_, rfl, fun j => ?_⟩
    case refine_1 =>
      dsimp only
      rw [slots_modify_self]
    case refine_2 =>
      dsimp only
      rw [slots_modify_of_ne hj]
    case refine_3 =>
      dsimp only
      rw [slots_modify]
      split <;> exact ⟨rfl, rfl⟩

theorem lend_ended (h : l.lend i generation = some l') : l'.ended = l.ended := by
  unfold lend at h
  have ⟨_, h⟩ := Option.ite_none_right_eq_some.mp h
  cases h
  rfl

theorem check_place (h : l.check t i generation = some l') (j : Nat) :
    (l'.slots j).place = (l.slots j).place := by
  unfold check at h
  split at h
  case isFalse => cases h
  case isTrue =>
    cases h
    rw [slots_modify]
    split <;> rfl

theorem switch_ended : (l.switch t i).1.ended = l.ended := by
  by_cases hs : (l.slots i).state = .held
  · simp only [switch, if_pos hs]
    rfl
  · simp only [switch, if_neg hs]
    rfl

theorem switch_slots_of_ne (h : j ≠ i) : (l.switch t i).1.slots j = l.slots j := by
  by_cases hs : (l.slots i).state = .held
  · simp only [switch, if_pos hs, slots_modify_of_ne h]
  · simp only [switch, if_neg hs, slots_modify_of_ne h]

theorem finish_slots : (l.finish t n i).slots =
    (l.modify i fun s => { s with place := .back t }).slots := rfl

theorem Effect.refl (t : Nat) (l : Ledger) : Effect t l l :=
  ⟨fun _ _ _ _ => ⟨rfl, rfl, rfl⟩, fun _ _ _ h => h, fun _ _ h => h, fun _ _ h => .inl h⟩

-- A thread that has a slot in its hands, or that deals with a slot that nobody has, disturbs nobody.
theorem Effect.of_slot (h : ∀ u, u ≠ t → (l.slots i).place.thread ≠ some u)
    (h' : ∀ u, u ≠ t → (l'.slots i).place.thread ≠ some u) (hj : ∀ j, j ≠ i → l'.slots j = l.slots j)
    (grants : ∀ (n : Nat) g, l.grants[n]? = some g → l'.grants[n]? = some g)
    (made : ∀ (n : Nat) g, l'.grants[n]? = some g → l.grants[n]? = some g ∨
      (l.slots g.slot).place.thread = some t) : Effect t l l' := by
  refine ⟨fun j u hu hp => ?_, fun j u hu hp => ?_, grants, made⟩
  all_goals
    have hne : j ≠ i := by
      rintro rfl
      first | exact h u hu hp | exact h' u hu hp
  · rw [hj j hne]
    exact ⟨rfl, rfl, rfl⟩
  · rwa [hj j hne] at hp

theorem Effect.modify (h : ∀ u, u ≠ t → (l.slots i).place.thread ≠ some u)
    (h' : ∀ u, u ≠ t → (f (l.slots i)).place.thread ≠ some u) : Effect t l (l.modify i f) := by
  refine .of_slot h ?_ (fun j hj => slots_modify_of_ne hj) (fun _ _ h => h) (fun _ _ h => .inl h)
  rw [slots_modify_self]
  exact h'

-- Looking at a slot disturbs nobody, whoever has it.
theorem Effect.checked {g : List Nat → List Nat} :
    Effect t l (l.modify i fun s => { s with checked := g s.checked }) := by
  have same : ∀ j, ((l.modify i fun s => { s with checked := g s.checked }).slots j).place =
      (l.slots j).place := fun j => by
    rw [slots_modify]
    split <;> rfl
  refine ⟨fun j u _ _ => ⟨same j, ?_, ?_⟩, fun j u _ h => ?_, fun _ _ h => h, fun _ _ h => .inl h⟩
  case refine_1 =>
    rw [slots_modify]
    split <;> rfl
  case refine_2 =>
    rw [slots_modify]
    split <;> rfl
  case refine_3 => rwa [same] at h

theorem ne_thread_of_none {p : Place} (h : p.thread = none) (u : Nat) : p.thread ≠ some u := by
  rw [h]
  exact nofun

theorem ne_thread_of_mine {p : Place} (h : p.thread = some t) {u : Nat} (hu : u ≠ t) :
    p.thread ≠ some u := by
  rw [h]
  exact fun he => hu (Option.some.inj he).symm

namespace Sound

variable (sound : l.Sound)

include sound

theorem modify (h : (f (l.slots i)).Fits l i)
    (hg : (f (l.slots i)).place.grant = (l.slots i).place.grant) : (l.modify i f).Sound := by
  refine ⟨⟨sound.own, sound.once⟩, fun j => ?_, sound.known, fun n g hn he => ?_⟩
  case refine_1 =>
    rw [slots_modify]
    split
    case isTrue hj =>
      subst hj
      exact h
    case isFalse => exact sound.fits j
  case refine_2 =>
    have hlive := sound.live n g hn he
    rw [slots_modify]
    split
    case isTrue hj =>
      rw [hj] at hlive ⊢
      rw [hg, hlive]
    case isFalse => exact hlive

theorem grant_of_free (h : (l.slots i).state = .free) : (l.slots i).place.grant = none := by
  have hf := sound.fits i
  unfold Slot.Fits at hf
  split at hf
  case h_3 => exact absurd (h.symm.trans hf.1) (by decide)
  case h_4 => exact absurd (h.symm.trans hf.1) (by decide)
  case h_5 hp => rw [hp]; rfl
  case h_1 hp => rw [hp]; rfl
  case h_2 hp => rw [hp]; rfl

theorem free_of_pool (h : (l.slots i).place = .pool) : (l.slots i).state = .free := by
  have hf := sound.fits i
  rw [Slot.Fits, h] at hf
  exact hf

theorem free_of_taken (h : (l.slots i).place = .taken t) : (l.slots i).state = .free := by
  have hf := sound.fits i
  rw [Slot.Fits, h] at hf
  exact hf

theorem lent (h : (l.slots i).place = .lent n) : (l.slots i).state = .held ∧
    l.grants[n]? = some ⟨i, (l.slots i).generation⟩ ∧ n ∉ l.ended.map (·.2) := by
  have hf := sound.fits i
  rw [Slot.Fits, h] at hf
  exact hf

theorem leaving (h : (l.slots i).place = .leaving n t) : (l.slots i).state = .returning ∧
    l.grants[n]? = some ⟨i, (l.slots i).generation⟩ ∧ n ∉ l.ended.map (·.2) := by
  have hf := sound.fits i
  rw [Slot.Fits, h] at hf
  exact hf

theorem lent_of_held (h : (l.slots i).state = .held) : ∃ n, (l.slots i).place = .lent n := by
  have hf := sound.fits i
  rw [Slot.Fits] at hf
  split at hf
  case h_1 => exact absurd (h.symm.trans hf) (by decide)
  case h_2 => exact absurd (h.symm.trans hf) (by decide)
  case h_3 n hp => exact ⟨n, hp⟩
  case h_4 => exact absurd (h.symm.trans hf.1) (by decide)
  case h_5 => exact absurd h hf

theorem grant (h : (l.slots i).place.grant = some n) :
    l.grants[n]? = some ⟨i, (l.slots i).generation⟩ ∧ n ∉ l.ended.map (·.2) := by
  cases hp : (l.slots i).place
  case lent m =>
    rw [hp] at h
    cases h
    exact (sound.lent hp).2
  case leaving m u =>
    rw [hp] at h
    cases h
    exact (sound.leaving hp).2
  all_goals
    rw [hp] at h
    cases h

theorem slot_unique (hi : (l.slots i).place.grant = some n) (hj : (l.slots j).place.grant = some n) :
    i = j := by
  have he := (sound.grant hi).1.symm.trans (sound.grant hj).1
  simp only [Option.some.injEq, Grant.mk.injEq] at he
  exact he.1

theorem take (h : (l.slots i).place = .pool) : (l.take t i).Sound :=
  sound.modify (sound.free_of_pool h) (by rw [h]; rfl)

theorem putBack (h : (l.slots i).state = .free) : (l.putBack i).Sound :=
  sound.modify h (sound.grant_of_free h).symm

theorem advance (h : (l.slots i).place = .taken t) : (l.advance i).Sound := by
  refine sound.modify ?_ rfl
  simp only [Slot.Fits, h]
  exact sound.free_of_taken h

theorem free (h : (l.slots i).place = .back t) : (l.free i).Sound := by
  refine sound.modify ?_ rfl
  simp only [Slot.Fits, h]
  decide

theorem restore (h : (l.slots i).place = .leaving n t) : (l.restore i).Sound := by
  refine sound.modify ?_ (by simp only [h, Place.grant])
  simp only [Slot.Fits, h]
  exact ⟨trivial, (sound.leaving h).2⟩

theorem lend (hp : (l.slots i).place = .taken t) (hg : (l.slots i).generation = generation)
    (h : l.lend i generation = some l') : l'.Sound := by
  rw [Ledger.lend, if_pos (sound.free_of_taken hp)] at h
  cases h
  have old : ∀ {n : Nat} {g : Grant}, l.grants[n]? = some g →
      (l.grants ++ [⟨i, generation⟩])[n]? = some g := fun h => by
    rw [List.getElem?_append_left (List.getElem?_eq_some_iff.mp h).1, h]
  have fresh : l.grants.length ∉ l.ended.map (·.2) := by
    intro hm
    have ⟨e, he, heq⟩ := List.mem_map.mp hm
    exact absurd (sound.known e he) (heq ▸ Nat.lt_irrefl _)
  refine ⟨⟨sound.own, sound.once⟩, fun j => ?_, fun e he => ?_, fun n g hn he => ?_⟩
  case refine_1 =>
    dsimp only
    rw [slots_modify]
    split
    case isTrue hj =>
      subst hj
      exact ⟨rfl, hg ▸ List.getElem?_concat_length, fresh⟩
    case isFalse =>
      have hf := sound.fits j
      unfold Slot.Fits at hf ⊢
      split at hf
      case h_3 => exact ⟨hf.1, old hf.2.1, hf.2.2⟩
      case h_4 => exact ⟨hf.1, old hf.2.1, hf.2.2⟩
      all_goals exact hf
  case refine_2 =>
    rw [List.length_append]
    exact Nat.lt_add_right _ (sound.known e he)
  case refine_3 =>
    dsimp only at hn ⊢
    rcases Nat.lt_or_ge n l.grants.length with hlt | hle
    case inl =>
      -- The slot is not lent yet, so that the older grant has another one.
      rw [List.getElem?_append_left hlt] at hn
      have hlive := sound.live n g hn he
      have hne : g.slot ≠ i := fun heq => by
        rw [heq, hp] at hlive
        cases hlive
      rw [slots_modify_of_ne hne, hlive]
    case inr =>
      have ⟨hlast, _⟩ := List.getElem?_eq_some_iff.mp hn
      rw [List.length_append, List.length_singleton] at hlast
      obtain rfl : n = l.grants.length := by omega
      rw [List.getElem?_concat_length] at hn
      cases hn
      rw [slots_modify_self]
      rfl

theorem switch_lent (h : (l.slots i).place = .lent n) :
    l.switch t i = (l.modify i fun s => { s with
      checked := s.checked.erase t, state := .returning, place := .leaving n t }, true) := by
  simp only [Ledger.switch, (sound.lent h).1, if_true, h]
  rfl

theorem switch (h : ∀ m, (l.slots i).place = .lent m → m = n) :
    (l.switch t i).1.Sound := by
  by_cases hs : (l.slots i).state = .held
  case pos =>
    have ⟨m, hp⟩ := sound.lent_of_held hs
    cases h m hp
    rw [sound.switch_lent hp]
    dsimp only
    refine sound.modify ?_ (by rw [hp]; rfl)
    exact ⟨rfl, (sound.lent hp).2⟩
  case neg =>
    simp only [Ledger.switch, if_neg hs]
    exact sound.modify (sound.fits i) rfl

-- The grant that is shown is the one that is ended.
theorem finish (h : (l.slots i).place = .leaving n t) : (l.finish t n i).Sound := by
  have ⟨hs, hg, hn⟩ := sound.leaving h
  have hended : (l.finish t n i).ended = l.ended ++ [(n, n)] := by
    simp only [Ledger.finish, h, Place.grant, Option.getD_some]
  refine ⟨⟨fun e he => ?_, ?_⟩, fun j => ?_, fun e he => ?_, fun m g hm he => ?_⟩
  case refine_1 =>
    rw [hended, List.mem_append, List.mem_singleton] at he
    rcases he with he | he
    · exact sound.own e he
    · rw [he]
  case refine_2 =>
    rw [hended, List.map_append, List.map_singleton]
    refine List.nodup_append.mpr ⟨sound.once, List.nodup_singleton _, fun a ha b hb => ?_⟩
    rw [List.mem_singleton.mp hb]
    rintro rfl
    exact hn ha
  case refine_3 =>
    change Slot.Fits _ j ((l.modify i fun s => { s with place := .back t }).slots j)
    rw [slots_modify]
    split
    case isTrue hj =>
      subst hj
      change (l.slots j).state ≠ .held
      rw [hs]
      decide
    case isFalse hj =>
      have other : ∀ {m}, (l.slots j).place.grant = some m → m ∉ (l.finish t n i).ended.map (·.2) :=
        fun {m} hm => by
        rw [hended, List.map_append, List.map_singleton, List.mem_append, List.mem_singleton, not_or]
        refine ⟨(sound.grant hm).2, fun he => hj ?_⟩
        exact sound.slot_unique hm (by rw [h, he]; rfl)
      have hf := sound.fits j
      unfold Slot.Fits at hf ⊢
      split at hf
      case h_3 m hp => exact ⟨hf.1, hf.2.1, other (by rw [hp]; rfl)⟩
      case h_4 m u hp => exact ⟨hf.1, hf.2.1, other (by rw [hp]; rfl)⟩
      all_goals exact hf
  case refine_4 =>
    rw [hended, List.mem_append, List.mem_singleton] at he
    rcases he with he | he
    · exact sound.known e he
    · rw [he]
      exact (List.getElem?_eq_some_iff.mp hg).1
  case refine_5 =>
    rw [hended, List.map_append, List.map_singleton, List.mem_append, List.mem_singleton, not_or] at he
    have hlive := sound.live m g hm he.1
    have hne : g.slot ≠ i := fun heq => by
      rw [heq, h] at hlive
      exact he.2 (Option.some.inj hlive).symm
    rw [finish_slots, slots_modify_of_ne hne, hlive]

end Sound

-- What each operation leaves alone.
namespace Effect

theorem take (h : (l.slots i).place = .pool) : Effect t l (l.take t i) :=
  .modify (fun u _ => ne_thread_of_none (by rw [h]; rfl) u) fun _ hu => ne_thread_of_mine rfl hu

section

variable (h : (l.slots i).place.thread = some t)
include h

theorem putBack : Effect t l (l.putBack i) :=
  .modify (fun _ hu => ne_thread_of_mine h hu) fun _ _ => nofun

theorem mine (h' : (f (l.slots i)).place = (l.slots i).place) :
    Effect t l (l.modify i f) :=
  .modify (fun _ hu => ne_thread_of_mine h hu) fun _ hu => ne_thread_of_mine (by rw [h', h]) hu

theorem advance : Effect t l (l.advance i) :=
  .mine h rfl

theorem free : Effect t l (l.free i) :=
  .mine h rfl

end

theorem lend (hp : (l.slots i).place.thread = some t) (h : l.lend i generation = some l') :
    Effect t l l' := by
  have ⟨_, hplace, hj, hg, _⟩ := lend_eq_some h
  refine .of_slot (fun _ hu => ne_thread_of_mine hp hu)
    (fun u _ => ne_thread_of_none (by rw [hplace]; rfl) u) hj (fun n g hm => ?_) (fun n g hm => ?_)
  case refine_1 =>
    rw [hg, List.getElem?_append_left (List.getElem?_eq_some_iff.mp hm).1, hm]
  case refine_2 =>
    rw [hg] at hm
    rcases Nat.lt_or_ge n l.grants.length with hn | hn
    · exact .inl ((List.getElem?_append_left hn).symm.trans hm)
    · rw [List.getElem?_append_right hn, List.getElem?_singleton] at hm
      split at hm
      · cases hm
        exact .inr hp
      · cases hm

theorem switch (sound : l.Sound) : Effect t l (l.switch t i).1 := by
  by_cases hs : (l.slots i).state = .held
  case pos =>
    have ⟨m, hp⟩ := sound.lent_of_held hs
    rw [sound.switch_lent hp]
    dsimp only
    exact .modify (fun u _ => ne_thread_of_none (by rw [hp]; rfl) u) fun _ hu => ne_thread_of_mine rfl hu
  case neg =>
    simp only [Ledger.switch, if_neg hs]
    exact .checked (g := (·.erase t))

theorem restore (h : (l.slots i).place = .leaving n t) : Effect t l (l.restore i) := by
  refine .modify (fun _ hu => ne_thread_of_mine (by rw [h]; rfl) hu) fun u _ => ?_
  simp only [h]
  exact nofun

theorem finish (h : (l.slots i).place.thread = some t) : Effect t l (l.finish t n i) := by
  refine .of_slot (i := i) (fun _ hu => ne_thread_of_mine h hu) (fun u hu => ?_)
    (fun j hj => slots_modify_of_ne (f := fun s => { s with place := .back t }) hj)
    (fun _ _ h => h) (fun _ _ h => .inl h)
  change ((l.modify i fun s => { s with place := .back t }).slots i).place.thread ≠ some u
  rw [slots_modify_self]
  exact ne_thread_of_mine rfl hu

end Effect

-- How many of the first `n` slots are lent.
def lentCount (l : Ledger) (n : Nat) : Nat :=
  (List.range n).countP fun i => (l.slots i).place.grant.isSome

theorem countP_range_of_ne {P Q : Nat → Bool} (hi : i < n) (h : ∀ j, j ≠ i → P j = Q j) :
    (List.range n).countP P + (Q i).toNat = (List.range n).countP Q + (P i).toNat := by
  induction n
  case zero => cases hi
  case succ n ih =>
    rw [List.range_succ, List.countP_append, List.countP_append, List.countP_singleton,
      List.countP_singleton]
    rcases Nat.lt_or_eq_of_le (Nat.le_of_lt_succ hi) with hn | rfl
    case inl =>
      have := ih hn
      rw [h n (by omega)]
      omega
    case inr =>
      have he : (List.range i).countP P = (List.range i).countP Q := by
        refine List.countP_congr fun j hj => ?_
        rw [h j (by have := List.mem_range.mp hj; omega)]
      rw [he]
      cases P i <;> cases Q i <;> simp

theorem lentCount_congr (h : ∀ i, (l'.slots i).place.grant.isSome = (l.slots i).place.grant.isSome) :
    l'.lentCount n = l.lentCount n :=
  List.countP_congr fun i _ => by rw [h i]

theorem lentCount_pos (hi : i < n) (h : (l.slots i).place.grant.isSome) : 0 < l.lentCount n :=
  List.countP_pos_iff.mpr ⟨i, List.mem_range.mpr hi, h⟩

theorem lentCount_of_slot (hi : i < n) (hj : ∀ j, j ≠ i → l'.slots j = l.slots j) :
    l'.lentCount n + (l.slots i).place.grant.isSome.toNat =
      l.lentCount n + (l'.slots i).place.grant.isSome.toNat :=
  countP_range_of_ne (P := fun i => (l'.slots i).place.grant.isSome)
    (Q := fun i => (l.slots i).place.grant.isSome) hi fun j h => by rw [hj j h]

-- The generations tell the grants of a slot apart, as long as the counter does not start over.
structure Stamped (l : Ledger) : Prop where
  older : ∀ g ∈ l.grants, g.generation ≤ (l.slots g.slot).generation
  nodup : l.grants.Nodup

def Fresh (l : Ledger) (i : Nat) : Prop :=
  ∀ g ∈ l.grants, g.slot = i → g.generation < (l.slots i).generation

-- A thread that looks at a slot finds it in the same generation when it comes back.
def Watches (l : Ledger) (u i generation : Nat) : Prop :=
  u ∈ (l.slots i).checked ∧ (l.slots i).generation = generation

-- The generation of a slot can be counted on without another thread being misled by it.
def unseen (l : Ledger) (i : Nat) : Bool :=
  (l.slots i).checked.isEmpty && decide ((l.slots i).generation + 1 < 2 ^ 64)

-- What a turn of a thread leaves alone: the generations of slots that others look at.
def Unwatched (t : Nat) (l l' : Ledger) : Prop :=
  ∀ i u, u ≠ t → u ∈ (l.slots i).checked →
    u ∈ (l'.slots i).checked ∧ (l'.slots i).generation = (l.slots i).generation

-- What an operation that does not advance a generation does to generations and to who looks at them.
structure Stays (t : Nat) (l l' : Ledger) : Prop where
  generation : ∀ i, (l'.slots i).generation = (l.slots i).generation
  checked : ∀ i u, u ≠ t → u ∈ (l.slots i).checked → u ∈ (l'.slots i).checked

theorem Stays.refl (t : Nat) (l : Ledger) : Stays t l l :=
  ⟨fun _ => rfl, fun _ _ _ h => h⟩

theorem Stays.stamped (h : Stays t l l') (hg : l'.grants = l.grants) (hs : l.Stamped) : l'.Stamped :=
  ⟨fun g hm => h.generation g.slot ▸ hs.older g (hg ▸ hm), hg ▸ hs.nodup⟩

theorem Stays.unwatched (h : Stays t l l') : Unwatched t l l' :=
  fun i u hu hm => ⟨h.checked i u hu hm, h.generation i⟩

theorem Stays.modify (hg : (f (l.slots i)).generation = (l.slots i).generation)
    (hc : ∀ u, u ≠ t → u ∈ (l.slots i).checked → u ∈ (f (l.slots i)).checked) :
    Stays t l (l.modify i f) := by
  refine ⟨fun j => ?_, fun j u hu h => ?_⟩
  all_goals
    rw [slots_modify]
    split
  case refine_1.isTrue hj =>
    subst hj
    exact hg
  case refine_1.isFalse => rfl
  case refine_2.isTrue hj =>
    subst hj
    exact hc u hu h
  case refine_2.isFalse => exact h

namespace Stays

theorem take : Stays t l (l.take t i) := .modify rfl fun _ _ h => h

theorem putBack : Stays t l (l.putBack i) := .modify rfl fun _ _ h => h

theorem restore : Stays t l (l.restore i) := .modify rfl fun _ _ h => h

theorem finish : Stays t l (l.finish t n i) :=
  have h : Stays t l (l.modify i fun s => { s with place := .back t }) := .modify rfl fun _ _ h => h
  ⟨h.generation, h.checked⟩

theorem free : Stays t l (l.free i) := .modify rfl fun _ _ h => h

theorem check (h : l.check t i generation = some l') : Stays t l l' ∧ l'.grants = l.grants := by
  unfold Ledger.check at h
  split at h
  case isFalse => cases h
  case isTrue =>
    cases h
    exact ⟨.modify rfl fun _ _ h => List.mem_cons_of_mem _ h, rfl⟩

theorem switch : Stays t l (l.switch t i).1 ∧ (l.switch t i).1.grants = l.grants := by
  have erased : ∀ u, u ≠ t → u ∈ (l.slots i).checked → u ∈ (l.slots i).checked.erase t :=
    fun u hu h => (List.mem_erase_of_ne hu).mpr h
  by_cases hs : (l.slots i).state = .held
  case pos =>
    simp only [Ledger.switch, if_pos hs]
    exact ⟨.modify rfl erased, rfl⟩
  case neg =>
    simp only [Ledger.switch, if_neg hs]
    exact ⟨.modify rfl erased, rfl⟩

end Stays

theorem watches_of_check (h : l.check t i generation = some l') : l'.Watches t i generation := by
  unfold check at h
  split at h
  case isFalse => cases h
  case isTrue hg =>
    cases h
    unfold Watches
    rw [slots_modify_self]
    exact ⟨List.mem_cons_self, hg⟩

theorem unseen_iff : l.unseen i ↔ (l.slots i).checked = [] ∧ (l.slots i).generation + 1 < 2 ^ 64 := by
  simp [unseen]

theorem Stamped.advance (h : l.Stamped) (hw : (l.slots i).generation + 1 < 2 ^ 64) :
    (l.advance i).Stamped ∧ (l.advance i).Fresh i := by
  have hi : ((l.advance i).slots i).generation = (l.slots i).generation + 1 := by
    rw [Ledger.advance, slots_modify_self]
    exact Nat.mod_eq_of_lt hw
  refine ⟨⟨fun g hg => ?_, h.nodup⟩, fun g hg hs => ?_⟩
  case refine_1 =>
    have := h.older g hg
    by_cases hs : g.slot = i
    · rw [hs] at this ⊢
      omega
    · rw [Ledger.advance, slots_modify_of_ne hs]
      exact this
  case refine_2 =>
    have := h.older g hg
    rw [hs] at this
    omega

theorem Unwatched.advance (h : (l.slots i).checked = []) : Unwatched t l (l.advance i) := by
  intro j u _ hm
  by_cases hj : j = i
  case pos =>
    rw [hj, h] at hm
    cases hm
  case neg =>
    rw [Ledger.advance, slots_modify_of_ne hj]
    exact ⟨hm, rfl⟩

theorem Stamped.lend (h : l.Stamped) (hf : l.Fresh i) (hi : (l.slots i).generation = generation)
    (hl : l.lend i generation = some l') : l'.Stamped := by
  have ⟨_, _, _, hg, hs⟩ := lend_eq_some hl
  refine ⟨fun g hm => ?_, ?_⟩
  case refine_1 =>
    rw [(hs g.slot).1]
    rw [hg, List.mem_append, List.mem_singleton] at hm
    rcases hm with hm | hm
    · exact h.older g hm
    · rw [hm]
      exact Nat.le_of_eq hi.symm
  case refine_2 =>
    rw [hg]
    refine List.nodup_append.mpr ⟨h.nodup, List.nodup_singleton _, fun a ha b hb => ?_⟩
    rw [List.mem_singleton.mp hb]
    rintro rfl
    exact absurd (hf _ ha rfl) (by rw [hi]; exact Nat.lt_irrefl _)

-- A thread that still looks at the generation of its grant can only end this grant.
theorem Sound.own_of_watches (sound : l.Sound) (h : l.Stamped) {m : Nat} {g : Grant}
    (hn : l.grants[n]? = some g) (hw : l.Watches t g.slot g.generation)
    (hp : (l.slots g.slot).place = .lent m) : m = n := by
  have hm := (sound.lent hp).2.1
  rw [hw.2] at hm
  have ⟨hlt, he⟩ := List.getElem?_eq_some_iff.mp hn
  have ⟨hlt', he'⟩ := List.getElem?_eq_some_iff.mp hm
  exact (h.nodup.getElem_inj_iff).mp (he'.trans he.symm)

end Ledger
