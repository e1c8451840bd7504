import Mathlib.Data.List.Basic
import Mathlib.Data.List.GetD
import Mathlib.Order.Basic

-- Open addressing with linear probing. Entries are only ever added.
namespace Probe

variable {κ : Type}

inductive Found (κ : Type)
  | entry (e : κ)
  | vacant (slot : Nat)
  | full

def search (slots : List (Option κ)) (same : κ → Bool) : Nat → Nat → Found κ
  | 0, _ => .full
  | probes + 1, slot =>
    match slots.getD (slot % slots.length) none with
    | none => .vacant (slot % slots.length)
    | some e => if same e then .entry e else search slots same probes (slot + 1)

def find (slots : List (Option κ)) (same : κ → Bool) (hash : Nat) : Found κ :=
  search slots same slots.length (hash % slots.length)

variable {slots : List (Option κ)} {same : κ → Bool} {hash : κ → Nat} {i probes slot n : Nat}
  {e : κ}

theorem mem_of_getD (h : slots.getD i none = some e) : some e ∈ slots := by
  by_cases hlt : i < slots.length
  case pos =>
    rw [List.getD_eq_getElem _ _ hlt] at h
    exact h ▸ List.getElem_mem hlt
  case neg => simp [hlt] at h

theorem mem_of_search (h : search slots same probes slot = .entry e) :
    some e ∈ slots ∧ same e := by
  induction probes generalizing slot
  case zero => cases h
  case succ probes ih =>
    unfold search at h
    split at h
    case h_1 => cases h
    case h_2 e' hs =>
      split at h
      case isFalse => exact ih h
      case isTrue hsame =>
        cases h
        exact ⟨mem_of_getD hs, hsame⟩

theorem mem_of_find (h : find slots same n = .entry e) : some e ∈ slots ∧ same e :=
  mem_of_search h

theorem search_eq_vacant (h : search slots same probes slot = .vacant i) :
    ∃ k < probes, i = (slot + k) % slots.length ∧ slots.getD i none = none ∧
      ∀ j < k, ∃ e, slots.getD ((slot + j) % slots.length) none = some e ∧ same e = false := by
  induction probes generalizing slot
  case zero => cases h
  case succ probes ih =>
    unfold search at h
    split at h
    case h_1 hs =>
      cases h
      exact ⟨0, by omega, rfl, hs, by omega⟩
    case h_2 e hs =>
      split at h
      case isTrue => cases h
      case isFalse hsame =>
        have ⟨k, hk, hi, hn, hj⟩ := ih h
        refine ⟨k + 1, by omega, by rw [hi]; congr 1; omega, hn, fun j hj' => ?_⟩
        cases j
        case zero => exact ⟨e, hs, by simpa using hsame⟩
        case succ j =>
          have := hj j (by omega)
          rwa [Nat.add_right_comm, Nat.add_assoc] at this

-- Every entry is found on the way from the slot of its hash, without crossing a vacant slot.
def Placed (hash : κ → Nat) (slots : List (Option κ)) : Prop :=
  ∀ i e, slots.getD i none = some e → ∃ k < slots.length, i = (hash e + k) % slots.length ∧
    ∀ j < k, slots.getD ((hash e + j) % slots.length) none ≠ none

theorem placed_replicate (hash : κ → Nat) (n : Nat) : Placed hash (List.replicate n none) := by
  intro i e h
  rw [List.getD_eq_getElem?_getD, List.getElem?_replicate] at h
  split at h <;> simp at h

theorem find_eq_vacant (h : find slots same n = .vacant i) :
    ∃ k < slots.length, i = (n + k) % slots.length ∧ slots.getD i none = none ∧
      ∀ j < k, ∃ e, slots.getD ((n + j) % slots.length) none = some e ∧ same e = false := by
  have ⟨k, hk, hi, hn, hj⟩ := search_eq_vacant h
  refine ⟨k, hk, by rw [hi, Nat.mod_add_mod], hn, fun j hlt => ?_⟩
  have := hj j hlt
  rwa [Nat.mod_add_mod] at this

theorem lt_of_find (h : find slots same n = .vacant i) : i < slots.length := by
  have ⟨k, hk, hi, _⟩ := find_eq_vacant h
  rw [hi]
  exact Nat.mod_lt _ (by omega)

-- A vacant slot proves that no entry with the hash is the one that was looked for.
theorem not_same_of_vacant (hp : Placed hash slots) (h : find slots same n = .vacant i)
    (he : some e ∈ slots) (hn : hash e = n) : same e = false := by
  have ⟨k, hk, hi, hv, hj⟩ := find_eq_vacant h
  have ⟨i', hlt, hi'⟩ := List.mem_iff_getElem.mp he
  have hget : slots.getD i' none = some e := by rw [List.getD_eq_getElem _ _ hlt, hi']
  have ⟨k', hk', hik, hbefore⟩ := hp i' e hget
  rw [hn] at hik hbefore
  rcases Nat.lt_trichotomy k' k with hlt' | rfl | hgt
  case inl =>
    have ⟨e', he', hs⟩ := hj k' hlt'
    rw [← hik, hget] at he'
    cases he'
    exact hs
  case inr.inl => rw [hi, ← hik, hget] at hv; cases hv
  case inr.inr =>
    have := hbefore k hgt
    rw [← hi] at this
    exact absurd hv this

theorem mem_set_vacant {e' : κ} (h : find slots same n = .vacant i) :
    some e' ∈ slots.set i (some e) ↔ e' = e ∨ some e' ∈ slots := by
  have ⟨_, _, _, hv, _⟩ := find_eq_vacant h
  have hlt := lt_of_find h
  rw [List.getD_eq_getElem _ _ hlt] at hv
  constructor
  · intro hm
    rcases List.mem_or_eq_of_mem_set hm with hm | hm
    case inl => exact .inr hm
    case inr => exact .inl (Option.some.inj hm)
  · rintro (rfl | hm)
    · exact List.mem_set hlt _
    · have ⟨j, hj, hget⟩ := List.mem_iff_getElem.mp hm
      have hne : i ≠ j := by
        rintro rfl
        rw [hv] at hget
        cases hget
      exact List.mem_iff_getElem.mpr ⟨j, by rwa [List.length_set], by rw [List.getElem_set_ne hne, hget]⟩

-- Filling the vacant slot that was found keeps every entry in its place.
theorem Placed.set (hp : Placed hash slots) (h : find slots same (hash e) = .vacant i) :
    Placed hash (slots.set i (some e)) := by
  have ⟨k, hk, hi, hv, hj⟩ := find_eq_vacant h
  have hlt := lt_of_find h
  have fill : ∀ x, slots.getD x none ≠ none → (slots.set i (some e)).getD x none ≠ none := by
    intro x hx
    rw [List.getD_eq_getElem?_getD, List.getElem?_set]
    split
    case isTrue hix => subst hix; exact absurd hv hx
    case isFalse => rwa [← List.getD_eq_getElem?_getD]
  intro x e' hx
  rw [List.length_set]
  by_cases hix : i = x
  case pos =>
    subst hix
    rw [List.getD_eq_getElem?_getD, List.getElem?_set_self hlt] at hx
    cases hx
    refine ⟨k, hk, hi, fun j hlt' => fill _ ?_⟩
    have ⟨e', he', _⟩ := hj j hlt'
    rw [he']
    exact Option.some_ne_none e'
  case neg =>
    rw [List.getD_eq_getElem?_getD, List.getElem?_set_ne hix, ← List.getD_eq_getElem?_getD] at hx
    have ⟨k', hk', hik, hbefore⟩ := hp x e' hx
    exact ⟨k', hk', hik, fun j hlt' => fill _ (hbefore j hlt')⟩

theorem Placed.congr {hash' : κ → Nat} (hp : Placed hash slots)
    (h : ∀ e, some e ∈ slots → hash' e = hash e) : Placed hash' slots := by
  intro i e he
  rw [h e (mem_of_getD he)]
  exact hp i e he

theorem search_of_getD {k : Nat} (hk : k < probes)
    (he : slots.getD ((slot + k) % slots.length) none = some e) (hs : same e)
    (hbefore : ∀ j < k, slots.getD ((slot + j) % slots.length) none ≠ none)
    (hunique : ∀ e', some e' ∈ slots → same e' → e' = e) :
    search slots same probes slot = .entry e := by
  induction probes generalizing slot k
  case zero => omega
  case succ probes ih =>
    unfold search
    cases k
    case zero => rw [show slots.getD (slot % slots.length) none = some e from he]; simp [hs]
    case succ k =>
      cases hslot : slots.getD (slot % slots.length) none
      case none => exact absurd hslot (hbefore 0 (Nat.succ_pos k))
      case some e' =>
        simp only
        split
        case isTrue hsame => rw [hunique e' (mem_of_getD hslot) hsame]
        case isFalse =>
          refine ih (k := k) (by omega) ?_ fun j hj => ?_
          · rwa [Nat.add_right_comm, Nat.add_assoc]
          · rw [Nat.add_right_comm, Nat.add_assoc]
            exact hbefore (j + 1) (by omega)

theorem find_of_placed (hp : Placed hash slots) (he : some e ∈ slots) (hs : same e)
    (hunique : ∀ e', some e' ∈ slots → same e' → e' = e) : find slots same (hash e) = .entry e := by
  have ⟨i, hi, hget⟩ := List.mem_iff_getElem.mp he
  have hget : slots.getD i none = some e := by rw [List.getD_eq_getElem _ _ hi, hget]
  have ⟨k, hk, hik, hbefore⟩ := hp i e hget
  refine search_of_getD hk ?_ hs ?_ hunique
  · rwa [Nat.mod_add_mod, ← hik]
  · intro j hj
    rw [Nat.mod_add_mod]
    exact hbefore j hj

-- A search that visits all slots fails only if there is no vacant one.
theorem search_eq_full (h : search slots same probes slot = .full) :
    ∀ j < probes, slots.getD ((slot + j) % slots.length) none ≠ none := by
  induction probes generalizing slot
  case zero => omega
  case succ probes ih =>
    unfold search at h
    split at h
    case h_1 => cases h
    case h_2 e hs =>
      split at h
      case isTrue => cases h
      case isFalse =>
        intro j hj
        cases j
        case zero => rw [Nat.add_zero, hs]; exact Option.some_ne_none e
        case succ j =>
          have := ih h j (by omega)
          rwa [Nat.add_right_comm, Nat.add_assoc] at this

theorem find_ne_full (h : none ∈ slots) (n : Nat) : find slots same n ≠ .full := by
  intro hf
  have ⟨i, hi, hget⟩ := List.mem_iff_getElem.mp h
  have hlt : n % slots.length < slots.length := Nat.mod_lt _ (by omega)
  have := search_eq_full hf ((i + slots.length - n % slots.length) % slots.length)
    (Nat.mod_lt _ (by omega))
  rw [Nat.add_mod_mod, show n % slots.length + (i + slots.length - n % slots.length) = i + slots.length
    by omega, Nat.add_mod_right, Nat.mod_eq_of_lt hi, List.getD_eq_getElem _ _ hi, hget] at this
  exact this rfl

def filled (slots : List (Option κ)) : Nat := slots.countP Option.isSome

@[simp]
theorem filled_replicate (n : Nat) : filled (List.replicate n (none : Option κ)) = 0 := by
  simp [filled, List.countP_replicate]

theorem filled_set (h : find slots same n = .vacant i) :
    filled (slots.set i (some e)) = filled slots + 1 := by
  have ⟨_, _, _, hv, _⟩ := find_eq_vacant h
  have hlt := lt_of_find h
  rw [List.getD_eq_getElem _ _ hlt] at hv
  rw [filled, List.countP_set hlt, hv]
  rfl

theorem none_mem_of_filled (h : filled slots < slots.length) : none ∈ slots := by
  by_contra hn
  have : filled slots = slots.length := List.countP_eq_length.mpr fun e he => by
    cases e
    case none => exact absurd he hn
    case some => rfl
  omega

-- The entries that a table holds.
structure Table (hash : κ → Nat) (slots : List (Option κ)) (entries : List κ) : Prop where
  placed : Placed hash slots
  mem : ∀ e, some e ∈ slots ↔ e ∈ entries
  filled : filled slots = entries.length

theorem table_replicate (hash : κ → Nat) (n : Nat) : Table hash (List.replicate n none) [] where
  placed := placed_replicate hash n
  mem e := by simp [List.mem_replicate]
  filled := filled_replicate n

namespace Table

variable {entries : List κ}

theorem insert (h : Table hash slots entries) {e : κ} {i : Nat}
    (hf : find slots same (hash e) = .vacant i) :
    Table hash (slots.set i (some e)) (entries ++ [e]) where
  placed := h.placed.set hf
  mem e' := by rw [mem_set_vacant hf, h.mem, List.mem_append, List.mem_singleton, or_comm]
  filled := by rw [filled_set hf, h.filled, List.length_append, List.length_singleton]

theorem congr (h : Table hash slots entries) {hash' : κ → Nat}
    (hh : ∀ e ∈ entries, hash' e = hash e) : Table hash' slots entries where
  placed := h.placed.congr fun e he => hh e ((h.mem e).mp he)
  mem := h.mem
  filled := h.filled

-- A table that is not full either has the entry that is looked for or a vacant slot for it.
theorem find_cases (h : Table hash slots entries) (hroom : entries.length < slots.length) {n : Nat}
    (hhash : ∀ e ∈ entries, same e = true → hash e = n) :
    (∃ e ∈ entries, same e = true ∧ find slots same n = .entry e) ∨
      (∀ e ∈ entries, same e = false) ∧ ∃ i, find slots same n = .vacant i := by
  cases hf : find slots same n
  case entry e =>
    have ⟨hmem, hsame⟩ := mem_of_find hf
    exact .inl ⟨e, (h.mem e).mp hmem, hsame, rfl⟩
  case vacant i =>
    refine .inr ⟨fun e he => ?_, i, rfl⟩
    by_contra hsame
    rw [Bool.not_eq_false] at hsame
    have := not_same_of_vacant h.placed hf ((h.mem e).mpr he) (hhash e he hsame)
    rw [hsame] at this
    cases this
  case full =>
    exact absurd hf (find_ne_full (none_mem_of_filled (h.filled ▸ hroom)) n)

end Table
end Probe
