import Mathlib.Data.List.Sort
import Mathlib.Order.Basic

-- Binary search over a list. On a strictly ascending list it finds exactly the elements, each at its
-- only index.
namespace BinarySearch

variable {α : Type} [LinearOrder α]

-- The least index in `[lo, hi)` whose element is not below the target, or `hi`. The fuel bounds the
-- number of halvings.
def lowerBound (xs : List α) (target : α) : Nat → Nat → Nat → Nat
  | 0, lo, _ => lo
  | fuel + 1, lo, hi =>
    if lo < hi then
      let mid := (lo + hi) / 2
      match xs[mid]? with
      | none => lo
      | some x => if x < target then lowerBound xs target fuel (mid + 1) hi
                  else lowerBound xs target fuel lo mid
    else lo

def search (xs : List α) (target : α) : Option Nat :=
  let i := lowerBound xs target xs.length 0 xs.length
  if xs[i]? = some target then some i else none

variable {xs : List α} {target : α} {i : Nat}

theorem search_sound (h : search xs target = some i) :
    xs[i]? = some target := by
  simp only [search] at h
  split at h <;> simp_all

theorem lt_length_of_search (h : search xs target = some i) :
    i < xs.length :=
  List.getElem?_eq_some_iff.mp (search_sound h) |>.1

variable (hs : xs.Pairwise (· < ·))
include hs

theorem lowerBound_eq (hi : xs[i]? = some target) {fuel lo hi' : Nat} (hf : hi' - lo ≤ fuel)
    (hlo : lo ≤ i) (hhi : i ≤ hi') (hl : hi' ≤ xs.length) :
    lowerBound xs target fuel lo hi' = i := by
  have ⟨hlt, hx⟩ := List.getElem?_eq_some_iff.mp hi
  have mono := List.pairwise_iff_getElem.mp hs
  induction fuel generalizing lo hi'
  case zero => simp [lowerBound]; omega
  case succ fuel ih =>
    unfold lowerBound
    split
    case isFalse => omega
    case isTrue hlt' =>
      have hm : (lo + hi') / 2 < xs.length := by omega
      simp only [List.getElem?_eq_getElem hm]
      split
      case isTrue hc =>
        have : (lo + hi') / 2 < i := by
          by_contra hn
          rcases Nat.eq_or_lt_of_le (Nat.le_of_not_lt hn) with he | hl'
          · simp only [← he, hx, lt_irrefl] at hc
          · exact absurd hc (not_lt_of_ge (hx ▸ (mono i _ hlt hm hl').le))
        exact ih (by omega) (by omega) hhi hl
      case isFalse hc =>
        have : i ≤ (lo + hi') / 2 := by
          by_contra hn
          exact hc (hx ▸ mono _ i hm hlt (Nat.lt_of_not_le hn))
        exact ih (by omega) hlo this (by omega)

theorem lowerBound_partitions {fuel lo hi : Nat} (hf : hi - lo ≤ fuel)
    (hle : lo ≤ hi) (hl : hi ≤ xs.length) (hlo : ∀ j (hj : j < xs.length), j < lo → xs[j] < target)
    (hhi : ∀ j (hj : j < xs.length), hi ≤ j → target ≤ xs[j]) :
    lowerBound xs target fuel lo hi ≤ hi ∧
      ∀ j (hj : j < xs.length), xs[j] < target ↔ j < lowerBound xs target fuel lo hi := by
  have mono := List.pairwise_iff_getElem.mp hs
  have done {lo : Nat} (hlo : ∀ j (hj : j < xs.length), j < lo → xs[j] < target)
      (hhi : ∀ j (hj : j < xs.length), lo ≤ j → target ≤ xs[j]) :
      lo ≤ lo ∧ ∀ j (hj : j < xs.length), xs[j] < target ↔ j < lo :=
    ⟨le_rfl, fun j hj =>
      ⟨fun h => Nat.lt_of_not_le fun hn => not_lt_of_ge (hhi j hj hn) h, hlo j hj⟩⟩
  induction fuel generalizing lo hi
  case zero =>
    obtain rfl : lo = hi := by omega
    exact done hlo hhi
  case succ fuel ih =>
    unfold lowerBound
    split
    case isFalse =>
      obtain rfl : lo = hi := by omega
      exact done hlo hhi
    case isTrue =>
      have hm : (lo + hi) / 2 < xs.length := by omega
      simp only [List.getElem?_eq_getElem hm]
      split
      case isTrue hc =>
        refine @ih ((lo + hi) / 2 + 1) hi (by omega) (by omega) hl (fun i hi' hlt => ?_) hhi
        rcases Nat.lt_or_eq_of_le (Nat.le_of_lt_succ hlt) with h | rfl
        · exact (mono i _ hi' hm h).trans hc
        · exact hc
      case isFalse hc =>
        refine (@ih lo ((lo + hi) / 2) (by omega) (by omega) hm.le hlo fun i hi' hle => ?_).imp_left
          fun h => h.trans (by omega)
        rcases Nat.lt_or_eq_of_le hle with h | rfl
        · exact (not_lt.mp hc).trans (mono _ i hm hi' h).le
        · exact not_lt.mp hc

theorem search_eq_some_iff :
    search xs target = some i ↔ xs[i]? = some target where
  mp := search_sound
  mpr h := by
    have hlt := List.getElem?_eq_some_iff.mp h |>.1
    have : lowerBound xs target xs.length 0 xs.length = i :=
      lowerBound_eq hs h (by simp) (Nat.zero_le _) hlt.le le_rfl
    simp [search, this, h]

theorem search_isSome_iff :
    (search xs target).isSome ↔ target ∈ xs := by
  simp only [Option.isSome_iff_exists, search_eq_some_iff hs, List.mem_iff_getElem?]

theorem search_eq_none_iff :
    search xs target = none ↔ target ∉ xs := by
  rw [← search_isSome_iff hs]
  simp

end BinarySearch
