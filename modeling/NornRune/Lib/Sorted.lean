import Mathlib.Data.List.Sort

-- Sorting and dropping repetitions.
namespace Sorted

def compact : List Nat → List Nat
  | [] => []
  | [x] => [x]
  | x :: y :: l => if x = y then compact (y :: l) else x :: compact (y :: l)

def sortUnique (l : List Nat) : List Nat :=
  compact (l.insertionSort (· ≤ ·))

@[simp]
theorem mem_compact {l : List Nat} {a : Nat} : a ∈ compact l ↔ a ∈ l := by
  fun_induction compact l
  case case1 => rfl
  case case2 => rfl
  case case3 x l ih =>
    rw [ih]
    simp
  case case4 x y l _ ih => simp [ih]

@[simp]
theorem mem_sortUnique {l : List Nat} {a : Nat} : a ∈ sortUnique l ↔ a ∈ l := by
  rw [sortUnique, mem_compact, List.mem_insertionSort]

theorem pairwise_compact {l : List Nat} (h : l.Pairwise (· ≤ ·)) : (compact l).Pairwise (· < ·) := by
  fun_induction compact l
  case case1 => exact .nil
  case case2 => exact List.pairwise_singleton ..
  case case3 ih => exact ih h.of_cons
  case case4 x y l hne ih =>
    refine .cons (fun a ha => ?_) (ih h.of_cons)
    have hxy := List.rel_of_pairwise_cons h List.mem_cons_self
    rcases List.mem_cons.mp (mem_compact.mp ha) with rfl | ha
    · omega
    · have := List.rel_of_pairwise_cons h.of_cons ha
      omega

theorem pairwise_sortUnique (l : List Nat) : (sortUnique l).Pairwise (· < ·) :=
  pairwise_compact (l.pairwise_insertionSort _)

end Sorted
