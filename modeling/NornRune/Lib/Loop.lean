import Mathlib.Algebra.GroupWithZero.Nat
import Mathlib.Data.List.Basic
import Mathlib.Order.Basic

-- Loops whose number of rounds is not known in advance. A loop is given by its body, which either
-- goes on with a new state or stops with a result, and by a bound on its rounds.
namespace Loop

variable {σ α : Type}

-- `stuck` is the result of a loop that was not given enough rounds.
def run (stuck : α) (body : σ → σ ⊕ α) : Nat → σ → α
  | 0, _ => stuck
  | fuel + 1, s =>
    match body s with
    | .inl s => run stuck body fuel s
    | .inr a => a

variable {stuck : α} {body : σ → σ ⊕ α} {fuel : Nat} {s s' : σ} {a : α}

theorem run_of_inl (h : body s = .inl s') : run stuck body (fuel + 1) s = run stuck body fuel s' := by
  simp only [run, h]

theorem run_of_inr (h : body s = .inr a) : run stuck body (fuel + 1) s = a := by
  simp only [run, h]

-- What the body preserves holds when the loop stops, however it stops.
theorem run_invariant (Inv : σ → Prop) (Post : α → Prop) (hs : Post stuck)
    (step : ∀ s s', Inv s → body s = .inl s' → Inv s')
    (done : ∀ s a, Inv s → body s = .inr a → Post a) (h : Inv s) : Post (run stuck body fuel s) := by
  induction fuel generalizing s
  case zero => exact hs
  case succ fuel ih =>
    cases hb : body s
    case inl s' =>
      rw [run_of_inl hb]
      exact ih (step s s' h hb)
    case inr a =>
      rw [run_of_inr hb]
      exact done s a h hb

-- A loop of which every round decreases a measure or stops with a good result has a good result.
theorem run_of_measure {P : σ → Prop} {Q : α → Prop} (μ : σ → Nat)
    (step : ∀ s, P s → (∃ s', body s = .inl s' ∧ P s' ∧ μ s' < μ s) ∨ ∃ a, body s = .inr a ∧ Q a)
    (h : P s) (hf : μ s < fuel) : Q (run stuck body fuel s) := by
  induction fuel generalizing s
  case zero => omega
  case succ fuel ih =>
    rcases step s h with ⟨s', hb, h', hlt⟩ | ⟨a, hb, ha⟩
    · rw [run_of_inl hb]
      exact ih h' (by omega)
    · rw [run_of_inr hb]
      exact ha

-- A loop of which every round decreases a measure has its result before its rounds are used up.
theorem run_eq_of_measure {P : σ → Prop} (stuck' : α) (μ : σ → Nat)
    (step : ∀ s s', P s → body s = .inl s' → P s' ∧ μ s' < μ s) (h : P s) (hf : μ s < fuel) :
    run stuck body fuel s = run stuck' body fuel s := by
  induction fuel generalizing s
  case zero => omega
  case succ fuel ih =>
    cases hb : body s
    case inl s' =>
      have ⟨h', hlt⟩ := step s s' h hb
      rw [run_of_inl hb, run_of_inl hb, ih h' (by omega)]
    case inr a => rw [run_of_inr hb, run_of_inr hb]

section Visit

variable {fresh : α → Bool} {cost : Nat → Nat} {xs : List α} {x : α} {start i : Nat}

-- What it costs to visit the entries that are still fresh. The first of them is at position `start`.
def pending (fresh : α → Bool) (cost : Nat → Nat) : (start : Nat) → List α → Nat
  | _, [] => 0
  | start, x :: xs => (if fresh x then cost start else 0) + pending fresh cost (start + 1) xs

theorem pending_set (hx : fresh x = false) :
    pending fresh cost start (xs.set i x) + (if (xs[i]?).any fresh then cost (start + i) else 0) =
      pending fresh cost start xs := by
  induction xs generalizing start i
  case nil => simp
  case cons y xs ih =>
    cases i
    case zero => simp [pending, hx, Nat.add_comm]
    case succ i =>
      have := @ih (start + 1) i
      rw [Nat.add_assoc, Nat.add_comm 1] at this
      simp only [List.set_cons_succ, pending, List.getElem?_cons_succ]
      omega

theorem pending_le : pending fresh cost start xs ≤ ((List.range' start xs.length).map cost).sum := by
  induction xs generalizing start
  case nil => simp [pending]
  case cons y xs ih =>
    simp only [pending, List.length_cons, List.range'_succ, List.map_cons, List.sum_cons]
    have := @ih (start + 1)
    split <;> omega

end Visit

section Fold

variable {f : σ → α × Nat → σ} {g : σ → Nat → σ} {P : Nat → σ → Prop} {xs : List α} {n start : Nat}

theorem foldl_zipIdx_from (hs : P start s)
    (step : ∀ i x s, xs[i]? = some x → P (start + i) s → P (start + i + 1) (f s (x, start + i))) :
    P (start + xs.length) ((xs.zipIdx start).foldl f s) := by
  induction xs generalizing start s
  case nil => exact hs
  case cons x xs ih =>
    have h := ih (step 0 x s rfl hs) fun i x s hi h => by
      rw [Nat.add_right_comm start 1 i] at h ⊢
      exact step (i + 1) x s hi h
    rw [Nat.add_right_comm] at h
    exact h

theorem foldl_zipIdx (hs : P 0 s)
    (step : ∀ i x s, xs[i]? = some x → P i s → P (i + 1) (f s (x, i))) :
    P xs.length (xs.zipIdx.foldl f s) := by
  have := @foldl_zipIdx_from _ _ s f P xs 0 hs fun i x s hi h => by
    rw [Nat.zero_add] at h ⊢
    exact step i x s hi h
  rwa [Nat.zero_add] at this

theorem foldl_range_reverse (hs : P n s) (step : ∀ i s, i < n → P (i + 1) s → P i (g s i)) :
    P 0 ((List.range n).reverse.foldl g s) := by
  induction n generalizing s
  case zero => exact hs
  case succ n ih =>
    rw [List.range_succ, List.reverse_append, List.reverse_singleton, List.singleton_append,
      List.foldl_cons]
    exact ih (step n s n.lt_succ_self hs) fun i s hi => step i s (Nat.lt_succ_of_lt hi)

end Fold
end Loop
