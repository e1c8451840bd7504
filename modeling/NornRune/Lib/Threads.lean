import Mathlib.Algebra.BigOperators.Group.Finset.Basic
import Mathlib.Data.List.Basic
import Mathlib.Logic.Function.Basic

-- Threads that take turns on a shared state. A turn of a thread is one atomic step of its program.
namespace Threads

variable {S L E : Type}

structure Config (S L : Type) where
  shared : S
  threads : Nat → L

-- What a thread does in a turn, given what happens to it from outside. A thread that is blocked has no
-- turn.
abbrev Program (S L E : Type) := Nat → S → L → E → Option (S × L)

variable (program : Program S L E)

def turn (c : Config S L) (e : Nat × E) : Option (Config S L) :=
  (program e.1 c.shared (c.threads e.1) e.2).map fun (s, l) => ⟨s, Function.update c.threads e.1 l⟩

def run (c : Config S L) (es : List (Nat × E)) : Option (Config S L) :=
  es.foldlM (turn program) c

def held (T : Finset Nat) (q : L → Nat) (c : Config S L) : Nat :=
  ∑ t ∈ T, q (c.threads t)

-- The program in which a thread only has the turns that a guard lets it have.
def guarded (guard : Nat → S → L → E → Bool) : Program S L E :=
  fun t s l e => if guard t s l e then program t s l e else none

-- What holds of the shared state at all times, and what each thread knows about it at the point that
-- it has reached. A thread keeps its knowledge when another thread has a turn.
structure Outline where
  Holds : S → Prop
  Knows : Nat → S → L → Prop
  step : ∀ {t s l e s' l'}, Holds s → Knows t s l → program t s l e = some (s', l') →
    Holds s' ∧ Knows t s' l'
  stable : ∀ {t s l e s' l' u k}, Holds s → Knows t s l → program t s l e = some (s', l') → u ≠ t →
    Knows u s k → Knows u s' k

variable {program}

theorem guarded_eq_some {guard : Nat → S → L → E → Bool} {t : Nat} {s : S} {l : L} {e : E}
    {r : S × L} : guarded program guard t s l e = some r ↔
      guard t s l e ∧ program t s l e = some r := by
  rw [guarded]
  split
  case isTrue h => simp [h]
  case isFalse h => simp [h]

namespace Outline

variable (o : Outline program)

structure Valid (c : Config S L) : Prop where
  holds : o.Holds c.shared
  knows : ∀ t, o.Knows t c.shared (c.threads t)

variable {o} {c c' : Config S L} {es : List (Nat × E)}

theorem turn_eq_some {e : Nat × E} (h : turn program c e = some c') :
    program e.1 c.shared (c.threads e.1) e.2 = some (c'.shared, c'.threads e.1) ∧
      ∀ t, t ≠ e.1 → c'.threads t = c.threads t := by
  have ⟨⟨s, l⟩, hp, he⟩ := Option.map_eq_some_iff.mp h
  cases he
  refine ⟨?_, fun t ht => Function.update_of_ne ht _ _⟩
  simp only [hp, Function.update_self]

theorem threads_of_run {t : Nat} (h : Threads.run program c es = some c') (ht : t ∉ es.map (·.1)) :
    c'.threads t = c.threads t := by
  induction es generalizing c
  case nil =>
    cases h
    rfl
  case cons e es ih =>
    have ⟨c₁, h₁, h⟩ := Option.bind_eq_some_iff.mp h
    rw [List.map_cons, List.mem_cons, not_or] at ht
    rw [ih h ht.2, (turn_eq_some h₁).2 t ht.1]

theorem exists_held_turn {e : Nat × E} (h : turn program c e = some c') {T : Finset Nat} (ht : e.1 ∈ T)
    (q : L → Nat) : ∃ rest, held T q c = q (c.threads e.1) + rest ∧
      held T q c' = q (c'.threads e.1) + rest := by
  refine ⟨∑ t ∈ T.erase e.1, q (c.threads t), (Finset.add_sum_erase T _ ht).symm, ?_⟩
  rw [held, ← Finset.add_sum_erase T _ ht]
  refine congrArg _ (Finset.sum_congr rfl fun t hm => ?_)
  rw [(turn_eq_some h).2 t (Finset.ne_of_mem_erase hm)]

-- Where every turn makes the measure of its thread smaller, there are no more turns than the measures
-- allow.
theorem length_add_held_le {q : L → Nat} {G : E → Prop} {T : Finset Nat}
    (hq : ∀ {t s l e s' l'}, G e → program t s l e = some (s', l') → q l' < q l)
    (h : Threads.run program c es = some c') (he : ∀ e ∈ es, e.1 ∈ T ∧ G e.2) :
    es.length + held T q c' ≤ held T q c := by
  induction es generalizing c
  case nil =>
    cases h
    exact (Nat.zero_add _).le
  case cons e es ih =>
    have ⟨c₁, h₁, h⟩ := Option.bind_eq_some_iff.mp h
    have ⟨⟨ht, hg⟩, he⟩ := List.forall_mem_cons.mp he
    have ⟨rest, h₀, h₁'⟩ := exists_held_turn h₁ ht q
    have hlt := hq hg (turn_eq_some h₁).1
    have := ih h he
    rw [List.length_cons]
    omega

theorem Valid.turn {e : Nat × E} (h : o.Valid c) (ht : turn program c e = some c') : o.Valid c' := by
  have ⟨hp, hothers⟩ := turn_eq_some ht
  have ⟨hholds, hknows⟩ := o.step h.holds (h.knows e.1) hp
  refine ⟨hholds, fun t => ?_⟩
  by_cases he : t = e.1
  case pos =>
    subst he
    exact hknows
  case neg =>
    rw [hothers t he]
    exact o.stable h.holds (h.knows e.1) hp he (h.knows t)

theorem Valid.run (h : o.Valid c) (hr : run program c es = some c') : o.Valid c' := by
  induction es generalizing c
  case nil =>
    cases hr
    exact h
  case cons e es ih =>
    have ⟨c₁, h₁, hr⟩ := Option.bind_eq_some_iff.mp hr
    exact ih (h.turn h₁) hr

-- What each turn does to the shared state, at most, is what a whole interleaving does at most.
theorem Valid.run_relates (R : S → S → Prop) (refl : ∀ s, R s s)
    (trans : ∀ s s' s'', R s s' → R s' s'' → R s s'')
    (step : ∀ t s l e s' l', o.Holds s → o.Knows t s l → program t s l e = some (s', l') → R s s')
    (h : o.Valid c) (hr : Threads.run program c es = some c') : R c.shared c'.shared := by
  induction es generalizing c
  case nil =>
    cases hr
    exact refl _
  case cons e es ih =>
    have ⟨c₁, h₁, hr⟩ := Option.bind_eq_some_iff.mp hr
    exact trans _ _ _ (step _ _ _ _ _ _ h.holds (h.knows e.1) (turn_eq_some h₁).1)
      (ih (h.turn h₁) hr)

end Outline
end Threads
