import Mathlib.Data.List.Forall2

-- Computations that can fail, and how loops over a list of them succeed.
namespace Checked

variable {ε α β σ : Type} {x : Except ε α} {f g : α → Except ε β} {xs : List α} {R : α → β → Prop}
  {ys : List β} {i n : Nat} {s s' : σ} {P : Nat → σ → Prop}

theorem bind_eq_ok_iff {b : β} :
    (x >>= f) = .ok b ↔ ∃ a, x = .ok a ∧ f a = .ok b := by
  cases x <;> simp [bind, Except.bind]

theorem of_bind {b : β} (h : (x >>= f) = .ok b) : ∃ a, x = .ok a ∧ f a = .ok b :=
  bind_eq_ok_iff.mp h

@[simp]
theorem ok_bind {a : α} : ((.ok a : Except ε α) >>= f) = f a :=
  rfl

@[simp]
theorem error_bind {e : ε} : ((.error e : Except ε α) >>= f) = .error e :=
  rfl

@[simp]
theorem pure_eq_ok (a : α) : (pure a : Except ε α) = .ok a :=
  rfl

theorem eq_ok_of_toOption (h : x.toOption.isSome) : x = .ok (x.toOption.get h) := by
  cases x
  case error => cases h
  case ok => rfl

theorem bind_congr_ok (h : ∀ a, x = .ok a → f a = g a) :
    (x >>= f) = (x >>= g) := by
  cases x
  case error => rfl
  case ok a => exact h a rfl

theorem ite_error_eq_ok_iff {c : Prop} [Decidable c] {e : ε} {a : α} :
    (if c then .error e else x) = .ok a ↔ ¬c ∧ x = .ok a := by
  split <;> simp_all

theorem of_guard {c : Prop} [Decidable c] {e : ε} {a : α} (h : (if c then .error e else x) = .ok a) :
    ¬c ∧ x = .ok a :=
  ite_error_eq_ok_iff.mp h

theorem of_check {c : Prop} [Decidable c] {e : ε} {a : α} (h : (if c then x else .error e) = .ok a) :
    c ∧ x = .ok a := by
  split at h
  case isTrue hc => exact ⟨hc, h⟩
  case isFalse => cases h

theorem ite_eq_of_ne {c : Prop} [Decidable c] {a b r : α} (h : (if c then a else b) = r) (ha : a ≠ r) :
    ¬c ∧ b = r := by
  split at h
  case isTrue => exact absurd h ha
  case isFalse hc => exact ⟨hc, h⟩

theorem mapM_eq_ok {g : α → β} (h : ∀ x ∈ xs, f x = .ok (g x)) : xs.mapM f = .ok (xs.map g) := by
  induction xs
  case nil => rfl
  case cons x xs hi =>
    simp [List.mapM_cons, h x List.mem_cons_self, hi fun y hy => h y (List.mem_cons_of_mem _ hy)]

theorem exists_of_forall₂ (h : List.Forall₂ R xs ys) {x : α} (hx : x ∈ xs) : ∃ y ∈ ys, R x y := by
  induction h
  case nil => cases hx
  case cons z y xs ys hz _ hi =>
    cases hx
    case head => exact ⟨y, List.mem_cons_self, hz⟩
    case tail hx =>
      have ⟨y', hy', he⟩ := hi hx
      exact ⟨y', List.mem_cons_of_mem _ hy', he⟩

theorem forall₂_of_mapM_eq_ok (h : xs.mapM f = .ok ys) :
    List.Forall₂ (fun x y => f x = .ok y) xs ys := by
  induction xs generalizing ys
  case nil =>
    cases h
    exact .nil
  case cons x xs hi =>
    rw [List.mapM_cons] at h
    have ⟨y, hy, h⟩ := of_bind h
    have ⟨ys', hys, h⟩ := of_bind h
    cases h
    exact .cons hy (hi hys)

theorem mapM_ok_of_forall (h : ∀ x ∈ xs, ∃ y, f x = .ok y) :
    ∃ ys, xs.mapM f = .ok ys := by
  induction xs
  case nil => exact ⟨[], rfl⟩
  case cons x xs hi =>
    have ⟨⟨y, hy⟩, hxs⟩ := List.forall_mem_cons.mp h
    have ⟨ys, hys⟩ := hi hxs
    exact ⟨y :: ys, by simp [hy, hys]⟩

theorem eq_map_of_mapM_eq_ok {g : α → β} (h : xs.mapM f = .ok ys)
    (hf : ∀ x ∈ xs, ∀ y, f x = .ok y → y = g x) : ys = xs.map g := by
  replace h := forall₂_of_mapM_eq_ok h
  induction h
  case nil => rfl
  case cons x y xs ys hx _ hi =>
    rw [List.map_cons, ← hf x List.mem_cons_self y hx,
      hi fun z hz => hf z (List.mem_cons_of_mem _ hz)]

theorem ok_of_mem_mapM (h : xs.mapM f = .ok ys) {x : α} (hx : x ∈ xs) : ∃ y ∈ ys, f x = .ok y :=
  exists_of_forall₂ (forall₂_of_mapM_eq_ok h) hx

theorem getElem?_of_forall₂ (h : List.Forall₂ R xs ys) {x : α} (hi : xs[i]? = some x) :
    ∃ y, ys[i]? = some y ∧ R x y := by
  induction h generalizing i
  case nil => cases hi
  case cons z y xs ys hz _ ih =>
    cases i
    case zero =>
      cases hi
      exact ⟨y, rfl, hz⟩
    case succ i => exact ih hi

theorem getElem?_of_mapM_eq_ok (h : xs.mapM f = .ok ys) {x : α} (hi : xs[i]? = some x) :
    ∃ y, ys[i]? = some y ∧ f x = .ok y :=
  getElem?_of_forall₂ (forall₂_of_mapM_eq_ok h) hi

theorem mapM_eq_some_iff {f : α → Option β} :
    xs.mapM f = some ys ↔ List.Forall₂ (fun x y => f x = some y) xs ys := by
  induction xs generalizing ys
  case nil => simp [eq_comm]
  case cons x xs ih =>
    rw [List.mapM_cons, Option.bind_eq_bind, Option.bind_eq_some_iff]
    simp only [Option.bind_eq_bind, Option.bind_eq_some_iff, ih]
    constructor
    · rintro ⟨y, hy, ys', hys, h⟩
      cases h
      exact .cons hy hys
    · rintro (_ | ⟨hy, hys⟩)
      exact ⟨_, hy, _, hys, rfl⟩

theorem getElem?_of_mapM_eq_some {f : α → Option β} (h : xs.mapM f = some ys) {x : α}
    (hi : xs[i]? = some x) :
    ∃ y, ys[i]? = some y ∧ f x = some y :=
  getElem?_of_forall₂ (mapM_eq_some_iff.mp h) hi

theorem length_of_mapM_eq_some {f : α → Option β} (h : xs.mapM f = some ys) :
    ys.length = xs.length :=
  (mapM_eq_some_iff.mp h).length_eq.symm

theorem length_of_mapM_eq_ok (h : xs.mapM f = .ok ys) : ys.length = xs.length :=
  (forall₂_of_mapM_eq_ok h).length_eq.symm

theorem mapM_take_eq_ok (h : xs.mapM f = .ok ys) (n : Nat) :
    (xs.take n).mapM f = .ok (ys.take n) := by
  replace h := forall₂_of_mapM_eq_ok h
  induction h generalizing n
  case nil => simp
  case cons x y xs ys hx _ hi =>
    cases n
    case zero => rfl
    case succ n => simp [List.mapM_cons, hx, hi n]

theorem exists_of_mem_mapM (h : xs.mapM f = .ok ys) {y : β} (hy : y ∈ ys) : ∃ x ∈ xs, f x = .ok y :=
  exists_of_forall₂ (forall₂_of_mapM_eq_ok h).flip hy

theorem mapM_congr (h : ∀ x ∈ xs, f x = g x) :
    xs.mapM f = xs.mapM g := by
  induction xs
  case nil => rfl
  case cons x xs hi =>
    simp [List.mapM_cons, h x List.mem_cons_self, hi fun y hy => h y (List.mem_cons_of_mem _ hy)]

theorem foldlM_congr {f g : σ → α → Except ε σ} (h : ∀ s, ∀ x ∈ xs, f s x = g s x) (s : σ) :
    xs.foldlM f s = xs.foldlM g s := by
  induction xs generalizing s
  case nil => rfl
  case cons x xs hi =>
    simp only [List.foldlM_cons, h s x List.mem_cons_self]
    congr 1
    funext s'
    exact hi (fun s y hy => h s y (List.mem_cons_of_mem _ hy)) s'

-- A loop whose rounds all succeed succeeds, and keeps what each round keeps.
theorem foldlM_invariant {f : σ → α → Except ε σ} {xs : List α} {P : List α → σ → Prop}
    {pre : List α} {s : σ} (hs : P pre s)
    (step : ∀ done x rest s, pre ++ xs = done ++ x :: rest → P done s →
      ∃ s', f s x = .ok s' ∧ P (done ++ [x]) s') :
    ∃ s', xs.foldlM f s = .ok s' ∧ P (pre ++ xs) s' := by
  induction xs generalizing pre s
  case nil => exact ⟨s, rfl, by simpa using hs⟩
  case cons x xs hi =>
    have ⟨s₁, h₁, hp⟩ := step pre x xs s rfl hs
    have ⟨s₂, h₂, hq⟩ := hi hp (fun done y rest s h => step done y rest s (by simpa using h))
    exact ⟨s₂, by simp [List.foldlM_cons, h₁, h₂], by simpa using hq⟩

theorem foldlM_preserves {f : σ → α → Except ε σ} {P : σ → Prop} (h : xs.foldlM f s = .ok s')
    (hs : P s) (step : ∀ s x s', x ∈ xs → f s x = .ok s' → P s → P s') : P s' := by
  induction xs generalizing s
  case nil =>
    cases h
    exact hs
  case cons x xs hi =>
    rw [List.foldlM_cons] at h
    have ⟨s₁, h₁, h⟩ := of_bind h
    exact hi h (step s x s₁ List.mem_cons_self h₁ hs)
      fun s y s' hy => step s y s' (List.mem_cons_of_mem _ hy)

theorem foldlM_range {f : σ → Nat → Except ε σ} (h : (List.range n).foldlM f s = .ok s')
    (hs : P 0 s) (step : ∀ i s s', i < n → f s i = .ok s' → P i s → P (i + 1) s') : P n s' := by
  induction n generalizing s'
  case zero =>
    cases h
    exact hs
  case succ n hi =>
    rw [List.range_succ, List.foldlM_append] at h
    have ⟨s₁, h₁, h⟩ := of_bind h
    rw [List.foldlM_cons] at h
    have ⟨s₂, h₂, h⟩ := of_bind h
    cases h
    exact step n s₁ s' n.lt_succ_self h₂
      (hi h₁ fun i s s' hi => step i s s' (Nat.lt_succ_of_lt hi))

theorem exists_foldlM_range {f : σ → Nat → Except ε σ} (hs : P 0 s)
    (step : ∀ i s, i < n → P i s → ∃ s', f s i = .ok s' ∧ P (i + 1) s') :
    ∃ s', (List.range n).foldlM f s = .ok s' ∧ P n s' := by
  induction n
  case zero => exact ⟨s, rfl, hs⟩
  case succ n hi =>
    have ⟨s₁, h₁, hp₁⟩ := hi fun i s hlt => step i s (Nat.lt_succ_of_lt hlt)
    have ⟨s₂, h₂, hp₂⟩ := step n s₁ n.lt_succ_self hp₁
    exact ⟨s₂, by simp [List.range_succ, h₁, h₂], hp₂⟩

theorem exists_foldlM_zipIdx {f : σ → α × Nat → Except ε σ} (hs : P 0 s)
    (step : ∀ i x s, xs[i]? = some x → P i s → ∃ s', f s (x, i) = .ok s' ∧ P (i + 1) s') :
    ∃ s', xs.zipIdx.foldlM f s = .ok s' ∧ P xs.length s' := by
  have ⟨s', hs', hp⟩ := @foldlM_invariant _ _ _ f xs.zipIdx (fun done s => P done.length s) [] s hs
    fun done x rest s h hp => by
      have hx : xs.zipIdx[done.length]? = some x := by
        rw [List.nil_append] at h
        rw [h, List.getElem?_append_right (Nat.le_refl _), Nat.sub_self, List.getElem?_cons_zero]
      rw [List.getElem?_zipIdx, Option.map_eq_some_iff] at hx
      obtain ⟨y, hy, rfl⟩ := hx
      rw [Nat.zero_add, List.length_append, List.length_singleton]
      exact step _ y s hy hp
  exact ⟨s', hs', by simpa using hp⟩

theorem foldlM_range_reverse {f : σ → Nat → Except ε σ}
    (h : (List.range n).reverse.foldlM f s = .ok s') (hs : P n s)
    (step : ∀ i s s', i < n → f s i = .ok s' → P (i + 1) s → P i s') : P 0 s' := by
  induction n generalizing s
  case zero =>
    cases h
    exact hs
  case succ n hi =>
    rw [List.range_succ, List.reverse_append, List.reverse_singleton, List.singleton_append,
      List.foldlM_cons] at h
    have ⟨s₁, h₁, h⟩ := of_bind h
    exact hi h (step n s s₁ n.lt_succ_self h₁ hs) fun i s s' hi => step i s s' (Nat.lt_succ_of_lt hi)

theorem mapM_of_foldlM_eq_ok {g : σ → β → Except ε σ}
    (h : xs.foldlM (fun s x => f x >>= g s) s = .ok s') :
    ∃ ys, xs.mapM f = .ok ys ∧ ys.foldlM g s = .ok s' := by
  induction xs generalizing s
  case nil => exact ⟨[], rfl, h⟩
  case cons x xs ih =>
    have ⟨s₁, h₁, h⟩ := of_bind h
    have ⟨y, hy, h₁⟩ := of_bind h₁
    have ⟨ys, hys, hs⟩ := ih h
    refine ⟨y :: ys, ?_, bind_eq_ok_iff.mpr ⟨s₁, h₁, hs⟩⟩
    rw [List.mapM_cons, hy, ok_bind, hys]
    rfl

theorem foldlM_le {f : σ → α → Except ε σ} {m : σ → Nat} (h : xs.foldlM f s = .ok s')
    (step : ∀ s x s', f s x = .ok s' → m s' ≤ m s + 1) :
    m s' ≤ m s + xs.length := by
  induction xs generalizing s
  case nil =>
    cases h
    exact Nat.le_refl _
  case cons x xs hi =>
    rw [List.foldlM_cons] at h
    have ⟨s₁, h₁, h⟩ := of_bind h
    have := step s x s₁ h₁
    have := hi h
    rw [List.length_cons]
    omega

section Map

variable {γ τ : Type}

theorem map_bind_eq {x : Except ε α} {f : α → Except ε β} {g : β → γ} {e : α → τ}
    {x' : Except ε τ} {f' : τ → Except ε γ} (hx : x.map e = x')
    (h : ∀ a, x = .ok a → (f a).map g = f' (e a)) : (x >>= f).map g = x' >>= f' := by
  subst hx
  cases x
  case error => rfl
  case ok a => exact h a rfl

theorem map_foldlM_range {f : σ → Nat → Except ε σ} {f' : τ → Nat → Except ε τ} {e : σ → τ}
    {P : Nat → σ → Prop} {n : Nat} {s : σ} (hs : P 0 s)
    (step : ∀ i s, i < n → P i s → (f s i).map e = f' (e s) i ∧ ∀ s', f s i = .ok s' → P (i + 1) s') :
    ((List.range n).foldlM f s).map e = (List.range n).foldlM f' (e s) := by
  have hP : ∀ m ≤ n, ∀ s', (List.range m).foldlM f s = .ok s' → P m s' := fun m hm s' h =>
    foldlM_range h hs fun i s s' hi h hp => (step i s (by omega) hp).2 s' h
  have hmap : ∀ m ≤ n, ((List.range m).foldlM f s).map e = (List.range m).foldlM f' (e s) := by
    intro m hm
    induction m
    case zero => rfl
    case succ m ih =>
      rw [List.range_succ, List.foldlM_append, List.foldlM_append]
      refine map_bind_eq (ih (by omega)) fun s' hs' => ?_
      have := (step m s' (by omega) (hP m (by omega) s' hs')).1
      simp only [List.foldlM_cons, List.foldlM_nil, bind_pure, this]
  exact hmap n (Nat.le_refl n)

end Map
end Checked
