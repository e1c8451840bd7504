import Mathlib.Logic.Function.Basic
import NornRune.Lib.Checked

-- Folds with an operation that is associative, commutative and idempotent. Such a fold may visit an
-- element that it has already absorbed any number of times.
namespace Reduction

variable {α : Type}

structure Meet (op : α → α → α) : Prop where
  assoc : ∀ x y z, op (op x y) z = op x (op y z)
  comm : ∀ x y, op x y = op y x
  idem : ∀ x, op x x = x

namespace Meet

variable {op : α → α → α} {x e : α} {ys : List α}

variable (h : Meet op)
include h

theorem foldl_op (x y : α) (ys : List α) :
    ys.foldl op (op x y) = op x (ys.foldl op y) :=
  have : Std.Associative op := ⟨h.assoc⟩
  List.foldl_assoc

theorem foldl_absorb (x : α) (ys : List α) :
    op (ys.foldl op x) x = ys.foldl op x := by
  rw [h.comm, ← h.foldl_op, h.idem]

theorem absorb_of_mem {a : α} (hm : x ∈ ys) :
    op x (ys.foldl op a) = ys.foldl op a := by
  induction ys generalizing a
  case nil => cases hm
  case cons y ys hi =>
    cases hm
    case tail hm => exact hi hm
    case head => rw [List.foldl_cons, ← h.foldl_op, h.comm a, ← h.assoc, h.idem]

theorem foldl_of_mem (unit : ∀ y, op y e = y) (hm : x ∈ ys) :
    ys.foldl op x = ys.foldl op e := by
  rw [← unit x, h.foldl_op, h.absorb_of_mem hm]

theorem foldl_flatMap {β : Type} (unit : ∀ y, op y e = y) (f : β → List α) (xs : List β) :
    (xs.flatMap f).foldl op e = (xs.map fun x => (f x).foldl op e).foldl op e := by
  induction xs
  case nil => rfl
  case cons x xs hi =>
    have start : ∀ (a : α) (zs : List α), zs.foldl op a = op a (zs.foldl op e) := fun a zs => by
      rw [← h.foldl_op, unit]
    rw [List.flatMap_cons, List.foldl_append, start, hi, List.map_cons, List.foldl_cons, h.comm e, unit,
      ← start]

end Meet

-- The operand whose value the destination of an in-place reduction starts from: one that already
-- lies in the destination, or else the first.
def driver (slotOf : α → Nat) (operands : List α) (dst : Nat) : Option Nat :=
  operands.findIdx? fun operand => slotOf operand == dst

-- The operand that is left out of the loop. It is in the destination whenever any operand is.
structure Drives (slotOf : α → Nat) (operands : List α) (dst : Nat) (o : α) : Prop where
  mem : operands[(driver slotOf operands dst).getD 0]? = some o
  shared : ∀ o' ∈ operands, slotOf o' = dst → slotOf o = dst
  isSome : (driver slotOf operands dst).isSome → slotOf o = dst

theorem exists_drives (slotOf : α → Nat) {operands : List α} (dst : Nat) (h : operands ≠ []) :
    ∃ o, Drives slotOf operands dst o := by
  cases hd : driver slotOf operands dst
  case none =>
    have ⟨o, rest, he⟩ := List.exists_cons_of_ne_nil h
    rw [driver, List.findIdx?_eq_none_iff] at hd
    refine ⟨o, ⟨by rw [he, driver, List.findIdx?_eq_none_iff.mpr (he ▸ hd)]; rfl, fun o' hm hs => ?_,
      fun hs => ?_⟩⟩
    · simpa [hs] using hd o' hm
    · rw [driver, List.findIdx?_eq_none_iff.mpr hd] at hs
      cases hs
  case some j =>
    have hd' := hd
    rw [driver, List.findIdx?_eq_some_iff_getElem] at hd
    have ⟨hj, hs, _⟩ := hd
    have hs : slotOf operands[j] = dst := by simpa using hs
    exact ⟨operands[j], ⟨by simp [hd', hj], fun _ _ _ => hs, fun _ => hs⟩⟩

section InPlace

variable {β σ ε ι : Type} {op : β → β → β} {unit : β} {slotOf : α → Nat} {operands : List α}
  {dst : Nat} {o : α} {step : σ → α × Nat → Except ε σ} {view : σ → ι → Nat → β} {inv : σ → Prop}
  {rows : ι → Prop} {s : σ} {v : ι → Nat → β}

-- The state of the loop after some of the operands: the destination holds their fold.
structure Reduced (op : β → β → β) (slotOf : α → Nat) (dst : Nat) (o : α) (view : σ → ι → Nat → β)
    (inv : σ → Prop) (rows : ι → Prop) (v : ι → Nat → β) (done : List (α × Nat)) (s : σ) : Prop where
  inv : inv s
  view : ∀ r, rows r → view s r = Function.update (v r) dst
    ((done.map fun x => v r (slotOf x.1)).foldl op (v r (slotOf o)))

variable (hop : Meet op) (drives : Drives slotOf operands dst o)
  (skip : ∀ s x, step s (x, (driver slotOf operands dst).getD 0) = .ok s)
  (next : ∀ s x i, x ∈ operands → i ≠ (driver slotOf operands dst).getD 0 → inv s →
    ∃ s', step s (x, i) = .ok s' ∧ inv s' ∧ ∀ r, rows r →
      view s' r = Function.update (view s r) dst (op (view s r dst) (view s r (slotOf x))))

include hop drives skip next in
theorem Reduced.advance {done : List (α × Nat)} {x : α} {i : Nat} (hx : operands[i]? = some x)
    (h : Reduced op slotOf dst o view inv rows v done s) :
    ∃ s', step s (x, i) = .ok s' ∧
      Reduced op slotOf dst o view inv rows v (done ++ [(x, i)]) s' := by
  have absorbs := fun r => hop.foldl_absorb (v r (slotOf o)) (done.map fun x => v r (slotOf x.1))
  by_cases hj : i = (driver slotOf operands dst).getD 0
  case pos =>
    obtain rfl : x = o := by
      have := drives.mem
      simp_all
    refine ⟨s, hj ▸ skip s x, h.inv, fun r hr => ?_⟩
    simp only [List.map_append, List.map_cons, List.map_nil, List.foldl_append, List.foldl_cons,
      List.foldl_nil, absorbs]
    exact h.view r hr
  case neg =>
    have ⟨s', h', hi', hv'⟩ := next s x i (List.mem_of_getElem? hx) hj h.inv
    refine ⟨s', h', hi', fun r hr => ?_⟩
    simp only [List.map_append, List.map_cons, List.map_nil, List.foldl_append, List.foldl_cons,
      List.foldl_nil]
    rw [hv' r hr, h.view r hr, Function.update_self, Function.update_idem]
    congr 1
    -- An operand in the destination was overwritten, but the fold has absorbed its value.
    by_cases hd : slotOf x = dst
    case neg => rw [Function.update_of_ne hd]
    case pos =>
      rw [hd, Function.update_self, hop.idem, ← drives.shared x (List.mem_of_getElem? hx) hd]
      exact (absorbs r).symm

include hop drives skip next in
-- Combining all operands but the driver into the destination, one after the other and in place,
-- leaves there the fold of the values that the operands had at the beginning.
theorem foldlM_inPlace (hunit : ∀ y, op y unit = y) (hs : inv s)
    (start : ∀ r, rows r → view s r = Function.update (v r) dst (v r (slotOf o))) :
    ∃ s', operands.zipIdx.foldlM step s = .ok s' ∧ inv s' ∧ ∀ r, rows r →
      view s' r = Function.update (v r) dst ((operands.map fun x => v r (slotOf x)).foldl op unit) := by
  have : ∃ s', operands.zipIdx.foldlM step s = .ok s' ∧
      Reduced op slotOf dst o view inv rows v ([] ++ operands.zipIdx) s' := by
    refine Checked.foldlM_invariant ⟨hs, start⟩ fun done ⟨x, i⟩ rest s hsplit h => ?_
    have hx : (x, i) ∈ operands.zipIdx := by
      rw [List.nil_append] at hsplit
      simp [hsplit]
    exact h.advance hop drives skip next (by simpa [List.mem_zipIdx_iff_getElem?] using hx)
  have ⟨s', h, hr⟩ := this
  refine ⟨s', h, hr.inv, fun r hrow => ?_⟩
  have hmap : (operands.zipIdx.map fun x => v r (slotOf x.1)) =
      operands.map fun x => v r (slotOf x) := by
    have := List.map_map (f := Prod.fst) (g := fun x => v r (slotOf x)) (l := operands.zipIdx)
    rw [List.zipIdx_map_fst] at this
    exact this.symm
  rw [hr.view r hrow, List.nil_append, hmap, hop.foldl_of_mem hunit]
  exact List.mem_map_of_mem (List.mem_of_getElem? drives.mem)

end InPlace
end Reduction
