import Mathlib.Data.List.Basic
import Mathlib.Logic.Function.Basic

-- Straight-line code in which each row computes a value from the values of earlier rows. Row `i` has
-- the ID `i + 1`, and operands are IDs.
namespace Dataflow

variable {I V : Type}

-- What a row computes depends on the values of its operands only.
structure Semantics (I V : Type) where
  operands : I → List Nat
  denote : I → (Nat → V) → V
  congr : ∀ i v v', (∀ o ∈ operands i, v o = v' o) → denote i v = denote i v'

variable (sem : Semantics I V)

def Ordered (rows : List I) : Prop :=
  ∀ i instr, rows[i]? = some instr → ∀ o ∈ sem.operands instr, o ≠ 0 ∧ o ≤ i

-- An assignment of values to IDs under which each row has the value that it computes.
def Solves (rows : List I) (v : Nat → V) : Prop :=
  ∀ i instr, rows[i]? = some instr → v (i + 1) = sem.denote instr v

def solve (start : Nat) : List I → (Nat → V) → Nat → V
  | [], v => v
  | instr :: rows, v => solve (start + 1) rows (Function.update v (start + 1) (sem.denote instr v))

variable {sem} {rows : List I} {v : Nat → V}

theorem solve_of_le {start id : Nat} (h : id ≤ start) : solve sem start rows v id = v id := by
  induction rows generalizing start v
  case nil => rfl
  case cons instr rows ih =>
    rw [solve, ih (by omega), Function.update_of_ne (by omega)]

theorem solve_spec {start : Nat}
    (ordered : ∀ i instr, rows[i]? = some instr → ∀ o ∈ sem.operands instr, o ≤ start + i)
    {i : Nat} {instr : I} (h : rows[i]? = some instr) :
    solve sem start rows v (start + i + 1) = sem.denote instr (solve sem start rows v) := by
  induction rows generalizing start v i
  case nil => simp at h
  case cons first rows ih =>
    cases i
    case zero =>
      cases h
      rw [solve, solve_of_le (by omega), Nat.add_zero, Function.update_self]
      refine sem.congr _ _ _ fun o ho => ?_
      have hle := ordered 0 instr rfl o ho
      rw [solve_of_le (by omega), Function.update_of_ne (by omega)]
    case succ i =>
      have := @ih (Function.update v (start + 1) (sem.denote first v)) (start + 1)
        (fun j instr hj o ho => by
          have := ordered (j + 1) instr hj o ho
          omega) i h
      rw [solve, ← this]
      congr 1
      omega

theorem Ordered.solves (h : Ordered sem rows) (v : Nat → V) : Solves sem rows (solve sem 0 rows v) := by
  intro i instr hi
  have := @solve_spec _ _ sem rows v 0 (fun j instr hj o ho => by simpa using (h j instr hj o ho).2)
    i instr hi
  rwa [Nat.zero_add] at this

-- Some of the rows of a piece of code occur in another one, under other IDs. Each row that is kept
-- computes the same there, and its operands are kept as well.
structure Embeds (sem : Semantics I V) (rows rows' : List I) (keep : Nat → Prop) (f : Nat → Nat) :
    Prop where
  row : ∀ i instr, rows[i]? = some instr → keep (i + 1) → ∃ j instr', f (i + 1) = j + 1 ∧
    rows'[j]? = some instr' ∧ ∀ v, sem.denote instr' v = sem.denote instr (v ∘ f)
  operand : ∀ i instr, rows[i]? = some instr → keep (i + 1) → ∀ o ∈ sem.operands instr, keep o

theorem Embeds.value {rows' : List I} {keep : Nat → Prop} {f : Nat → Nat} {v' : Nat → V}
    (h : Embeds sem rows rows' keep f) (ordered : Ordered sem rows) (hv : Solves sem rows v)
    (hv' : Solves sem rows' v') {id : Nat} (h0 : id ≠ 0) (hle : id ≤ rows.length) (hk : keep id) :
    v id = v' (f id) := by
  induction id using Nat.strongRecOn
  case ind id ih =>
    obtain ⟨i, rfl⟩ := Nat.exists_eq_succ_of_ne_zero h0
    have hi : rows[i]? = some rows[i] := List.getElem?_eq_getElem (by omega)
    have ⟨j, instr', hf, hj, hd⟩ := h.row i _ hi hk
    calc v (i + 1)
      _ = sem.denote rows[i] v := hv i _ hi
      _ = sem.denote rows[i] (v' ∘ f) := by
        refine sem.congr _ _ _ fun o ho => ?_
        have ⟨ho0, hoi⟩ := ordered i _ hi o ho
        exact ih o (by omega) ho0 (by omega) (h.operand i _ hi hk o ho)
      _ = sem.denote instr' v' := (hd v').symm
      _ = v' (f (i + 1)) := by rw [hf, hv' j instr' hj]

section Store

-- A store keeps the values of rows for a while. Writing the value of a row can destroy that of
-- another one.
variable {S : Type} (sem) (read : S → Nat → V) (write : S → Nat → V → S)

def exec (start : Nat) : List I → S → S
  | [], s => s
  | instr :: rows, s => exec (start + 1) rows (write s start (sem.denote instr (read s)))

-- What a store must offer to run code: at each moment the IDs that are needed from there on are not
-- destroyed, and the operands of a row are needed when it is reached.
structure Serves (rows : List I) (needed : Nat → Nat → Prop) : Prop where
  written : ∀ s row x, row < rows.length → needed (row + 1) (row + 1) → read (write s row x) (row + 1) = x
  kept : ∀ s row x id, row < rows.length → id ≠ 0 → id ≤ row → needed (row + 1) id →
    needed row id ∧ read (write s row x) id = read s id
  operand : ∀ i instr, rows[i]? = some instr → ∀ o ∈ sem.operands instr, needed i o

variable {sem read write} {needed : Nat → Nat → Prop}

theorem read_exec_from {code : List I} {start : Nat} {s : S} (ordered : Ordered sem rows)
    (serves : Serves sem read write rows needed) (hv : Solves sem rows v)
    (hc : rows.drop start = code) (hs : ∀ id, id ≠ 0 → id ≤ start → needed start id → read s id = v id)
    (hle : start ≤ rows.length) {id : Nat} (h0 : id ≠ 0) (hid : id ≤ rows.length)
    (hn : needed rows.length id) : read (exec sem read write start code s) id = v id := by
  induction code generalizing start s
  case nil =>
    have : start = rows.length := by
      have := List.drop_eq_nil_iff.mp hc
      omega
    exact hs id h0 (this ▸ hid) (this ▸ hn)
  case cons instr code ih =>
    have hlt : start < rows.length := by
      by_contra hge
      rw [List.drop_eq_nil_of_le (by omega)] at hc
      cases hc
    have hi : rows[start]? = some instr := by
      rw [← List.head?_drop, hc, List.head?_cons]
    have hd : rows.drop (start + 1) = code := by
      rw [← List.tail_drop, hc, List.tail_cons]
    refine ih hd (fun id h0 hid hn => ?_) (by omega)
    rcases Nat.lt_or_ge start id with hgt | hge
    case inl =>
      obtain rfl : id = start + 1 := by omega
      rw [serves.written _ _ _ hlt hn, hv start instr hi]
      refine sem.congr _ _ _ fun o ho => ?_
      have ⟨ho0, hos⟩ := ordered start instr hi o ho
      exact hs o ho0 hos (serves.operand start instr hi o ho)
    case inr =>
      have ⟨hn, hk⟩ := serves.kept s start (sem.denote instr (read s)) id hlt h0 hge hn
      rw [hk]
      exact hs id h0 hge hn

theorem read_exec (needed : Nat → Nat → Prop) {s : S} (ordered : Ordered sem rows) (serves : Serves sem read write rows needed)
    (hv : Solves sem rows v) {id : Nat} (h0 : id ≠ 0) (hid : id ≤ rows.length)
    (hn : needed rows.length id) : read (exec sem read write 0 rows s) id = v id :=
  read_exec_from ordered serves hv rfl (by omega) (Nat.zero_le _) h0 hid hn

end Store
end Dataflow
