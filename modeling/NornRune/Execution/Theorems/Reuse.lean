import NornRune.Execution.Theorems.Execute

open Bitplane Checked

namespace NornRune

inductive Call
  | execute (dst : ResultBatch) (addr : Nat) (batch : Batch)
  | executeRange (dst : ResultBatch) (addr : Nat) (batch : Batch) (start stop : Nat)
    (scratch : List Nat)

namespace Executor

variable {k : Kernels} {heap : Heap} {e : Executor}

def call (k : Kernels) (heap : Heap) (e : Executor) : Call → Executor
  | .execute dst addr batch => (execute k heap e dst addr batch).1
  | .executeRange dst addr batch start stop scratch =>
    (executeRange k heap e dst addr batch start stop scratch).1

def calls (k : Kernels) (heap : Heap) (cs : List Call) : Executor :=
  cs.foldl (call k heap) zero

theorem Cached.call (cached : e.Cached heap) (c : Call) : (e.call k heap c).Cached heap := by
  cases c
  case execute dst addr batch => exact (executeMode_spec k cached dst addr batch .auto).1
  case executeRange dst addr batch start stop scratch =>
    unfold Executor.call executeRange executeRangeMode
    simp only
    split
    case h_1 => exact cached
    case h_2 view _ => exact (executeMode_spec k cached dst addr view .auto).1

theorem cached_calls (k : Kernels) (heap : Heap) (cs : List Call) : (calls k heap cs).Cached heap := by
  have : ∀ e : Executor, e.Cached heap → (cs.foldl (Executor.call k heap) e).Cached heap := by
    induction cs
    case nil => exact fun _ cached => cached
    case cons c cs hi => exact fun e cached => hi _ (cached.call c)
  exact this _ (cached_zero heap)

def outcome (k : Kernels) (heap : Heap) (e : Executor) (dst : ResultBatch) (addr : Nat)
    (batch : Batch) (mode : ExecutionMode) : Outcome :=
  Outcome.of (executeMode k heap e dst addr batch mode).2.1
    (executeMode k heap e dst addr batch mode).2.2

theorem outcome_eq (cached : e.Cached heap) (dst : ResultBatch) (addr : Nat) (batch : Batch)
    (mode : ExecutionMode) : e.outcome k heap dst addr batch mode = (heap addr).evaluate batch :=
  (executeMode_spec k cached dst addr batch mode).2

theorem outcome_calls (k : Kernels) (heap : Heap) (cs : List Call) (dst : ResultBatch) (addr : Nat)
    (batch : Batch) :
    (calls k heap cs).outcome k heap dst addr batch .auto =
      zero.outcome k heap .empty addr batch .auto := by
  rw [outcome_eq (cached_calls k heap cs), outcome_eq (cached_zero heap)]

theorem outcome_mode (k k' : Kernels) (heap : Heap) (cs cs' : List Call) (dst dst' : ResultBatch)
    (addr : Nat) (batch : Batch) (mode mode' : ExecutionMode) :
    (calls k heap cs).outcome k heap dst addr batch mode =
      (calls k' heap cs').outcome k' heap dst' addr batch mode' := by
  rw [outcome_eq (cached_calls k heap cs), outcome_eq (cached_calls k' heap cs')]

end Executor
end NornRune
