import Mathlib.Algebra.BigOperators.Intervals
import Mathlib.Algebra.BigOperators.Pi
import Mathlib.Tactic.Abel

/-!
# Numbered families of records

A component that serves any number of parties keeps one record for each of them, `f 0` up to
`f (n - 1)`, and a step replaces one record or adds a new one.  An invariant that speaks about each
record alone is then kept if the new record meets it (`forall_update`, `forall_add`), and a counter
that should equal a sum over all records moves by the difference the step makes in one summand
(`sum_update`, `sum_add`; `sum_univ_update` where the parties are fixed from the start and the
values cannot be subtracted).
-/

namespace PulsarRuntime.Family

open Finset (range)

variable {α : Type*} {f : ℕ → α} {n k : ℕ} {x : α}

theorem forall_update {P : ℕ → α → Prop} (h : ∀ j < n, P j (f j)) (hx : P k x) :
    ∀ j < n, P j (Function.update f k x j) := by
  intro j hj
  by_cases hjk : j = k
  · subst hjk
    rw [Function.update_self]
    exact hx
  · rw [Function.update_of_ne hjk]
    exact h j hj

theorem forall_add {P : ℕ → α → Prop} (h : ∀ j < n, P j (f j)) (hx : P n x) :
    ∀ j < n + 1, P j (Function.update f n x j) := by
  intro j hj
  by_cases hjn : j = n
  · subst hjn
    rw [Function.update_self]
    exact hx
  · rw [Function.update_of_ne hjn]
    exact h j (Nat.lt_of_le_of_ne (Nat.le_of_lt_succ hj) hjn)

section Sum

variable {M : Type*} [AddCommGroup M] (w : α → M)

theorem sum_update (hk : k < n) (x : α) :
    ∑ j ∈ range n, w (Function.update f k x j) = ∑ j ∈ range n, w (f j) + (w x - w (f k)) := by
  have hmem : k ∈ range n := Finset.mem_range.mpr hk
  have hrest : ∑ j ∈ (range n).erase k, w (Function.update f k x j) =
      ∑ j ∈ (range n).erase k, w (f j) := by
    refine Finset.sum_congr rfl fun j hj => ?_
    rw [Function.update_of_ne (Finset.ne_of_mem_erase hj)]
  rw [← Finset.add_sum_erase _ _ hmem, ← Finset.add_sum_erase _ (fun j => w (f j)) hmem, hrest,
    Function.update_self]
  abel

theorem sum_add (x : α) :
    ∑ j ∈ range (n + 1), w (Function.update f n x j) = ∑ j ∈ range n, w (f j) + w x := by
  have hrest : ∑ j ∈ range n, w (Function.update f n x j) = ∑ j ∈ range n, w (f j) := by
    refine Finset.sum_congr rfl fun j hj => ?_
    rw [Function.update_of_ne (Nat.ne_of_lt (Finset.mem_range.mp hj))]
  rw [Finset.sum_range_succ, hrest, Function.update_self]

end Sum

theorem sum_univ_update {ι M : Type*} [Fintype ι] [DecidableEq ι] [AddCommMonoid M] (w : α → M)
    (g : ι → α) (i : ι) (x : α) :
    ∑ j, w (Function.update g i x j) + w (g i) = ∑ j, w (g j) + w x := by
  have hrest : ∑ j ∈ Finset.univ.erase i, w (Function.update g i x j) =
      ∑ j ∈ Finset.univ.erase i, w (g j) := by
    refine Finset.sum_congr rfl fun j hj => ?_
    rw [Function.update_of_ne (Finset.ne_of_mem_erase hj)]
  rw [← Finset.add_sum_erase _ _ (Finset.mem_univ i),
    ← Finset.add_sum_erase _ (fun j => w (g j)) (Finset.mem_univ i), hrest, Function.update_self]
  abel

end PulsarRuntime.Family
