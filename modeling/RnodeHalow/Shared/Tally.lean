import Mathlib.Algebra.BigOperators.Fin
import Mathlib.Algebra.Order.BigOperators.Group.Finset

set_option autoImplicit false

namespace Tally

variable {ι α : Type} [Fintype ι] [DecidableEq ι]

def total (w : α → Nat) (table : ι → α) : Nat := ∑ k, w (table k)

theorem total_update (w : α → Nat) (table : ι → α) (k : ι) (x : α) :
    total w (Function.update table k x) + w (table k) = total w table + w x := by
  have moved : total w (Function.update table k x) =
      w x + ∑ k' ∈ Finset.univ \ {k}, w (table k') := by
    have comp : (fun k' => w (Function.update table k x k')) =
        Function.update (fun k' => w (table k')) k (w x) := by
      funext k'
      by_cases same : k' = k
      · subst same
        simp
      · simp [Function.update_of_ne same]
    rw [total, comp, Finset.sum_update_of_mem (Finset.mem_univ k)]
  have stayed : total w table = w (table k) + ∑ k' ∈ Finset.univ \ {k}, w (table k') := by
    rw [total, ← Finset.sum_sdiff (Finset.subset_univ {k}), Finset.sum_singleton, Nat.add_comm]
  omega

omit [DecidableEq ι] in
theorem le_total (w : α → Nat) (table : ι → α) (k : ι) : w (table k) ≤ total w table :=
  Finset.single_le_sum (f := fun k => w (table k)) (fun _ _ => Nat.zero_le _) (Finset.mem_univ k)

omit [DecidableEq ι] in
theorem total_eq_zero (w : α → Nat) (table : ι → α) (zero : ∀ k, w (table k) = 0) :
    total w table = 0 :=
  Finset.sum_eq_zero fun k _ => zero k

end Tally
