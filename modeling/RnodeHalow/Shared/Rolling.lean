import RnodeHalow.Shared.Tally
import Mathlib.Data.List.GetD

set_option autoImplicit false

structure Rolling (α : Type) (n : Nat) where
  cells : Fin n → α
  next : Fin n

namespace Rolling

variable {α : Type} {n : Nat}

def push (r : Rolling α n) (x : α) : Rolling α n where
  cells := Function.update r.cells r.next x
  next := ⟨(r.next + 1) % n, Nat.mod_lt _ r.next.pos⟩

def age (r : Rolling α n) (i : Fin n) : Nat :=
  if i.val < r.next.val then r.next.val - 1 - i.val else r.next.val + n - 1 - i.val

def Holds (r : Rolling α n) (blank : α) (past : List α) : Prop :=
  ∀ i, r.cells i = past.getD (r.age i) blank

theorem push_next (r : Rolling α n) (x : α) :
    (r.push x).next.val = if r.next.val + 1 = n then 0 else r.next.val + 1 := by
  have bound := r.next.isLt
  simp only [push]
  split <;> rename_i last
  · rw [last, Nat.mod_self]
  · exact Nat.mod_eq_of_lt (by omega)

theorem push_age_next (r : Rolling α n) (x : α) : (r.push x).age r.next = 0 := by
  simp only [age, push_next]
  split <;> split <;> omega

theorem push_age_of_ne (r : Rolling α n) (x : α) {i : Fin n} (other : i ≠ r.next) :
    (r.push x).age i = r.age i + 1 := by
  have bound := i.isLt
  have apart : i.val ≠ r.next.val := Fin.val_ne_of_ne other
  simp only [age, push_next]
  split <;> split <;> split <;> omega

theorem holds_nil (r : Rolling α n) {blank : α} (fresh : ∀ i, r.cells i = blank) :
    r.Holds blank [] := by
  intro i
  rw [fresh, List.getD_nil]

theorem Holds.push {r : Rolling α n} {blank : α} {past : List α} (holds : r.Holds blank past)
    (x : α) : (r.push x).Holds blank (x :: past) := by
  intro i
  by_cases written : i = r.next
  · rw [written, push_age_next, List.getD_cons_zero]
    exact Function.update_self ..
  · rw [push_age_of_ne r x written, List.getD_cons_succ, ← holds i]
    exact Function.update_of_ne written ..

theorem age_lt (r : Rolling α n) (i : Fin n) : r.age i < n := by
  have bound := i.isLt
  unfold age
  split <;> omega

theorem age_injective (r : Rolling α n) : Function.Injective r.age := by
  intro i j same
  have left := i.isLt
  have right := j.isLt
  apply Fin.ext
  unfold age at same
  split at same <;> split at same <;> omega

theorem sum_take (w : α → Nat) {blank : α} (weightless : w blank = 0) (past : List α) (k : Nat) :
    ∑ i ∈ Finset.range k, w (past.getD i blank) = ((past.take k).map w).sum := by
  induction past generalizing k with
  | nil => simp [weightless]
  | cons x past ih =>
    cases k with
    | zero => simp
    | succ k =>
      rw [Finset.sum_range_succ']
      simp only [List.getD_cons_succ, List.getD_cons_zero, ih k]
      rw [List.take_succ_cons, List.map_cons, List.sum_cons, Nat.add_comm]

theorem Holds.total {r : Rolling α n} {blank : α} {past : List α} (w : α → Nat)
    (weightless : w blank = 0) (holds : r.Holds blank past) :
    Tally.total w r.cells = ((past.take n).map w).sum := by
  let aged : Fin n → Fin n := fun i => ⟨r.age i, r.age_lt i⟩
  have one : Function.Bijective aged := by
    apply Finite.injective_iff_bijective.mp
    intro i j same
    exact r.age_injective (Fin.mk.inj same)
  calc Tally.total w r.cells
      = ∑ i, w (past.getD (aged i).val blank) := by
        apply Finset.sum_congr rfl
        intro i _
        rw [holds i]
    _ = ∑ k : Fin n, w (past.getD k.val blank) :=
        one.sum_comp fun k => w (past.getD k.val blank)
    _ = ∑ k ∈ Finset.range n, w (past.getD k blank) :=
        Fin.sum_univ_eq_sum_range (fun k => w (past.getD k blank)) n
    _ = ((past.take n).map w).sum := sum_take w weightless past n

end Rolling
