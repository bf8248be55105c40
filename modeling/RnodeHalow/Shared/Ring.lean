import Mathlib.Data.List.Basic

set_option autoImplicit false

-- One cell stays free, so that the positions tell a full ring from an empty one.

namespace Ring

variable {α : Type} {size r w : Nat} {cells : Nat → α} {q : List α}

def slot (size r i : Nat) : Nat := if r + i < size then r + i else r + i - size

theorem slot_zero (inside : r < size) : slot size r 0 = r := if_pos inside

structure Holds (size : Nat) (cells : Nat → α) (r w : Nat) (q : List α) : Prop where
  reads : r < size
  room : q.length < size
  writes : slot size r q.length = w
  held : ∀ i < q.length, q[i]? = some (cells (slot size r i))

namespace Holds

theorem empty (inside : r < size) : Holds size cells r r [] where
  reads := inside
  room := by rw [List.length_nil]; omega
  writes := slot_zero inside
  held i none := by cases none

theorem place (holds : Holds size cells r w q) :
    w < size ∧ (w = r + q.length ∨ w + size = r + q.length) := by
  obtain ⟨reads, room, rfl, -⟩ := holds
  unfold slot
  split <;> omega

theorem push (holds : Holds size cells r w q) (fits : q.length + 1 < size) (x : α) :
    Holds size (Function.update cells w x) r (slot size w 1) (q ++ [x]) := by
  have reads := holds.reads
  obtain ⟨inside, place⟩ := holds.place
  refine ⟨reads, by rwa [List.length_append], ?_, fun i listed => ?_⟩
  · rw [List.length_append, List.length_singleton]
    unfold slot
    split_ifs <;> omega
  · rw [List.length_append, List.length_singleton] at listed
    rcases Nat.lt_succ_iff_lt_or_eq.mp listed with early | rfl
    · rw [List.getElem?_append_left early, holds.held i early, Function.update_of_ne]
      unfold slot
      split_ifs <;> omega
    · rw [List.getElem?_concat_length, holds.writes, Function.update_self]

theorem pop {x : α} (holds : Holds size cells r w (x :: q)) : Holds size cells (slot size r 1) w q := by
  obtain ⟨reads, room, writes, held⟩ := holds
  rw [List.length_cons] at room writes
  have moved (i : Nat) (more : i + 1 < size) : slot size (slot size r 1) i = slot size r (i + 1) := by
    unfold slot
    split_ifs <;> omega
  refine ⟨?_, by omega, (moved _ room).trans writes, fun i listed => ?_⟩
  · unfold slot
    split <;> omega
  · rw [moved i (by omega)]
    exact held (i + 1) (Nat.succ_lt_succ listed)

theorem empty_iff (holds : Holds size cells r w q) : r = w ↔ q = [] := by
  have reads := holds.reads
  have room := holds.room
  obtain ⟨-, place⟩ := holds.place
  rw [← List.length_eq_zero_iff]
  omega

theorem full_iff (holds : Holds size cells r w q) : slot size w 1 = r ↔ q.length + 1 = size := by
  have reads := holds.reads
  have room := holds.room
  obtain ⟨inside, place⟩ := holds.place
  unfold slot
  split_ifs <;> omega

end Holds

end Ring
