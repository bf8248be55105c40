import Mathlib.Data.List.Basic

set_option autoImplicit false

namespace Buffer

variable {α : Type}

def put (buf : Nat → α) (off : Nat) (xs : List α) : Nat → α := fun p =>
  if off ≤ p then xs[p - off]?.getD (buf p) else buf p

def get (buf : Nat → α) (off n : Nat) : List α := (List.range n).map fun i => buf (off + i)

theorem put_apply (buf : Nat → α) (off : Nat) (xs : List α) (d : α) (p : Nat) :
    put buf off xs p =
      if off ≤ p ∧ p < off + xs.length then xs.getD (p - off) d else buf p := by
  unfold put
  by_cases start : off ≤ p
  · by_cases inside : p < off + xs.length
    · have bound : p - off < xs.length := by omega
      rw [if_pos start, if_pos ⟨start, inside⟩, List.getD_eq_getElem?_getD,
        List.getElem?_eq_getElem bound]
      rfl
    · rw [if_pos start, if_neg (by omega), List.getElem?_eq_none (by omega)]
      rfl
  · rw [if_neg start, if_neg (by omega)]

theorem put_outside {buf : Nat → α} {off : Nat} {xs : List α} {p : Nat}
    (outside : p < off ∨ off + xs.length ≤ p) : put buf off xs p = buf p := by
  rw [put_apply buf off xs (buf p), if_neg (by omega)]

@[simp]
theorem put_nil (buf : Nat → α) (off : Nat) : put buf off [] = buf := by
  funext p
  exact put_outside (by simp only [List.length_nil]; omega)

theorem put_append (buf : Nat → α) (off : Nat) (xs ys : List α) :
    put (put buf off xs) (off + xs.length) ys = put buf off (xs ++ ys) := by
  funext p
  unfold put
  by_cases late : off + xs.length ≤ p
  · have skip : xs.length ≤ p - off := by omega
    rw [if_pos late, if_pos (by omega), List.getElem?_append_right skip,
      List.getElem?_eq_none skip, if_pos (by omega), Nat.sub_add_eq]
    rfl
  · by_cases start : off ≤ p
    · rw [if_neg late, if_pos start, if_pos start, List.getElem?_append_left (by omega)]
    · rw [if_neg late, if_neg start, if_neg start]

@[simp]
theorem get_length (buf : Nat → α) (off n : Nat) : (get buf off n).length = n := by
  simp [get]

theorem get_getElem? {buf : Nat → α} {off n i : Nat} (inside : i < n) :
    (get buf off n)[i]? = some (buf (off + i)) := by
  rw [get, List.getElem?_map, List.getElem?_range inside]
  rfl

theorem get_put (buf : Nat → α) (off : Nat) (xs : List α) :
    get (put buf off xs) off xs.length = xs := by
  apply List.ext_getElem?
  intro i
  by_cases inside : i < xs.length
  · rw [get_getElem? inside, put, if_pos (Nat.le_add_right off i), Nat.add_sub_cancel_left,
      List.getElem?_eq_getElem inside]
    rfl
  · rw [List.getElem?_eq_none (by simpa using inside),
      List.getElem?_eq_none (Nat.le_of_not_lt inside)]

theorem get_congr {buf buf' : Nat → α} {off n : Nat}
    (same : ∀ p, off ≤ p → p < off + n → buf p = buf' p) : get buf off n = get buf' off n := by
  apply List.map_congr_left
  intro i inside
  exact same _ (Nat.le_add_right off i) (Nat.add_lt_add_left (List.mem_range.mp inside) off)

theorem get_put_away {buf : Nat → α} {off : Nat} {xs : List α} {start n : Nat}
    (away : start + n ≤ off ∨ off + xs.length ≤ start) :
    get (put buf off xs) start n = get buf start n :=
  get_congr fun _ _ _ => put_outside (by omega)

theorem get_drop_take {buf : Nat → α} {off n k m : Nat} (inside : k + m ≤ n) :
    ((get buf off n).drop k).take m = get buf (off + k) m := by
  apply List.ext_getElem?
  intro i
  by_cases low : i < m
  · rw [List.getElem?_take_of_lt low, List.getElem?_drop, get_getElem? (by omega),
      get_getElem? low, Nat.add_assoc]
  · rw [List.getElem?_eq_none (by simp; omega), List.getElem?_eq_none (by simpa using low)]

structure Writes (f : (Nat → α) → Nat → α) (off n : Nat) : Prop where
  outside : ∀ buf p, p < off ∨ off + n ≤ p → f buf p = buf p
  inside : ∀ buf buf' p, off ≤ p → p < off + n → f buf p = f buf' p

theorem put_writes (off : Nat) (xs : List α) : Writes (put · off xs) off xs.length where
  outside _ _ away := put_outside away
  inside buf buf' p start stop := by
    have bound : p - off < xs.length := by omega
    simp [put, start, List.getElem?_eq_getElem bound]

def readAt (d : List α) (k : Nat) : Option α := d[k]?

def writeAt (d : List α) (k : Nat) (x : α) : Option (List α) :=
  if k < d.length then some (d.set k x) else none

theorem readAt_inside {d : List α} {k : Nat} (inside : k < d.length) (x : α) :
    readAt d k = some (d.getD k x) := by
  rw [readAt, List.getD_eq_getElem?_getD, List.getElem?_eq_getElem inside]
  rfl

theorem writeAt_inside {d : List α} {k : Nat} (inside : k < d.length) (x : α) :
    writeAt d k x = some (d.set k x) := if_pos inside

end Buffer
