import Mathlib.Data.BitVec

set_option autoImplicit false

namespace Octets

def octet {n : Nat} (w : BitVec n) (i : Nat) : BitVec 8 := (w >>> (8 * i)).setWidth 8

def word (o₃ o₂ o₁ o₀ : BitVec 8) : BitVec 32 :=
  o₃.setWidth 32 <<< 24 ||| o₂.setWidth 32 <<< 16 ||| o₁.setWidth 32 <<< 8 ||| o₀.setWidth 32

theorem getElem_octet {n : Nat} (w : BitVec n) (i k : Nat) (inside : k < 8) :
    (octet w i)[k] = w.getLsbD (8 * i + k) := by
  simp [octet]

@[simp]
theorem octet_and {n : Nat} (v w : BitVec n) (i : Nat) :
    octet (v &&& w) i = octet v i &&& octet w i := by
  ext k inside
  simp [getElem_octet]

@[simp]
theorem octet_or {n : Nat} (v w : BitVec n) (i : Nat) :
    octet (v ||| w) i = octet v i ||| octet w i := by
  ext k inside
  simp [getElem_octet]

theorem octet_zero_add {n : Nat} (wide : 8 ≤ n) (v w : BitVec n) :
    octet (v + w) 0 = octet v 0 + octet w 0 := by
  simp [octet, BitVec.setWidth_add _ _ wide]

section Word

variable (o3 o2 o1 o0 : BitVec 8)

theorem getLsbD_word (k : Nat) : (word o3 o2 o1 o0).getLsbD k =
    if k < 8 then o0.getLsbD k else if k < 16 then o1.getLsbD (k - 8)
    else if k < 24 then o2.getLsbD (k - 16) else o3.getLsbD (k - 24) := by
  simp only [word, BitVec.getLsbD_or, BitVec.getLsbD_shiftLeft, BitVec.getLsbD_setWidth]
  by_cases low : k < 8
  · simp [low, show k < 16 by omega, show k < 24 by omega, show k < 32 by omega]
  by_cases second : k < 16
  · simp [low, second, show k < 24 by omega, show k < 32 by omega, show k - 8 < 32 by omega,
      BitVec.getLsbD_of_ge o0 k (by omega)]
  by_cases third : k < 24
  · simp [low, second, third, show k < 32 by omega, show k - 16 < 32 by omega,
      BitVec.getLsbD_of_ge o0 k (by omega), BitVec.getLsbD_of_ge o1 (k - 8) (by omega)]
  · have high : k - 24 < 32 ∧ k < 32 ∨ o3.getLsbD (k - 24) = false := by
      by_cases inside : k < 32
      · exact .inl ⟨by omega, inside⟩
      · exact .inr (BitVec.getLsbD_of_ge o3 (k - 24) (by omega))
    simp only [low, second, third, BitVec.getLsbD_of_ge o0 k (by omega),
      BitVec.getLsbD_of_ge o1 (k - 8) (by omega), BitVec.getLsbD_of_ge o2 (k - 16) (by omega)]
    rcases high with ⟨inside, bound⟩ | clear
    · simp [inside, bound]
    · simp [clear]

@[simp]
theorem octet_word_zero : octet (word o3 o2 o1 o0) 0 = o0 := by
  ext k inside
  rw [getElem_octet, getLsbD_word, if_pos (by omega), Nat.mul_zero, Nat.zero_add,
    BitVec.getLsbD_eq_getElem inside]

@[simp]
theorem octet_word_one : octet (word o3 o2 o1 o0) 1 = o1 := by
  ext k inside
  rw [getElem_octet, getLsbD_word, if_neg (by omega), if_pos (by omega),
    show 8 * 1 + k - 8 = k by omega, BitVec.getLsbD_eq_getElem inside]

@[simp]
theorem octet_word_two : octet (word o3 o2 o1 o0) 2 = o2 := by
  ext k inside
  rw [getElem_octet, getLsbD_word, if_neg (by omega), if_neg (by omega), if_pos (by omega),
    show 8 * 2 + k - 16 = k by omega, BitVec.getLsbD_eq_getElem inside]

@[simp]
theorem octet_word_three : octet (word o3 o2 o1 o0) 3 = o3 := by
  ext k inside
  rw [getElem_octet, getLsbD_word, if_neg (by omega), if_neg (by omega), if_neg (by omega),
    show 8 * 3 + k - 24 = k by omega, BitVec.getLsbD_eq_getElem inside]

end Word

theorem word_octets (w : BitVec 32) : word (octet w 3) (octet w 2) (octet w 1) (octet w 0) = w := by
  apply BitVec.eq_of_getLsbD_eq
  intro k inside
  rw [getLsbD_word]
  have bit (i j : Nat) (low : j < 8) : (octet w i).getLsbD j = w.getLsbD (8 * i + j) := by
    rw [BitVec.getLsbD_eq_getElem low, getElem_octet]
  split
  next low => rw [bit 0 k low, Nat.mul_zero, Nat.zero_add]
  next =>
    split
    next => rw [bit 1 (k - 8) (by omega), show 8 * 1 + (k - 8) = k by omega]
    next =>
      split
      next => rw [bit 2 (k - 16) (by omega), show 8 * 2 + (k - 16) = k by omega]
      next => rw [bit 3 (k - 24) (by omega), show 8 * 3 + (k - 24) = k by omega]

theorem ext_octets {v w : BitVec 32} (h3 : octet v 3 = octet w 3) (h2 : octet v 2 = octet w 2)
    (h1 : octet v 1 = octet w 1) (h0 : octet v 0 = octet w 0) : v = w := by
  rw [← word_octets v, ← word_octets w, h3, h2, h1, h0]

end Octets
