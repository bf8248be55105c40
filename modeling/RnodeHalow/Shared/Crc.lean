import Mathlib.Data.BitVec

set_option autoImplicit false

namespace Crc

def clock (poly c : BitVec 32) (bit : Bool) : BitVec 32 :=
  (c >>> 1) ^^^ if c.getLsbD 0 ^^ bit then poly else 0#32

def bits (byte : BitVec 8) : List Bool := (List.range 8).map byte.getLsbD

def register (poly start : BitVec 32) (message : List (BitVec 8)) : BitVec 32 :=
  (message.flatMap bits).foldl (clock poly) start

def shift (poly c : BitVec 32) : BitVec 32 :=
  if c &&& 1#32 = 1#32 then poly ^^^ (c >>> 1) else c >>> 1

def feed (poly c : BitVec 32) (message : List (BitVec 8)) : BitVec 32 :=
  message.foldl (fun c byte => (shift poly)^[8] (c ^^^ byte.setWidth 32)) c

variable (poly : BitVec 32)

theorem shift_eq (c : BitVec 32) : shift poly c = clock poly c false := by
  have low : c &&& 1#32 = 1#32 ↔ c.getLsbD 0 = true := by
    rw [BitVec.and_one_eq_setWidth_ofBool_getLsbD]
    cases c.getLsbD 0 <;> decide
  unfold shift clock
  rw [Bool.xor_false]
  by_cases set : c.getLsbD 0 = true
  · rw [if_pos (low.mpr set), if_pos set, BitVec.xor_comm]
  · rw [if_neg (mt low.mp set), if_neg set, BitVec.xor_zero]

theorem shift_xor (c y : BitVec 32) :
    shift poly (c ^^^ y) = clock poly c (y.getLsbD 0) ^^^ (y >>> 1) := by
  rw [shift_eq]
  simp only [clock, BitVec.getLsbD_xor, BitVec.ushiftRight_xor_distrib, Bool.xor_false]
  ac_rfl

theorem shift_iterate (n : Nat) (c y : BitVec 32) :
    (shift poly)^[n] (c ^^^ y) =
      ((List.range n).map y.getLsbD).foldl (clock poly) c ^^^ (y >>> n) := by
  induction n with
  | zero => rfl
  | succ n ih =>
    rw [Function.iterate_succ_apply', ih, shift_xor, List.range_succ, List.map_append,
      List.foldl_append, BitVec.shiftRight_add, BitVec.getLsbD_ushiftRight, Nat.add_zero]
    rfl

theorem feed_eq_register (start : BitVec 32) (message : List (BitVec 8)) :
    feed poly start message = register poly start message := by
  induction message generalizing start with
  | nil => rfl
  | cons byte rest ih =>
    have gone : (byte.setWidth 32) >>> 8 = 0#32 := by
      ext i inside
      simp
    have same : (List.range 8).map (byte.setWidth 32).getLsbD = bits byte := by
      apply List.map_congr_left
      intro i inside
      rw [BitVec.getLsbD_setWidth, decide_eq_true (by have := List.mem_range.mp inside; omega),
        Bool.true_and]
    have first := shift_iterate poly 8 start (byte.setWidth 32)
    rw [gone, same, BitVec.xor_zero] at first
    rw [feed, List.foldl_cons, first, register, List.flatMap_cons, List.foldl_append]
    exact ih _

theorem feed_append (start : BitVec 32) (a b : List (BitVec 8)) :
    feed poly start (a ++ b) = feed poly (feed poly start a) b := List.foldl_append

end Crc
