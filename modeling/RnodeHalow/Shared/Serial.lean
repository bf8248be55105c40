import Mathlib.Data.BitVec

set_option autoImplicit false

-- Numbers that grow without bound and travel as `w` bits, and windows over the newest of them.

namespace Serial

section Distance

variable {w : Nat}

theorem ofInt_sub (a b : Int) :
    BitVec.ofInt w a - BitVec.ofInt w b = BitVec.ofInt w (a - b) := (Int.cast_sub a b).symm

theorem ofInt_add (a b : Int) :
    BitVec.ofInt w (a + b) = BitVec.ofInt w a + BitVec.ofInt w b := Int.cast_add a b

theorem distance {a b : Int} (low : b ≤ a) (high : a - b < 2 ^ w) :
    ((BitVec.ofInt w a - BitVec.ofInt w b).toNat : Int) = a - b := by
  rw [ofInt_sub, BitVec.toNat_ofInt,
    Int.emod_eq_of_lt (by omega) (by exact_mod_cast high), Int.toNat_of_nonneg (by omega)]

theorem distance_ahead {a b : Int} (low : a < b) (high : b - a ≤ 2 ^ w) :
    ((BitVec.ofInt w a - BitVec.ofInt w b).toNat : Int) = 2 ^ w - (b - a) := by
  have turn : (a - b) % ((2 ^ w : Nat) : Int) = 2 ^ w - (b - a) := by
    rw [← Int.add_emod_right]
    rw [Int.emod_eq_of_lt] <;> push_cast <;> omega
  rw [ofInt_sub, BitVec.toNat_ofInt, turn, Int.toNat_of_nonneg (by omega)]

def unwrap (newest : Int) (seq : BitVec w) : Int := newest + (seq - BitVec.ofInt w newest).toInt

theorem ofInt_unwrap (newest : Int) (seq : BitVec w) : BitVec.ofInt w (unwrap newest seq) = seq := by
  rw [unwrap, ofInt_add, BitVec.ofInt_toInt, add_sub_cancel]

theorem unwrap_ahead {newest : Int} {seq : BitVec w}
    (near : 2 * (seq - BitVec.ofInt w newest).toNat < 2 ^ w) :
    unwrap newest seq = newest + (seq - BitVec.ofInt w newest).toNat := by
  rw [unwrap, BitVec.toInt_eq_toNat_of_lt near]

theorem unwrap_behind {newest : Int} {seq : BitVec w}
    (near : 2 * (BitVec.ofInt w newest - seq).toNat < 2 ^ w) :
    unwrap newest seq = newest - (BitVec.ofInt w newest - seq).toNat := by
  have opposite : seq - BitVec.ofInt w newest = -(BitVec.ofInt w newest - seq) :=
    (neg_sub _ _).symm
  rw [unwrap, opposite, BitVec.toInt_neg, BitVec.toInt_eq_toNat_of_lt near,
    Int.bmod_eq_of_le_mul_two]
  · rfl
  · omega
  · omega

end Distance

section Deadline

variable {w start now gap : Nat}

theorem add_mod_turn {m l d : Nat} (low : l < m) (high : d < m) :
    (l + d) % m = if l + d < m then l + d else l + d - m := by
  split
  · exact Nat.mod_eq_of_lt ‹_›
  · rw [Nat.mod_eq_sub_mod (by omega), Nat.mod_eq_of_lt (by omega)]

def SameTurn (w start now gap : Nat) : Prop :=
  start % 2 ^ w + (now - start) < 2 ^ w ↔ start % 2 ^ w + gap < 2 ^ w

theorem deadline_le_iff (order : start ≤ now) (recent : now - start < 2 ^ w) (short : gap < 2 ^ w) :
    BitVec.ofNat w start + BitVec.ofNat w gap ≤ BitVec.ofNat w now ↔
      (SameTurn w start now gap ∧ gap ≤ now - start) ∨
        (start % 2 ^ w + (now - start) < 2 ^ w ∧ 2 ^ w ≤ start % 2 ^ w + gap) := by
  obtain ⟨d, rfl⟩ := Nat.exists_eq_add_of_le order
  rw [Nat.add_sub_cancel_left] at recent ⊢
  have low : start % 2 ^ w < 2 ^ w := Nat.mod_lt _ (Nat.two_pow_pos w)
  have clock : (start + d) % 2 ^ w = (start % 2 ^ w + d) % 2 ^ w := by rw [Nat.mod_add_mod]
  rw [BitVec.le_def, BitVec.toNat_add, BitVec.toNat_ofNat, BitVec.toNat_ofNat, BitVec.toNat_ofNat,
    Nat.mod_eq_of_lt short, clock, add_mod_turn low short, add_mod_turn low recent, SameTurn,
    Nat.add_sub_cancel_left]
  generalize start % 2 ^ w = l at low
  generalize 2 ^ w = m at *
  split <;> split <;> omega

end Deadline

def Exact {n : Nat} (win : BitVec n) (newest : Int) (got : Set Int) : Prop :=
  ∀ k < n, win.getLsbD k = true ↔ newest - k ∈ got

structure Receipts where
  newest : Int
  got : Set Int
  newest_mem : newest ∈ got
  le_newest : ∀ m ∈ got, m ≤ newest

namespace Receipts

def single (first : Int) : Receipts where
  newest := first
  got := {first}
  newest_mem := rfl
  le_newest _ mem := le_of_eq mem

def receive (r : Receipts) (m : Int) : Receipts where
  newest := max r.newest m
  got := insert m r.got
  newest_mem := by
    rcases le_total m r.newest with late | ahead
    · rw [max_eq_left late]
      exact .inr r.newest_mem
    · rw [max_eq_right ahead]
      exact .inl rfl
  le_newest := by
    rintro k (rfl | old)
    · exact le_max_right _ _
    · exact le_max_of_le_left (r.le_newest k old)

def note {w : Nat} (r : Receipts) (seq : BitVec w) : Receipts := r.receive (unwrap r.newest seq)

end Receipts

section Window

variable {n : Nat} {win : BitVec n} {r : Receipts}

theorem exact_single (first : Int) :
    Exact (1#n) (Receipts.single first).newest (Receipts.single first).got := by
  intro k bound
  have number : first - k ∈ (Receipts.single first).got ↔ k = 0 := by
    show first - k = first ↔ _
    omega
  rw [BitVec.getLsbD_one]
  show _ ↔ first - k ∈ (Receipts.single first).got
  rw [number]
  simp
  omega

theorem Exact.advance (exact : Exact win r.newest r.got) {d : Nat} (ahead : 0 < d) :
    Exact (win <<< d ||| 1#n) (r.newest + d) (insert (r.newest + d) r.got) := by
  intro k bound
  rw [BitVec.getLsbD_or, BitVec.getLsbD_shiftLeft, BitVec.getLsbD_one, Set.mem_insert_iff]
  rcases Nat.lt_or_ge k d with inside | behind
  · have fresh : r.newest + d - k ∉ r.got := fun h => by
      have := r.le_newest _ h
      omega
    have newer : r.newest + d - k = r.newest + d ↔ k = 0 := by omega
    rw [newer]
    simp [inside, fresh]
    omega
  · have bit := exact (k - d) (by omega)
    have number : r.newest + d - k = r.newest - ((k - d : Nat) : Int) := by omega
    have other : ¬ (r.newest - ((k - d : Nat) : Int) = r.newest + d) := by omega
    rw [number]
    simp [bound, show ¬ k < d by omega, show ¬ k = 0 by omega, other, bit]

theorem Exact.mark_iff (exact : Exact win r.newest r.got) (mask : BitVec n) {d : Nat}
    (late : d < n) :
    Exact (win ||| mask) r.newest (insert (r.newest - d) r.got) ↔
      (mask.getLsbD d = true ∨ r.newest - d ∈ r.got) ∧
        ∀ k < n, mask.getLsbD k = true → k = d ∨ r.newest - k ∈ r.got := by
  constructor
  · intro after
    refine ⟨?_, fun k bound set => ?_⟩
    · have bit := (after d late).mpr (.inl rfl)
      rw [BitVec.getLsbD_or, Bool.or_eq_true] at bit
      rcases bit with before | new
      · exact .inr ((exact d late).mp before)
      · exact .inl new
    · have bit := (after k bound).mp (by rw [BitVec.getLsbD_or, set, Bool.or_true])
      rcases bit with same | before
      · exact .inl (by omega)
      · exact .inr before
  · rintro ⟨own, others⟩ k bound
    rw [BitVec.getLsbD_or, Bool.or_eq_true, exact k bound, Set.mem_insert_iff]
    constructor
    · rintro (before | new)
      · exact .inr before
      · rcases others k bound new with same | before
        · exact .inl (by rw [same])
        · exact .inr before
    · rintro (same | before)
      · obtain rfl : k = d := by omega
        exact own.symm
      · exact .inl before

end Window

section Words

variable {w : Nat}

theorem and_one_ne_zero_iff (x : BitVec w) (k : Nat) :
    (x >>> k) &&& 1#w ≠ 0 ↔ x.getLsbD k = true := by
  have bit : ∀ i, ((x >>> k) &&& 1#w).getLsbD i = (x.getLsbD (k + i) && decide (i = 0)) := by
    intro i
    rw [BitVec.getLsbD_and, BitVec.getLsbD_ushiftRight, BitVec.getLsbD_one]
    by_cases fits : 0 < w
    · simp [fits]
    · have none : w = 0 := by omega
      subst none
      simp
  constructor
  · intro nonzero
    by_contra clear
    apply nonzero
    apply BitVec.eq_of_getLsbD_eq
    intro i _
    rw [bit]
    by_cases zero : i = 0 <;> simp_all
  · intro set zero
    have := bit 0
    simp [zero, set] at this

theorem getLsbD_gather (f : Nat → Prop) [DecidablePred f] {n i : Nat} (fits : n ≤ w) :
    ((List.range n).foldl (fun bm k => if f k then bm ||| 1#w <<< k else bm) 0).getLsbD i =
      (decide (i < n) && decide (f i)) := by
  induction n with
  | zero => simp
  | succ n ih =>
    rw [List.range_succ, List.foldl_append]
    simp only [List.foldl_cons, List.foldl_nil]
    have before := ih (by omega)
    have bit : (1#w <<< n).getLsbD i = decide (i = n) := by
      rw [← BitVec.twoPow_eq, BitVec.getLsbD_twoPow]
      simp [show n < w by omega, eq_comm]
    by_cases set : f n
    · rw [if_pos set, BitVec.getLsbD_or, before, bit]
      by_cases same : i = n
      · simp [same, set]
      · simp [same, show i < n + 1 ↔ i < n by omega]
    · rw [if_neg set, before]
      by_cases same : i = n
      · simp [same, set]
      · simp [show i < n + 1 ↔ i < n by omega]

theorem getLsbD_bytes (byte : Nat → BitVec 8) {n i : Nat} (fits : i < w) :
    ((List.range n).foldl (fun bm k => bm ||| (byte k).setWidth w <<< (8 * k)) 0).getLsbD i =
      (decide (i < 8 * n) && (byte (i / 8)).getLsbD (i % 8)) := by
  induction n with
  | zero => simp
  | succ n ih =>
    rw [List.range_succ, List.foldl_append]
    simp only [List.foldl_cons, List.foldl_nil]
    rw [BitVec.getLsbD_or, ih, BitVec.getLsbD_shiftLeft, BitVec.getLsbD_setWidth]
    rcases Nat.lt_or_ge i (8 * n) with low | rest
    · simp [low, show i < 8 * (n + 1) by omega]
    · by_cases own : i < 8 * (n + 1)
      · have quotient : i / 8 = n := by omega
        have remainder : i % 8 = i - 8 * n := by omega
        simp [quotient, remainder, own, fits, show ¬ i < 8 * n by omega, show i - 8 * n < w by omega]
      · have beyond : (byte n).getLsbD (i - 8 * n) = false := BitVec.getLsbD_of_ge _ _ (by omega)
        simp [own, beyond, show ¬ i < 8 * n by omega]

end Words

end Serial
