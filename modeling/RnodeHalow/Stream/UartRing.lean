import RnodeHalow.Wire
import RnodeHalow.Shared.Ring

set_option autoImplicit false

-- The interrupt handler puts bytes in between any two accesses of the task; neither locks.

namespace RnodeHalow.Stream

open Ring (Holds slot)

def uartSlipRbSize : Nat := 2048

def slipRbNext (v : Nat) : Nat := if v + 1 ≥ uartSlipRbSize then 0 else v + 1

inductive SlipGet where
  | idle
  -- `slip_rb_tail` was found to differ from `slip_rb_head`
  | found (tail : Nat)
  | fetched (tail : Nat) (byte : Byte)

structure SlipRb where
  rb : Nat → Byte
  head : Nat
  tail : Nat
  overflow : BitVec 32
  task : SlipGet
  -- ghosts: the bytes that were put in and the bytes that `slip_rb_get` returned
  accepted : List Byte
  got : List Byte

namespace SlipRb

def put (byte : Byte) (s : SlipRb) : SlipRb :=
  let next := slipRbNext s.head
  if next = s.tail then { s with overflow := s.overflow + 1 }
  else
    { s with
      rb := Function.update s.rb s.head byte
      head := next
      accepted := s.accepted ++ [byte] }

-- One access of `slip_rb_get` to what the handler shares.
def get (s : SlipRb) : SlipRb :=
  match s.task with
  | .idle => if s.tail = s.head then s else { s with task := .found s.tail }
  | .found tail => { s with task := .fetched tail (s.rb tail) }
  | .fetched tail byte =>
    { s with tail := slipRbNext tail, task := .idle, got := s.got ++ [byte] }

inductive Act where
  | irq (byte : Byte)
  | task

def step (s : SlipRb) : Act → SlipRb
  | .irq byte => s.put byte
  | .task => s.get

-- `slip_rb_reset` leaves the bytes of the array as they are.
def reset (rb : Nat → Byte) : SlipRb := ⟨rb, 0, 0, 0, .idle, [], []⟩

structure Sound (offered : List Byte) (s : SlipRb) (q : List Byte) : Prop where
  holds : Holds uartSlipRbSize s.rb s.tail s.head q
  order : s.accepted = s.got ++ q
  sublist : s.accepted.Sublist offered
  counted : s.overflow = BitVec.ofNat 32 (offered.length - s.accepted.length)
  task : match s.task with
    | .idle => True
    | .found tail => tail = s.tail ∧ q ≠ []
    | .fetched tail byte => tail = s.tail ∧ q.head? = some byte

variable {l : List Byte} {s : SlipRb} {q : List Byte}

theorem slipRbNext_eq {v : Nat} (inside : v < uartSlipRbSize) :
    slipRbNext v = slot uartSlipRbSize v 1 := by
  unfold slipRbNext slot
  split_ifs <;> omega

theorem put_accepted (holds : Holds uartSlipRbSize s.rb s.tail s.head q) (byte : Byte) :
    (s.put byte).accepted =
      if q.length + 1 = uartSlipRbSize then s.accepted else s.accepted ++ [byte] := by
  simp only [SlipRb.put, slipRbNext_eq holds.place.1, ← holds.full_iff]
  split <;> rfl

theorem Sound.put (sound : Sound l s q) (byte : Byte) :
    ∃ q', Sound (l ++ [byte]) (s.put byte) q' := by
  obtain ⟨holds, order, sublist, counted, task⟩ := sound
  have room := holds.room
  have short := sublist.length_le
  unfold SlipRb.put
  rw [slipRbNext_eq holds.place.1]
  dsimp only
  split
  next full =>
    refine ⟨q, holds, order, sublist.trans (List.sublist_append_left l _), ?_, task⟩
    rw [counted, List.length_append, Nat.sub_add_comm short, BitVec.ofNat_add]
    rfl
  next free =>
    have fits := holds.full_iff.not.mp free
    refine ⟨q ++ [byte], holds.push (by omega) byte, ?_, sublist.append (.refl _), ?_, ?_⟩
    · rw [order, List.append_assoc]
    · rw [counted, List.length_append, List.length_append, Nat.add_sub_add_right]
    · dsimp only
      split at task
      next => trivial
      next => exact ⟨task.1, by simp⟩
      next => exact ⟨task.1, by rw [List.head?_append, task.2]; rfl⟩

theorem Sound.get (sound : Sound l s q) : ∃ q', Sound l s.get q' := by
  obtain ⟨holds, order, sublist, counted, task⟩ := sound
  unfold SlipRb.get
  split
  next =>
    split
    next => exact ⟨q, holds, order, sublist, counted, task⟩
    next some => exact ⟨q, holds, order, sublist, counted, rfl, holds.empty_iff.not.mp some⟩
  next tail at_found =>
    rw [at_found] at task
    obtain ⟨rfl, some⟩ := task
    refine ⟨q, holds, order, sublist, counted, rfl, ?_⟩
    have first := holds.held 0 (List.length_pos_iff.mpr some)
    rwa [Ring.slot_zero holds.reads, ← List.head?_eq_getElem?] at first
  next tail byte at_fetched =>
    rw [at_fetched] at task
    obtain ⟨rfl, first⟩ := task
    obtain ⟨rest, rfl⟩ := List.head?_eq_some_iff.mp first
    refine ⟨rest, ?_, ?_, sublist, counted, trivial⟩
    · rw [slipRbNext_eq holds.reads]
      exact holds.pop
    · rw [order, List.append_assoc]
      rfl

def Act.offered : Act → List Byte
  | .irq byte => [byte]
  | .task => []

def run (rb : Nat → Byte) (acts : List Act) : SlipRb := acts.foldl step (reset rb)

theorem run_sound (rb : Nat → Byte) (acts : List Act) :
    ∃ q, Sound (acts.flatMap Act.offered) (run rb acts) q := by
  induction acts using List.reverseRecOn with
  | nil => exact ⟨[], .empty (show 0 < uartSlipRbSize by decide), rfl, .slnil, rfl, trivial⟩
  | append_singleton acts act ih =>
    obtain ⟨q, sound⟩ := ih
    rw [run, List.foldl_append, List.flatMap_append, List.flatMap_singleton]
    cases act with
    | irq byte => exact sound.put byte
    | task =>
      rw [Act.offered, List.append_nil]
      exact sound.get

-- A byte is only refused when 2047 are waiting.
theorem slip_bytes_in_order (rb : Nat → Byte) (acts : List Act) :
    ∃ q, (run rb acts).accepted = (run rb acts).got ++ q ∧
      (run rb acts).accepted.Sublist (acts.flatMap Act.offered) ∧
      (run rb acts).overflow = BitVec.ofNat 32
        ((acts.flatMap Act.offered).length - (run rb acts).accepted.length) ∧
      ∀ byte, ((run rb acts).put byte).accepted =
        if q.length + 1 = uartSlipRbSize then (run rb acts).accepted
        else (run rb acts).accepted ++ [byte] := by
  obtain ⟨q, sound⟩ := run_sound rb acts
  exact ⟨q, sound.order, sound.sublist, sound.counted, put_accepted sound.holds⟩

end SlipRb

end RnodeHalow.Stream
