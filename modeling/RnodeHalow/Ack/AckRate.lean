import RnodeHalow.Ack.Obligation
import RnodeHalow.Shared.Course

set_option autoImplicit false

namespace RnodeHalow.Ack

open Resumption

variable {ρ : Type} [Platform ρ]

def mcsSpeed (mcs : Byte) : Nat := if mcs = 10#8 then 0 else mcs.toNat + 1

def peerRate (b : Body ρ) (i : PeerIx) : Byte :=
  let c := (b.peers i).txMcs
  if c = halowMcsDefault then dfltMcs b else c

omit [Platform ρ] in
theorem ackMcsFor_found {b : Body ρ} {dest : Mac} {i : PeerIx} (found : peerFind b dest = some i) :
    ackMcsFor b dest = if peerRate b i > ackMcsMax then ackMcsMax else peerRate b i := by
  rw [ackMcsFor, found]
  rfl

theorem capped_speed_le_iff (c : Byte) :
    mcsSpeed (if c > ackMcsMax then ackMcsMax else c) ≤ mcsSpeed c ↔ c ≠ 10#8 := by
  have all : ∀ c : Byte,
      decide (mcsSpeed (if c > ackMcsMax then ackMcsMax else c) ≤ mcsSpeed c) = !(c == 10#8) := by
    decide +kernel
  have here := all c
  rw [Bool.eq_iff_iff] at here
  simpa using here

def HandsAck (b : Body ρ) (dest : Mac) (mcs : Byte) (b' : Body ρ) : Prop :=
  ∃ n frame, b'.trace = (n, .txP frame dest mcs 7#8) :: b.trace

theorem sendEnvAck_hands (evm : Byte) (dest : Mac) (base : BitVec 16) (bm : BitVec 64)
    (ackMcs : Byte) (t : Nat) (b : Body ρ) :
    HandsAck b dest ackMcs (sendEnvAck evm dest base bm ackMcs t b).2 :=
  ⟨_, _, rfl⟩

theorem sendFidAck_hands (evm : Byte) (dest : Mac) (fids : List (BitVec 16)) (ackMcs : Byte)
    (t : Nat) (b : Body ρ) : HandsAck b dest ackMcs (sendFidAck evm dest fids ackMcs t b).2 :=
  ⟨_, _, rfl⟩

theorem sendAck_course {evm : Byte} {dest : Mac} {fids : List (BitVec 16)} {s last : Node ρ}
    {states : List (Node ρ)} (course : (sendAck evm dest fids s).Course states () last) :
    ∃ s1 s2 s3 s4, states = [s1, s2, s3, s4] ∧
      HandsAck s4.body dest (ackMcsFor s1.body dest) last.body := by
  obtain ⟨mcs, s2, _, _, rfl, rate, noting⟩ := Res.Course.bind course
  obtain ⟨s1, rfl, rfl⟩ := locked_read_course rate
  obtain ⟨_, _, _, _, rfl, noted, locking⟩ := Res.Course.bind noting
  obtain ⟨rfl, -, rfl⟩ := sec_course noted
  obtain ⟨_, _, _, _, rfl, locked, capturing⟩ := Res.Course.bind locking
  obtain ⟨s3, rfl, rfl⟩ := lock_course locked
  obtain ⟨env, _, _, _, rfl, captured, unlocking⟩ := Res.Course.bind capturing
  obtain ⟨rfl, -, rfl⟩ := sec_course captured
  obtain ⟨_, s4, _, _, rfl, unlocked, sending⟩ := Res.Course.bind unlocking
  obtain rfl := unlock_course unlocked
  cases env with
  | some e =>
    obtain ⟨rfl, -, rfl⟩ := sec_course sending
    exact ⟨s1, s2, s3, s4, rfl, sendEnvAck_hands ..⟩
  | none =>
    obtain ⟨rfl, -, rfl⟩ := sec_course sending
    exact ⟨s1, s2, s3, s4, rfl, sendFidAck_hands ..⟩

-- The rate is read in the first of the four states of `send_ack`; the frame goes out in the last.
theorem ack_rate_iff (evm : Byte) (dest : Mac) (fids : List (BitVec 16)) (s last : Node ρ)
    (states : List (Node ρ)) (course : (sendAck evm dest fids s).Course states () last) :
    ∃ reading noting locking sending, states = [reading, noting, locking, sending] ∧
      HandsAck sending.body dest (ackMcsFor reading.body dest) last.body ∧
      ∀ i, peerFind reading.body dest = some i →
        (mcsSpeed (ackMcsFor reading.body dest) ≤ mcsSpeed (peerRate reading.body i) ↔
          peerRate reading.body i ≠ 10#8) := by
  obtain ⟨s₁, s₂, s₃, s₄, rfl, hands⟩ := sendAck_course course
  refine ⟨s₁, s₂, s₃, s₄, rfl, hands, fun i found => ?_⟩
  rw [ackMcsFor_found found]
  exact capped_speed_le_iff _

def oneBundle : List (Move Board) :=
  .start 1 (.onRx (bundleOf 0) remoteMac (some ownMac) 0) :: List.replicate 9 (.resume 1)

def answering (mcs : Byte) : Option (Threads Board) :=
  playAll oneBundle (started { halowAckConfigSetDefault with ackHoldMs := 0 } (.quiet mcs 8))

theorem ack_rate_iff_mcs3 : ∃ c : Threads Board, answering 3#8 = some c ∧
    (peerFind c.body remoteMac = some 0 ∧ peerRate c.body 0 = 3#8 ∧
      ((sendAck 0 remoteMac []).run c.shared).isSome) ∧
    ∃ last, ∃ sending : Node Board, (sendAck 0 remoteMac []).run c.shared = some ((), last) ∧
      HandsAck sending.body remoteMac (ackMcsFor c.body remoteMac) last.body ∧
      mcsSpeed (ackMcsFor c.body remoteMac) ≤ mcsSpeed 3#8 := by
  refine played_then (by decide +kernel) fun c reach ⟨met, rate, answers⟩ => ?_
  obtain ⟨⟨_, last⟩, alone⟩ := Option.isSome_iff_exists.mp answers
  obtain ⟨s₁, s₂, s₃, s₄, states, hands, speed⟩ :=
    ack_rate_iff 0 remoteMac [] c.shared last _ (Res.run_course alone)
  obtain rfl : c.shared = s₁ := (List.cons_eq_cons.mp states).1
  have slower := (speed 0 met).mpr (by rw [rate]; decide)
  rw [rate] at slower
  exact ⟨last, s₄, alone, hands, slower⟩

def heardFids : List (BitVec 16) := [0x9583#16, 0xFFFF#16, 0xFFFF#16, 0xFFFF#16]

def ackOfHeard : List Byte := [0xA5, 0x5A, 0x80, 0x83, 0x95, 0xFF, 0xFF, 0xFF, 0xFF, 0xFF, 0xFF]

theorem ack_faster_than_mcs10 : ∃ c : Threads Board, answering 10#8 = some c ∧ Reachable c ∧
    (∃ i ∈ peerFind c.body remoteMac, peerRate c.body i = 10#8) ∧
    mcsSpeed 10#8 < mcsSpeed 6#8 ∧
    ∃ r ∈ (sendAck 0 remoteMac heardFids).run c.shared, r.2.body.trace =
      (100000, .txP ackOfHeard remoteMac 6#8 7#8) :: c.body.trace :=
  played (by decide +kernel)

end RnodeHalow.Ack
