import RnodeHalow.Ack.BitmapAck
import RnodeHalow.Ack.Freshness

set_option autoImplicit false

namespace RnodeHalow.Ack

open Resumption

variable {ρ : Type} [Platform ρ]

-- Bundles may be lost, repeated and reordered before the receiver builds the ACK.
theorem released_bundle_was_received {σ : Type} [Platform σ] (a : Threads ρ) (b : Threads σ)
    (sender : Reachable a) (receiver : Reachable b) (i k : PeerIx) (mac src : Mac)
    (found : peerFind a.body src = some i) (entry : peerFind b.body mac = some k)
    (copy : List Byte → History → Nat)
    (carried : Carried copy (sentFrom i a.body.trace) mac b.body.trace)
    (ordered : Ordered (fun p older => lineNumber (copy p older)) mac b.body.trace)
    (defined : ShiftDefined (fun p older => lineNumber (copy p older)) mac b.body.trace)
    (evm : Byte) (base : BitVec 16) (bm : BitVec 64)
    (capture : envAckCapture (b.body.peers k) = some (base, bm))
    (free : a.shared.owner = none) (s : Node ρ)
    (run : (rxEnv (envAckFrame evm base bm) src).run a.shared = some (true, s))
    (j : BufIx) (buf : AckBuf) (held : a.body.bufs j = some buf) (gone : s.body.bufs j = none)
    (n : Nat) (q : List Byte) (sent : (sentFrom i a.body.trace)[n]? = some q)
    (number : buf.seq = le16 q 3)
    (close : ∀ last, windowLast (fun p older => lineNumber (copy p older)) mac
      b.body.trace = some last → Close last (lineNumber n)) :
    Copied mac q b.body.trace := by
  have counted := sender.traffic counted_traffic (by rintro _ ⟨⟩) i (peerFind_some found).1
  have legible := carried.legible counted.each ordered
  obtain ⟨follows, honest⟩ := receiver.traffic (honest_traffic _ mac)
    ⟨fun _ => Mirror.start, fun _ _ => ⟨by rintro _ ⟨⟩, trivial⟩⟩
  obtain ⟨used, named⟩ := peerFind_some entry
  have follows := (follows legible).follows k used named
  have honest := honest legible defined
  obtain ⟨_, s', ran, rfl, released⟩ :=
    rxEnv_released free sender.inv.rep.idx_eq found evm base bm
  rw [run] at ran
  cases ran
  have acked := (released.freed j).mp ⟨by rw [held]; exact Option.some_ne_none buf, gone⟩
  rw [held] at acked
  cases window : windowLast (fun p older => lineNumber (copy p older)) mac b.body.trace with
  | none =>
    rw [window] at follows
    have closed : (b.body.peers k).rxSeqSeen = false := follows
    simp [envAckCapture, closed] at capture
  | some last =>
    rw [window] at follows
    obtain ⟨seen, stands, -⟩ := follows
    have seq := number.trans (ofInt_lineNumber (counted.each n q sent))
    rw [envAckCapture, if_pos seen] at capture
    cases capture
    obtain ⟨-, near, bit⟩ := envAckCovers_capture.mp acked.2.2
    rw [seq] at near bit
    have again : seqRetrans (b.body.peers k) (BitVec.ofInt 16 (lineNumber n)) = true := by
      have set := (Serial.and_one_ne_zero_iff (b.body.peers k).rxSeqWin _).mpr bit
      simp only [seqRetrans, seen, seqWindow, Bool.true_and, Bool.and_eq_true, decide_eq_true_eq]
      exact ⟨decide_eq_true near, set⟩
    obtain ⟨le, near, bit⟩ := (seqRetrans_iff seen stands (close last window)).mp again
    have came := honest.backed last window k used named _ (by omega) bit
    rw [Int.toNat_of_nonneg (by omega), sub_sub_cancel] at came
    exact carried.copied sent came

-- Of three bundles the receiver gets the last one first, then the first; the second is lost.
def firstAfterLast : List (Move Board) :=
  receive [9] 3 ++ receive (bundleOf 2) 5 ++ receive (bundleOf 0) 5

theorem released_bundle_was_received_reordered : ∃ (a b : Threads Board)
    (s : Node Board), Reachable a ∧ Reachable b ∧
      sentFrom 0 a.body.trace = [bundleOf 0, bundleOf 1, bundleOf 2] ∧
      (rxEnv (envAckFrame 0 65475 (5#64 <<< 61)) ownMac).run a.shared = some (true, s) ∧
      s.body.bufs 0 = none ∧ (s.body.bufs 1).isSome = true ∧ s.body.bufs 2 = none ∧
      Copied remoteMac (bundleOf 0) b.body.trace ∧
      Copied remoteMac (bundleOf 2) b.body.trace := by
  have sends : ∃ a ∈ playAll (sendOne 0x41 ++ sendOne 0x41 ++ sendOne 0x41) quietNode,
      peerFind a.body ownMac = some 0 ∧
      sentFrom 0 a.body.trace = [bundleOf 0, bundleOf 1, bundleOf 2] ∧
      a.shared.owner = none ∧ (∃ buf ∈ a.body.bufs 0, buf.seq = 0) ∧
      (∃ buf ∈ a.body.bufs 2, buf.seq = 2) ∧
      ∃ r ∈ (rxEnv (envAckFrame 0 65475 (5#64 <<< 61)) ownMac).run a.shared,
        r.1 = true ∧ (r.2.body.bufs 0).isNone = true ∧ (r.2.body.bufs 1).isSome = true ∧
          (r.2.body.bufs 2).isNone = true := by
    decide +kernel
  have hears : ∃ b ∈ playAll firstAfterLast quietNode, peerFind b.body remoteMac = some 0 ∧
      envAckCapture (b.body.peers 0) = some (65475#16, 5#64 <<< 61) ∧
      b.body.trace = [(100000, .delivered 1 remoteMac (bundleOf 0)),
        (100000, .heard 1 remoteMac (some 0) (bundleOf 0) false),
        (100000, .delivered 1 remoteMac (bundleOf 2)),
        (100000, .heard 1 remoteMac (some 0) (bundleOf 2) false),
        (100000, .delivered 1 remoteMac [9]), (100000, .opened 0 remoteMac),
        (100000, .windowed 10)] := by
    decide +kernel
  obtain ⟨a, -, reachA, found, sent, free, ⟨buf, held, seq⟩, ⟨buf', held', seq'⟩, ⟨_, s⟩, ran, rfl,
    gone, stays, gone'⟩ := played sends
  obtain ⟨b, -, reachB, entry, capture, trace⟩ := played hears
  rw [Option.isNone_iff_eq_none] at gone gone'
  have copied (j : BufIx) (buf : AckBuf) (n : Nat) (held : a.body.bufs j = some buf)
      (gone : s.body.bufs j = none) (number : buf.seq = BitVec.ofNat 16 n) (here : n = 0 ∨ n = 2) :
      Copied remoteMac (bundleOf (BitVec.ofNat 16 n)) b.body.trace := by
    have zero : (le16 (bundleOf 0#16) 3).toNat = 0 := by decide
    have two : (le16 (bundleOf 2#16) 3).toNat = 2 := by decide
    refine released_bundle_was_received a b reachA reachB 0 0 remoteMac ownMac found entry
      (fun q _ => (le16 q 3).toNat) ?_ ?_ ?_ 0 _ _ capture free s ran j buf held gone n
      (bundleOf (BitVec.ofNat 16 n)) ?_ (number.trans ?_) ?_
    · rw [trace, sent]
      simp [Carried, zero, two]
    · rw [trace]
      simp [Ordered, windowLast, holder, nextLast, lineNumber, Close, zero, two]
    · rw [trace]
      simp [ShiftDefined, windowLast, holder, nextLast, lineNumber, zero, two]
    · rw [sent]
      rcases here with rfl | rfl <;> rfl
    · rcases here with rfl | rfl <;> decide
    · rw [trace]
      rcases here with rfl | rfl <;>
        simp [windowLast, holder, nextLast, lineNumber, Close, zero, two]
  exact ⟨a, b, s, reachA, reachB, sent, ran, gone, stays, gone', copied 0 buf 0 held gone seq (.inl rfl),
    copied 2 buf' 2 held' gone' seq' (.inr rfl)⟩

end RnodeHalow.Ack
