import RnodeHalow.Shared.Buffer
import RnodeHalow.Radio.Handover

set_option autoImplicit false

namespace RnodeHalow.Radio

def fragTimeoutMs : Nat := 1000
def fragBufSize : Nat := fragMaxPayload * fragMaxTotal

def fragCount (len : Nat) : Nat := (len + fragMaxPayload - 1) / fragMaxPayload

def fragPart (data : List Byte) (i : Nat) : List Byte :=
  (data.drop (i * fragMaxPayload)).take fragMaxPayload

def fragFrame (uuid : Byte) (data : List Byte) (i : Nat) : List Byte :=
  BitVec.ofNat 8 (fragCount data.length <<< 4 ||| i) :: uuid :: fragPart data i

def fragFrames (uuid : Byte) (data : List Byte) : List (List Byte) :=
  (List.range (fragCount data.length)).map (fragFrame uuid data)

theorem fragPart_drop (data : List Byte) (i : Nat) :
    fragPart (data.drop fragMaxPayload) i = fragPart data (i + 1) := by
  rw [fragPart, fragPart, List.drop_drop, Nat.succ_mul, Nat.add_comm]

namespace Board

theorem fragLoop_frames (dest : Mac) (mcs tid uuid : Byte) (n k i : Nat) (rest : List Byte)
    (b : Board) (sent : (fragLoop dest mcs tid uuid n k i rest b).1 = 0) :
    ∃ new, (fragLoop dest mcs tid uuid n k i rest b).2.air = new ++ b.air ∧
      new.reverse.map (·.payload) = (List.range k).map fun j =>
        BitVec.ofNat 8 (n <<< 4 ||| (i + j)) :: uuid :: fragPart rest j := by
  induction k generalizing i rest b with
  | zero => exact ⟨[], rfl, rfl⟩
  | succ k ih =>
    simp only [fragLoop] at sent ⊢
    generalize frag : BitVec.ofNat 8 (n <<< 4 ||| i) :: uuid :: rest.take fragMaxPayload = payload
      at sent ⊢
    have framed := halowSendFrame_framed payload dest mcs tid b
    by_cases failed : (halowSendFrame payload dest mcs tid b).1 ≠ 0
    · rw [if_pos failed] at sent
      exact absurd sent failed
    · rw [if_neg failed] at sent ⊢
      obtain ⟨f, air, rfl, -⟩ := framed.sent (not_ne_iff.mp failed)
      obtain ⟨new, airs, payloads⟩ := ih (i + 1) (rest.drop fragMaxPayload) _ sent
      refine ⟨new ++ [f], by rw [airs, air, List.append_assoc]; rfl, ?_⟩
      have first : [f].reverse.map (·.payload) =
          [BitVec.ofNat 8 (n <<< 4 ||| i) :: uuid :: rest.take fragMaxPayload] := by
        rw [frag]
        rfl
      rw [List.reverse_append, List.map_append, payloads, first, List.range_succ_eq_map,
        List.map_cons, List.map_map]
      have zero : fragPart rest 0 = rest.take fragMaxPayload := by simp [fragPart]
      have shift (j : Nat) : i + 1 + j = i + (j + 1) := by omega
      simp only [zero, shift, fragPart_drop, Function.comp_def, Nat.add_zero,
        List.singleton_append, Nat.succ_eq_add_one]

theorem halowTxMcs10Frag_frames (data : List Byte) (dest : Mac) (mcs tid : Byte) (b : Board)
    (some : data ≠ []) (sent : (b.halowTxMcs10Frag data dest mcs tid).1 = 0) :
    ∃ new, (b.halowTxMcs10Frag data dest mcs tid).2.air = new ++ b.air ∧
      new.reverse.map (·.payload) = fragFrames (b.fragUuid + 1) data := by
  have pos : 0 < data.length := List.length_pos_iff.mpr some
  simp only [halowTxMcs10Frag] at sent ⊢
  by_cases big : data.length > fragMaxPayload * fragMaxTotal
  · rw [if_pos big] at sent
    cases sent
  · rw [if_neg big] at sent ⊢
    by_cases short : data.length ≤ fragMaxPayload
    · rw [if_pos short] at sent ⊢
      obtain ⟨f, air, payload, -⟩ := (halowSendFrame_framed _ dest mcs tid _).sent sent
      have one : fragCount data.length = 1 := by
        simp only [fragCount, fragMaxPayload] at short ⊢
        omega
      refine ⟨[f], air, ?_⟩
      simp [fragFrames, fragFrame, one, payload, fragPart, List.take_of_length_le short]
    · rw [if_neg short] at sent ⊢
      obtain ⟨new, air, payloads⟩ := fragLoop_frames _ _ _ _ _ _ _ _ _ sent
      refine ⟨new, air, ?_⟩
      rw [payloads, fragFrames]
      simp [fragFrame, fragCount]

end Board

structure RxHdr where
  addr2 : Mac
  addr3 : Mac
  deriving DecidableEq, Repr

structure RxFrame where
  payload : List Byte
  hdr : RxHdr
  -- `(uint32_t)get_time_ms()` at its arrival
  now : BitVec 32

structure RxCall where
  hdr : RxHdr
  data : List Byte
  deriving DecidableEq, Repr

structure Reasm where
  active : Bool
  uuid : Byte
  total : Nat
  received : Nat
  lastTick : BitVec 32
  partLen : Nat → Nat
  buf : Nat → Byte
  rxFragDrop : BitVec 32

namespace Reasm

def dropped (r : Reasm) : Reasm := { r with rxFragDrop := r.rxFragDrop + 1 }

def reset (uuid : Byte) (total : Nat) (r : Reasm) : Reasm :=
  { r with active := true, uuid := uuid, total := total, received := 0, partLen := fun _ => 0 }

def offset (r : Reasm) (seq : Nat) : Nat := ((List.range seq).map r.partLen).sum

def malformed (r : Reasm) (seq : Nat) (fdata : List Byte) : Bool :=
  decide (seq ≥ r.total) || decide (fdata.length = 0) || decide (fdata.length > fragMaxPayload)

def store (seq : Nat) (fdata : List Byte) (r : Reasm) : Reasm :=
  if r.malformed seq fdata then r.dropped
  else if r.partLen seq ≠ 0 then r
  else if r.offset seq + fdata.length ≤ fragBufSize then
    { r with
      buf := Buffer.put r.buf (r.offset seq) fdata
      partLen := Function.update r.partLen seq fdata.length
      received := r.received + 1 }
  else r.dropped

def complete (r : Reasm) : Bool := r.received == r.total

def length (r : Reasm) : Nat := r.offset r.total

def output (r : Reasm) : List Byte := Buffer.get r.buf 0 r.length

def expire (now : BitVec 32) (r : Reasm) : Reasm :=
  if r.active = true ∧ (now - r.lastTick).toNat > fragTimeoutMs then
    { r.dropped with active := false }
  else r

def begun (uuid : Byte) (total : Nat) (now : BitVec 32) (r : Reasm) : Reasm :=
  let r := r.expire now
  if r.active = false ∨ r.uuid ≠ uuid then r.reset uuid total else r

def finish (hdr : RxHdr) (r : Reasm) : Reasm × Option RxCall :=
  if r.complete then ({ r with active := false }, some ⟨hdr, r.output⟩) else (r, none)

end Reasm

def halowLmacRxMcs10 (f : RxFrame) (r : Reasm) : Reasm × Option RxCall :=
  if f.payload.length < fragHdrSize then (r, some ⟨f.hdr, f.payload⟩)
  else
    let total := (byteAt f.payload 0 >>> 4).toNat
    if total = 0 then (r, some ⟨f.hdr, f.payload⟩)
    else if total > fragMaxTotal then (r.dropped, none)
    else
      let seq := (byteAt f.payload 0 &&& 0x0F#8).toNat
      let uuid := byteAt f.payload 1
      let fdata := f.payload.drop fragHdrSize
      if total = 1 then (r, some ⟨f.hdr, fdata⟩)
      else
        let r := (r.begun uuid total f.now).store seq fdata
        Reasm.finish f.hdr { r with lastTick := f.now }

def receiveAll : List RxFrame → Reasm → Reasm × List RxCall
  | [], r => (r, [])
  | f :: rest, r =>
    let one := halowLmacRxMcs10 f r
    let more := receiveAll rest one.1
    (more.1, one.2.toList ++ more.2)

end RnodeHalow.Radio
