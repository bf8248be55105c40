import RnodeHalow.Shared.Buffer
import RnodeHalow.Stream.Chunking

set_option autoImplicit false

namespace RnodeHalow.Stream

abbrev Buf := Nat → Byte

def rnsStreamEscapeSize (payload : List Byte) : Nat :=
  payload.foldl (fun n b => if b = rnsStreamFlag ∨ b = rnsStreamEsc then n + 1 else n)
    payload.length

def escapeStep (dst : Nat) (s : Nat × Buf) (b : Byte) : Nat × Buf :=
  let o := s.1
  if b = rnsStreamFlag ∨ b = rnsStreamEsc then
    let mem := Function.update s.2 (dst + o) rnsStreamEsc
    (o + 2, Function.update mem (dst + o + 1) (b ^^^ rnsStreamEscMask))
  else (o + 1, Function.update s.2 (dst + o) b)

def rnsStreamEscapeWrite (dst : Nat) (payload : List Byte) (mem : Buf) : Nat × Buf :=
  payload.foldl (escapeStep dst) (0, mem)

def rnsStreamEncodeFrame (dst : Option Buf) (dstCap : Nat) (payload : List Byte) :
    Nat × Option Buf :=
  let n := rnsStreamEscapeSize payload + 2
  match dst with
  | none => (n, none)
  | some mem =>
    if dstCap < n then (n, some mem)
    else
      let mem := Function.update mem 0 rnsStreamFlag
      let mem := (rnsStreamEscapeWrite 1 payload mem).2
      (n, some (Function.update mem (n - 1) rnsStreamFlag))

def rnsStreamEncodeAlloc (malloc : Nat → Option Buf) (payload : List Byte) :
    Except Int (Buf × Nat) :=
  if payload.length = 0 then .error (-1)
  else
    let encodedFrameLen := rnsStreamEscapeSize payload + 2
    match malloc encodedFrameLen with
    | none => .error (-2)
    | some mem =>
      let mem := Function.update mem 0 rnsStreamFlag
      let mem := (rnsStreamEscapeWrite 1 payload mem).2
      .ok (Function.update mem (encodedFrameLen - 1) rnsStreamFlag, encodedFrameLen)

def deliverEncode (osMalloc : Nat → Option Buf) (pkg : List Byte) : Option (Buf × Nat) :=
  let esc := rnsStreamEscapeSize pkg
  let frameLen := esc + 2
  match osMalloc frameLen with
  | none => none
  | some frame =>
    let frame := Function.update frame 0 0x7E#8
    let frame := (rnsStreamEscapeWrite 1 pkg frame).2
    some (Function.update frame (frameLen - 1) 0x7E#8, frameLen)

def encodeFrame (payload : List Byte) : List Byte :=
  let n := (rnsStreamEncodeFrame none 0 payload).1
  match (rnsStreamEncodeFrame (some fun _ => 0) n payload).2 with
  | none => []
  | some mem => Buffer.get mem 0 n

def escapeByte (b : Byte) : List Byte :=
  if b = rnsStreamFlag ∨ b = rnsStreamEsc then [rnsStreamEsc, b ^^^ rnsStreamEscMask] else [b]

def escaped (payload : List Byte) : List Byte := payload.flatMap escapeByte

def encoded (payload : List Byte) : List Byte := rnsStreamFlag :: escaped payload ++ [rnsStreamFlag]

variable (dst : Nat) (payload : List Byte) (mem : Buf)

theorem escapeSize_eq : rnsStreamEscapeSize payload = (escaped payload).length := by
  have fold (payload : List Byte) (n : Nat) :
      payload.foldl (fun n b => if b = rnsStreamFlag ∨ b = rnsStreamEsc then n + 1 else n)
        (payload.length + n) = (escaped payload).length + n := by
    induction payload generalizing n with
    | nil => rfl
    | cons b rest ih =>
      have cons : escaped (b :: rest) = escapeByte b ++ escaped rest := rfl
      rw [List.foldl_cons, cons, List.length_append, List.length_cons, escapeByte]
      split
      · have shift : rest.length + 1 + n + 1 = rest.length + (n + 2) := by omega
        rw [shift, ih]
        simp only [List.length_cons, List.length_nil]
        omega
      · have shift : rest.length + 1 + n = rest.length + (n + 1) := by omega
        rw [shift, ih]
        simp only [List.length_cons, List.length_nil]
        omega
  exact fold payload 0

theorem update_eq_put (p : Nat) (b : Byte) : Function.update mem p b = Buffer.put mem p [b] := by
  funext q
  rw [Buffer.put_apply mem p [b] 0]
  by_cases same : q = p
  · subst same
    rw [Function.update_self, if_pos ⟨Nat.le_refl q, Nat.lt_succ_self q⟩, Nat.sub_self]
    rfl
  · rw [Function.update_of_ne same, if_neg (by simp only [List.length_singleton]; omega)]

theorem escapeStep_eq (s : Nat × Buf) (b : Byte) :
    escapeStep dst s b =
      (s.1 + (escapeByte b).length, Buffer.put s.2 (dst + s.1) (escapeByte b)) := by
  unfold escapeStep escapeByte
  dsimp only
  split
  · rw [update_eq_put, update_eq_put]
    exact congrArg (Prod.mk _) (Buffer.put_append s.2 (dst + s.1) [rnsStreamEsc] _)
  · rw [update_eq_put]
    rfl

theorem escapeWrite_eq :
    rnsStreamEscapeWrite dst payload mem =
      ((escaped payload).length, Buffer.put mem dst (escaped payload)) := by
  have fold (payload done : List Byte) :
      payload.foldl (escapeStep dst) (done.length, Buffer.put mem dst done) =
        ((done ++ escaped payload).length, Buffer.put mem dst (done ++ escaped payload)) := by
    induction payload generalizing done with
    | nil => simp [escaped]
    | cons b rest ih =>
      have cons : escaped (b :: rest) = escapeByte b ++ escaped rest := rfl
      rw [List.foldl_cons, escapeStep_eq, Buffer.put_append, ← List.length_append, ih, cons,
        List.append_assoc]
  simpa [rnsStreamEscapeWrite] using fold payload []

theorem framed_eq (payload : List Byte) :
    Function.update (rnsStreamEscapeWrite 1 payload (Function.update mem 0 rnsStreamFlag)).2
      (rnsStreamEscapeSize payload + 2 - 1) rnsStreamFlag = Buffer.put mem 0 (encoded payload) := by
  rw [escapeWrite_eq, escapeSize_eq, update_eq_put, update_eq_put]
  have opened := Buffer.put_append mem 0 [rnsStreamFlag] (escaped payload)
  have closed := Buffer.put_append mem 0 (rnsStreamFlag :: escaped payload) [rnsStreamFlag]
  simp only [List.length_cons, List.length_nil, Nat.zero_add, List.singleton_append] at opened closed
  rw [opened]
  exact closed

theorem encoded_length : (encoded payload).length = rnsStreamEscapeSize payload + 2 := by
  simp [encoded, escapeSize_eq]

theorem encodeFrame_eq (payload : List Byte) {dstCap : Nat}
    (room : (encoded payload).length ≤ dstCap) :
    rnsStreamEncodeFrame (some mem) dstCap payload =
      ((encoded payload).length, some (Buffer.put mem 0 (encoded payload))) := by
  rw [encoded_length] at room
  simp only [rnsStreamEncodeFrame]
  rw [if_neg (Nat.not_lt.mpr room), framed_eq, encoded_length]

theorem encodeFrame_encoded : encodeFrame payload = encoded payload := by
  have asked : (rnsStreamEncodeFrame none 0 payload).1 = (encoded payload).length :=
    (encoded_length payload).symm
  simp only [encodeFrame, asked, encodeFrame_eq _ payload (Nat.le_refl _), Buffer.get_put]

theorem encodeAlloc_eq {malloc : Nat → Option Buf} {payload : List Byte} {mem : Buf}
    (some : payload ≠ []) (allocated : malloc (encoded payload).length = .some mem) :
    rnsStreamEncodeAlloc malloc payload =
      .ok (Buffer.put mem 0 (encoded payload), (encoded payload).length) := by
  rw [encoded_length] at allocated
  simp only [rnsStreamEncodeAlloc, allocated]
  rw [if_neg (by simpa using some), framed_eq, encoded_length]

theorem deliverEncode_eq {osMalloc : Nat → Option Buf} {pkg : List Byte} {mem : Buf}
    (allocated : osMalloc (encoded pkg).length = some mem) :
    deliverEncode osMalloc pkg = some (Buffer.put mem 0 (encoded pkg), (encoded pkg).length) := by
  rw [encoded_length] at allocated
  simp only [deliverEncode, allocated]
  rw [show (0x7E#8 : Byte) = rnsStreamFlag from rfl, framed_eq, encoded_length]

open Decoder

variable {cap : Nat}

def reading (frame : List Byte) (fits : frame.length ≤ cap) : Decoder cap :=
  ⟨.readFrame, frame, false, fits⟩

theorem store_reading {frame : List Byte} (fits : frame.length ≤ cap) (b : Byte)
    (room : (frame ++ [b]).length ≤ cap) :
    (reading frame fits).store b = reading (frame ++ [b]) room := by
  have less : (reading frame fits).frame.length < cap := by
    rw [List.length_append] at room
    exact room
  rw [store, dif_pos less]
  rfl

theorem emits_plain {d : Decoder cap} {b : Byte} (plain : b ≠ rnsStreamFlag) : d.emits b = none := by
  rw [emits, if_neg fun ends => plain ends.1]

theorem escapeByte_read {frame : List Byte} (fits : frame.length ≤ cap) (b : Byte)
    (room : (frame ++ [b]).length ≤ cap) :
    machine.after (reading frame fits) (escapeByte b) = reading (frame ++ [b]) room ∧
      machine.outputs (reading frame fits) (escapeByte b) = [] := by
  have stored := store_reading fits b room
  by_cases special : b = rnsStreamFlag ∨ b = rnsStreamEsc
  · have plain : b ^^^ rnsStreamEscMask ≠ rnsStreamFlag := by
      rcases special with rfl | rfl <;> decide
    have back : b ^^^ rnsStreamEscMask ^^^ rnsStreamEscMask = b := by
      rcases special with rfl | rfl <;> decide
    have esc : rnsStreamEsc ≠ rnsStreamFlag := by decide
    rw [escapeByte, if_pos special]
    constructor
    · change ((reading frame fits).next rnsStreamEsc).next (b ^^^ rnsStreamEscMask) = _
      rw [next, if_neg plain, next, if_neg esc]
      change (reading frame fits).store (b ^^^ rnsStreamEscMask ^^^ rnsStreamEscMask) = _
      rw [back]
      exact stored
    · simp only [Mealy.outputs, machine, emits_plain esc, emits_plain plain, Option.toList_none,
        List.append_nil]
  · have plain : b ≠ rnsStreamFlag := fun flag => special (.inl flag)
    have simple : b ≠ rnsStreamEsc := fun esc => special (.inr esc)
    rw [escapeByte, if_neg special]
    constructor
    · change (reading frame fits).next b = _
      rw [next, if_neg plain]
      change (if b = rnsStreamEsc then _ else (reading frame fits).store b) = _
      rw [if_neg simple]
      exact stored
    · simp only [Mealy.outputs, machine, emits_plain plain, Option.toList_none, List.append_nil]

theorem escaped_read {frame : List Byte} (fits : frame.length ≤ cap)
    (room : (frame ++ payload).length ≤ cap) :
    machine.after (reading frame fits) (escaped payload) = reading (frame ++ payload) room ∧
      machine.outputs (reading frame fits) (escaped payload) = [] := by
  induction payload generalizing frame with
  | nil => simp [escaped]
  | cons b rest ih =>
    have cons : escaped (b :: rest) = escapeByte b ++ escaped rest := rfl
    have joined : frame ++ b :: rest = (frame ++ [b]) ++ rest := by simp
    have room' : ((frame ++ [b]) ++ rest).length ≤ cap := joined ▸ room
    have first : (frame ++ [b]).length ≤ cap := by
      rw [List.length_append] at room'
      omega
    obtain ⟨after, outputs⟩ := escapeByte_read fits b first
    obtain ⟨after', outputs'⟩ := ih first room'
    rw [cons, Mealy.after_append, Mealy.outputs_append, after, outputs, after', outputs']
    simp only [joined, List.append_nil, and_self]

theorem encoded_injective {p q : List Byte} (same : encoded p = encoded q) : p = q := by
  have body : escaped p = escaped q := List.append_cancel_right (List.cons.inj same).2
  have room (l : List Byte) (fits : l.length ≤ p.length + q.length) :
      ([] ++ l).length ≤ p.length + q.length := fits
  have read := (escaped_read p (Nat.zero_le _) (room p (Nat.le_add_right ..))).1
  rw [body, (escaped_read q (Nat.zero_le _) (room q (Nat.le_add_left ..))).1] at read
  exact (congrArg Decoder.frame read).symm

theorem encoded_read {payload : List Byte} (some : payload ≠ []) (fits : payload.length ≤ cap)
    {d : Decoder cap} (fresh : d = init ∨ d = released) :
    machine.after d (encoded payload) = released ∧
      machine.outputs d (encoded payload) = [payload] := by
  have opening : d.next rnsStreamFlag = reading [] (Nat.zero_le cap) := by
    rcases fresh with rfl | rfl <;> rfl
  have silent : d.emits rnsStreamFlag = none := by
    rcases fresh with rfl | rfl <;> simp [emits, init, released]
  obtain ⟨after, outputs⟩ :=
    escaped_read payload (Nat.zero_le cap) (show ([] ++ payload).length ≤ cap from fits)
  have closing : (reading payload fits).emits rnsStreamFlag = .some payload := by
    rw [emits, if_pos ⟨rfl, by simp [reading], some⟩]
    rfl
  have split : encoded payload = [rnsStreamFlag] ++ (escaped payload ++ [rnsStreamFlag]) := rfl
  have first : machine.after d [rnsStreamFlag] = reading [] (Nat.zero_le cap) := opening
  rw [split, Mealy.after_append, Mealy.outputs_append, first, Mealy.after_append,
    Mealy.outputs_append, after, outputs]
  constructor
  · rfl
  · simp only [Mealy.outputs, machine, silent]
    change [] ++ [] ++ ([] ++ (((reading payload fits).emits rnsStreamFlag).toList ++ [])) = _
    rw [closing]
    rfl

theorem encodeds_read {payloads : List (List Byte)}
    (proper : ∀ p ∈ payloads, p ≠ [] ∧ p.length ≤ cap) {d : Decoder cap}
    (fresh : d = init ∨ d = released) :
    machine.outputs d (payloads.map encoded).flatten = payloads := by
  induction payloads generalizing d with
  | nil => rfl
  | cons p rest ih =>
    obtain ⟨some, fits⟩ := proper p List.mem_cons_self
    obtain ⟨after, outputs⟩ := encoded_read some fits fresh
    rw [List.map_cons, List.flatten_cons, Mealy.outputs_append, outputs, after,
      ih (fun q mem => proper q (List.mem_cons_of_mem p mem)) (.inr rfl)]
    rfl

theorem outputs_proper (d : Decoder cap) (stream : List Byte) :
    ∀ p ∈ machine.outputs d stream, p ≠ [] ∧ p.length ≤ cap := by
  induction stream generalizing d with
  | nil =>
    intro p mem
    cases mem
  | cons byte rest ih =>
    intro p mem
    rcases List.mem_append.mp mem with now | later
    · obtain ⟨-, -, some, rfl⟩ := emits_some (Option.mem_toList.mp now)
      exact ⟨some, d.fits⟩
    · exact ih _ p later

def feedChunk (s : Decoder cap × List (List Byte)) (chunk : List Byte) :
    Decoder cap × List (List Byte) :=
  let r := s.1.process accept chunk s.2
  (r.decoder, r.user)

def feed (d : Decoder cap) (chunks : List (List Byte)) : List (List Byte) :=
  (chunks.foldl feedChunk (d, [])).2

theorem feedChunk_eq {d : Decoder cap} (got : List (List Byte)) (chunk : List Byte)
    (free : d.held = false) :
    feedChunk (d, got) chunk = (machine.after d chunk, got ++ machine.outputs d chunk) := by
  obtain ⟨decoder, user⟩ := process_accept chunk got free
  rw [feedChunk, decoder, user]

theorem after_held (d : Decoder cap) (data : List Byte) : (machine.after d data).held = d.held := by
  induction data generalizing d with
  | nil => rfl
  | cons byte rest ih => exact (ih _).trans (next_held d byte)

theorem feed_eq {d : Decoder cap} (chunks : List (List Byte)) (free : d.held = false) :
    feed d chunks = machine.outputs d chunks.flatten := by
  have fold (chunks : List (List Byte)) (d : Decoder cap) (got : List (List Byte))
      (free : d.held = false) :
      (chunks.foldl feedChunk (d, got)).2 = got ++ machine.outputs d chunks.flatten := by
    induction chunks generalizing d got with
    | nil => simp
    | cons chunk rest ih =>
      rw [List.foldl_cons, feedChunk_eq got chunk free, ih _ _ ((after_held d chunk).trans free),
        List.flatten_cons, Mealy.outputs_append, List.append_assoc]
  exact fold chunks d [] free

theorem feed_encodeds_iff (d : Decoder cap) (payloads chunks : List (List Byte))
    (stream : chunks.flatten = (payloads.map encoded).flatten) :
    feed d.reset chunks = payloads ↔ ∀ p ∈ payloads, p ≠ [] ∧ p.length ≤ cap := by
  rw [feed_eq chunks rfl, stream]
  constructor
  · intro read
    rw [← read]
    exact outputs_proper _ _
  · intro proper
    exact encodeds_read proper (.inl rfl)

structure SameBytes (payload : List Byte) (n : Nat) (mem : Buf) : Prop where
  frame : ∀ dstCap, n ≤ dstCap → ∃ buf,
    rnsStreamEncodeFrame (some mem) dstCap payload = (n, some buf) ∧
      Buffer.get buf 0 n = encodeFrame payload
  alloc : ∀ malloc, payload ≠ [] → malloc n = some mem → ∃ buf,
    rnsStreamEncodeAlloc malloc payload = .ok (buf, n) ∧ Buffer.get buf 0 n = encodeFrame payload
  deliver : ∀ osMalloc, osMalloc n = some mem → ∃ buf,
    deliverEncode osMalloc payload = some (buf, n) ∧ Buffer.get buf 0 n = encodeFrame payload

theorem sameBytes : SameBytes payload (rnsStreamEscapeSize payload + 2) mem := by
  have bytes := Buffer.get_put mem 0 (encoded payload)
  rw [← encoded_length]
  constructor
  · intro dstCap room
    exact ⟨_, encodeFrame_eq mem payload room, by rw [bytes, encodeFrame_encoded]⟩
  · intro malloc some allocated
    exact ⟨_, encodeAlloc_eq some allocated, by rw [bytes, encodeFrame_encoded]⟩
  · intro osMalloc allocated
    exact ⟨_, deliverEncode_eq allocated, by rw [bytes, encodeFrame_encoded]⟩

theorem escapeWrite_writes :
    Buffer.Writes (fun mem => (rnsStreamEscapeWrite dst payload mem).2) dst
      (rnsStreamEscapeSize payload) := by
  simp only [escapeWrite_eq, escapeSize_eq]
  exact Buffer.put_writes dst (escaped payload)

theorem encode_decode_round_trip (cap : Nat) :
    (∀ (d : Decoder cap) (payloads chunks : List (List Byte)),
      chunks.flatten = (payloads.map encodeFrame).flatten →
        (feed d.reset chunks = payloads ↔ ∀ p ∈ payloads, p ≠ [] ∧ p.length ≤ cap)) ∧
    (∀ (payload : List Byte) (mem : Buf),
      SameBytes payload (rnsStreamEscapeSize payload + 2) mem) ∧
    ∀ (payload : List Byte) (dst : Nat),
      (∀ mem, (rnsStreamEscapeWrite dst payload mem).1 = rnsStreamEscapeSize payload) ∧
      Buffer.Writes (fun mem => (rnsStreamEscapeWrite dst payload mem).2) dst
        (rnsStreamEscapeSize payload) := by
  refine ⟨?_, sameBytes, ?_⟩
  · intro d payloads chunks stream
    rw [funext encodeFrame_encoded] at stream
    exact feed_encodeds_iff d payloads chunks stream
  · intro payload dst
    refine ⟨fun mem => ?_, escapeWrite_writes dst payload⟩
    rw [escapeWrite_eq, escapeSize_eq]

theorem encode_decode_round_trip_escapes :
    [encodeFrame [0x7E#8, 0x41#8] ++ encodeFrame [0x7D#8]].flatten =
        ([[0x7E#8, 0x41#8], [0x7D#8]].map encodeFrame).flatten ∧
      feed (init : Decoder rnsStreamMaxFrameSize).reset
        [encodeFrame [0x7E#8, 0x41#8] ++ encodeFrame [0x7D#8]] = [[0x7E#8, 0x41#8], [0x7D#8]] :=
  ⟨by decide, ((encode_decode_round_trip rnsStreamMaxFrameSize).1 init _ _ (by decide)).mpr
    (by decide)⟩

theorem long_payload_not_read :
    (List.replicate 2049 (0x41#8 : Byte)).length ≤ 10240 ∧
      feed (init : Decoder rnsStreamMaxFrameSize).reset [encodeFrame (List.replicate 2049 0x41#8)] ≠
        [List.replicate 2049 0x41#8] := by
  rw [List.length_replicate, encodeFrame_encoded]
  refine ⟨by decide, fun read => ?_⟩
  have proper := (feed_encodeds_iff init [List.replicate 2049 0x41#8] _ rfl).mp read
  obtain ⟨-, fits⟩ := proper _ List.mem_cons_self
  rw [List.length_replicate] at fits
  exact absurd fits (by decide)

end RnodeHalow.Stream
