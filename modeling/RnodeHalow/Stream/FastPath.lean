import RnodeHalow.Shared.Buffer
import RnodeHalow.Stream.Decoder

set_option autoImplicit false

namespace RnodeHalow.Stream

open Ack (txThrottle)
open Function (update update_of_ne)

structure RawDecoder where
  state : State
  frameLen : Nat
  held : Bool
  frameBuffer : Nat → Byte

abbrev RawCb (σ : Type) := (Nat → Byte) → Nat → σ → Int × (Nat → Byte) × σ

structure RawSession (σ : Type) where
  dec : RawDecoder
  user : σ
  offers : List (List Byte)

namespace RawDecoder

def restart (d : RawDecoder) (state : State) : RawDecoder := { d with state := state, frameLen := 0 }

def store (cap : Nat) (d : RawDecoder) (byte : Byte) : RawDecoder :=
  if cap ≤ d.frameLen then d.restart .waitFrameStart
  else
    { d with
      frameBuffer := update d.frameBuffer d.frameLen byte
      frameLen := d.frameLen + 1 }

def plainByte (cap : Nat) (d : RawDecoder) (byte : Byte) : RawDecoder :=
  match d.state with
  | .waitFrameStart => d
  | .readEscapedByte => { d with state := .readFrame }.store cap (byte ^^^ rnsStreamEscMask)
  | .readFrame =>
    if byte = rnsStreamEsc then { d with state := .readEscapedByte } else d.store cap byte

def copyRun (cap : Nat) :
    (Nat → Byte) → Nat → List Byte → Bool × (Nat → Byte) × Nat × List Byte
  | buf, dst, [] => (false, buf, dst, [])
  | buf, dst, byte :: rest =>
    if byte = rnsStreamFlag ∨ byte = rnsStreamEsc then (false, buf, dst, byte :: rest)
    else if cap ≤ dst then (true, buf, dst, byte :: rest)
    else copyRun cap (update buf dst byte) (dst + 1) rest

-- `frame_len` is set after the run, unless the overflow has reset it.
def afterRun (d : RawDecoder) (run : Bool × (Nat → Byte) × Nat × List Byte) : RawDecoder :=
  if run.1 then { d with frameBuffer := run.2.1 }.restart .waitFrameStart
  else { d with frameBuffer := run.2.1, frameLen := run.2.2.1 }

def fastPath (cap : Nat) (d : RawDecoder) : List Byte → RawDecoder × List Byte
  | [] => (d, [])
  | byte :: rest =>
    if d.state = .readFrame ∧ byte ≠ rnsStreamFlag ∧ byte ≠ rnsStreamEsc then
      let run := copyRun cap d.frameBuffer d.frameLen (byte :: rest)
      (d.afterRun run, run.2.2.2)
    else (d, byte :: rest)

end RawDecoder

namespace RawSession

variable {σ : Type}

def emitFrame (cb : Option (RawCb σ)) (x : RawSession σ) : Int × RawSession σ :=
  match cb with
  | none => (0, x)
  | some onFrame =>
    if x.dec.frameLen = 0 then (0, x)
    else
      let r := onFrame x.dec.frameBuffer x.dec.frameLen x.user
      (r.1, ⟨{ x.dec with frameBuffer := r.2.1 }, r.2.2,
        x.offers ++ [Buffer.get x.dec.frameBuffer 0 x.dec.frameLen]⟩)

def takeByte (cb : Option (RawCb σ)) (cap : Nat) (x : RawSession σ) (byte : Byte) :
    Bool × RawSession σ :=
  if byte = rnsStreamFlag then
    if (x.dec.state = .readFrame ∨ x.dec.state = .readEscapedByte) ∧ x.dec.frameLen > 0 then
      let r := x.emitFrame cb
      if r.1 = txThrottle then (true, { r.2 with dec := { r.2.dec with held := true } })
      else (false, { r.2 with dec := r.2.dec.restart .readFrame })
    else (false, { x with dec := x.dec.restart .readFrame })
  else (false, { x with dec := x.dec.plainByte cap byte })

def processLoop (cb : Option (RawCb σ)) (cap : Nat) :
    Nat → RawSession σ → List Byte → (Bool × List Byte) × RawSession σ
  | 0, x, data => ((false, data), x)
  | fuel + 1, x, data =>
    let run := x.dec.fastPath cap data
    match run.2 with
    | [] => ((false, []), { x with dec := run.1 })
    | byte :: rest =>
      let taken := takeByte cb cap { x with dec := run.1 } byte
      if taken.1 then ((true, rest), taken.2) else processLoop cb cap fuel taken.2 rest

def byteLoop (cb : Option (RawCb σ)) (cap : Nat) :
    RawSession σ → List Byte → (Bool × List Byte) × RawSession σ
  | x, [] => ((false, []), x)
  | x, byte :: rest =>
    let taken := takeByte cb cap x byte
    if taken.1 then ((true, rest), taken.2) else byteLoop cb cap taken.2 rest

structure Outcome (σ : Type) where
  status : Int
  consumed : Nat
  session : RawSession σ

def processWith (loop : RawSession σ → List Byte → (Bool × List Byte) × RawSession σ)
    (cb : Option (RawCb σ)) (x : RawSession σ) (data : List Byte) : Outcome σ :=
  let fresh (x : RawSession σ) : Outcome σ :=
    let r := loop x data
    ⟨if r.1.1 then txThrottle else 0, (data.length - r.1.2.length) % 2 ^ 16, r.2⟩
  if data.length = 0 then ⟨0, 0, x⟩
  else if x.dec.held then
    let r := x.emitFrame cb
    if r.1 = txThrottle then ⟨r.1, 0, r.2⟩
    else fresh { r.2 with dec := { r.2.dec.restart .readFrame with held := false } }
  else fresh x

def process (cb : Option (RawCb σ)) (cap : Nat) (x : RawSession σ) (data : List Byte) : Outcome σ :=
  processWith (fun x data => processLoop cb cap data.length x data) cb x data

def processBytewise (cb : Option (RawCb σ)) (cap : Nat) (x : RawSession σ) (data : List Byte) :
    Outcome σ :=
  processWith (byteLoop cb cap) cb x data

variable {cb : Option (RawCb σ)} {cap : Nat} {x : RawSession σ} {data rest : List Byte} {byte : Byte}

theorem takeByte_plain (flag : byte ≠ rnsStreamFlag) (esc : byte ≠ rnsStreamEsc)
    (reading : x.dec.state = .readFrame) :
    takeByte cb cap x byte = (false, { x with dec := x.dec.store cap byte }) := by
  simp [takeByte, flag, RawDecoder.plainByte, reading, esc]

theorem byteLoop_waiting (flag : byte ≠ rnsStreamFlag) (waiting : x.dec.state = .waitFrameStart) :
    byteLoop cb cap x (byte :: rest) = byteLoop cb cap x rest := by
  simp [byteLoop, takeByte, flag, RawDecoder.plainByte, waiting]

theorem byteLoop_run (reading : x.dec.state = .readFrame) :
    byteLoop cb cap x data =
      byteLoop cb cap
        { x with
          dec := x.dec.afterRun (RawDecoder.copyRun cap x.dec.frameBuffer x.dec.frameLen data) }
        (RawDecoder.copyRun cap x.dec.frameBuffer x.dec.frameLen data).2.2.2 := by
  induction data generalizing x with
  | nil => rfl
  | cons byte rest ih =>
    by_cases special : byte = rnsStreamFlag ∨ byte = rnsStreamEsc
    · rw [RawDecoder.copyRun, if_pos special]
      rfl
    · obtain ⟨flag, esc⟩ := not_or.mp special
      rw [RawDecoder.copyRun, if_neg special]
      by_cases full : cap ≤ x.dec.frameLen
      · have reset : x.dec.store cap byte = x.dec.restart .waitFrameStart := if_pos full
        rw [if_pos full, byteLoop, takeByte_plain flag esc reading, reset]
        exact (byteLoop_waiting flag rfl).symm
      · have stored : x.dec.store cap byte =
            { x.dec with
              frameBuffer := update x.dec.frameBuffer x.dec.frameLen byte
              frameLen := x.dec.frameLen + 1 } := if_neg full
        rw [if_neg full, byteLoop, takeByte_plain flag esc reading, stored]
        exact ih reading

theorem byteLoop_fastPath :
    byteLoop cb cap x data =
      byteLoop cb cap { x with dec := (x.dec.fastPath cap data).1 }
        (x.dec.fastPath cap data).2 := by
  cases data with
  | nil => rfl
  | cons byte rest =>
    by_cases fast : x.dec.state = .readFrame ∧ byte ≠ rnsStreamFlag ∧ byte ≠ rnsStreamEsc
    · simp only [RawDecoder.fastPath, if_pos fast]
      exact byteLoop_run fast.1
    · simp only [RawDecoder.fastPath, if_neg fast]

theorem copyRun_length (buf : Nat → Byte) (dst : Nat) (data : List Byte) :
    (RawDecoder.copyRun cap buf dst data).2.2.2.length ≤ data.length := by
  fun_induction RawDecoder.copyRun cap buf dst data with
  | case1 | case2 | case3 => exact Nat.le_refl _
  | case4 buf dst byte rest _ _ ih => exact Nat.le_succ_of_le ih

theorem fastPath_length (cap : Nat) (d : RawDecoder) (data : List Byte) :
    (d.fastPath cap data).2.length ≤ data.length := by
  unfold RawDecoder.fastPath
  split
  · exact Nat.le_refl _
  · split
    · exact copyRun_length ..
    · exact Nat.le_refl _

theorem processLoop_eq_byteLoop {fuel : Nat} (enough : data.length ≤ fuel) :
    processLoop cb cap fuel x data = byteLoop cb cap x data := by
  induction fuel generalizing x data with
  | zero =>
    rw [List.length_eq_zero_iff.mp (Nat.le_zero.mp enough)]
    rfl
  | succ fuel ih =>
    have shorter := fastPath_length cap x.dec data
    rw [byteLoop_fastPath, processLoop]
    cases left : (x.dec.fastPath cap data).2 with
    | nil => rfl
    | cons byte rest =>
      rw [left, List.length_cons] at shorter
      simp only [byteLoop]
      split
      · rfl
      · exact ih (by omega)

-- The run copy cannot be told from the loop over bytes.
theorem process_eq_bytewise (cb : Option (RawCb σ)) (cap : Nat) (x : RawSession σ)
    (data : List Byte) : process cb cap x data = processBytewise cb cap x data := by
  have loops : (fun x data => processLoop cb cap data.length x data) = byteLoop cb cap := by
    funext x data
    exact processLoop_eq_byteLoop (Nat.le_refl _)
  rw [process, processBytewise, loops]

end RawSession

-- A callback that only reads the frame sees no more of the memory than `Decoder` has.

structure Shows {cap : Nat} (m : RawDecoder) (d : Decoder cap) : Prop where
  state : m.state = d.state
  held : m.held = d.held
  frame : Buffer.get m.frameBuffer 0 m.frameLen = d.frame

def FrameCb.raw {σ : Type} (cb : FrameCb σ) : RawCb σ := fun buf len s =>
  ((cb (Buffer.get buf 0 len) s).1, buf, (cb (Buffer.get buf 0 len) s).2)

namespace Shows

variable {cap : Nat} {m : RawDecoder} {d : Decoder cap} {byte : Byte}

theorem frameLen (shows : Shows m d) : m.frameLen = d.frame.length := by
  rw [← shows.frame, Buffer.get_length]

theorem restart (shows : Shows m d) (state : State) :
    Shows (m.restart state) (d.restart state) := ⟨rfl, shows.held, rfl⟩

theorem push (shows : Shows m d) (byte : Byte) (room : d.frame.length < cap) :
    Shows { m with
        frameBuffer := update m.frameBuffer m.frameLen byte
        frameLen := m.frameLen + 1 } (d.push byte room) where
  state := shows.state
  held := shows.held
  frame := by
    have low : (List.range m.frameLen).map (update m.frameBuffer m.frameLen byte) =
        (List.range m.frameLen).map m.frameBuffer := by
      apply List.map_congr_left
      intro k inside
      exact update_of_ne (Nat.ne_of_lt (List.mem_range.mp inside)) ..
    have old := shows.frame
    simp only [Buffer.get, Nat.zero_add] at old ⊢
    simp [List.range_succ, low, old, Decoder.push]

theorem store (shows : Shows m d) : Shows (m.store cap byte) (d.store byte) := by
  unfold RawDecoder.store Decoder.store
  by_cases room : d.frame.length < cap
  · rw [if_neg (by rw [shows.frameLen]; omega), dif_pos room]
    exact shows.push byte room
  · rw [if_pos (by rw [shows.frameLen]; omega), dif_neg room]
    exact shows.restart _

theorem copyRun (shows : Shows m d) (data : List Byte) :
    let run := RawDecoder.copyRun cap m.frameBuffer m.frameLen data
    Shows (m.afterRun run) (d.copyRun data).1 ∧ run.2.2.2 = (d.copyRun data).2 := by
  induction data generalizing m d with
  | nil => exact ⟨shows, rfl⟩
  | cons byte rest ih =>
    by_cases special : byte = rnsStreamFlag ∨ byte = rnsStreamEsc
    · simp only [RawDecoder.copyRun, Decoder.copyRun, if_pos special, and_true]
      exact shows
    · by_cases room : d.frame.length < cap
      · simp only [RawDecoder.copyRun, Decoder.copyRun, if_neg special, shows.frameLen,
          if_neg (Nat.not_le.mpr room), dif_pos room]
        have next := ih (shows.push byte room)
        rw [shows.frameLen] at next
        exact next
      · simp only [RawDecoder.copyRun, Decoder.copyRun, if_neg special, shows.frameLen,
          if_pos (Nat.not_lt.mp room), dif_neg room, and_true]
        exact shows.restart _

theorem fastPath (shows : Shows m d) (data : List Byte) :
    Shows (m.fastPath cap data).1 (d.fastPath data).1 ∧
      (m.fastPath cap data).2 = (d.fastPath data).2 := by
  cases data with
  | nil => exact ⟨shows, rfl⟩
  | cons byte rest =>
    by_cases fast : d.state = .readFrame ∧ byte ≠ rnsStreamFlag ∧ byte ≠ rnsStreamEsc
    · simp only [RawDecoder.fastPath, Decoder.fastPath, shows.state, if_pos fast]
      exact shows.copyRun _
    · simp only [RawDecoder.fastPath, Decoder.fastPath, shows.state, if_neg fast, and_true]
      exact shows

theorem plainByte (shows : Shows m d) : Shows (m.plainByte cap byte) (d.plainByte byte) := by
  unfold RawDecoder.plainByte Decoder.plainByte
  simp only [shows.state]
  cases d.state with
  | waitFrameStart => exact shows
  | readEscapedByte => exact Shows.store ⟨rfl, shows.held, shows.frame⟩
  | readFrame =>
    dsimp only
    split
    · exact ⟨rfl, shows.held, shows.frame⟩
    · exact shows.store

end Shows

structure Agree {cap : Nat} {σ : Type} (x : RawSession σ) (d : Decoder cap) (s : σ) : Prop where
  shows : Shows x.dec d
  user : x.user = s

namespace Agree

variable {cap : Nat} {σ : Type} {x : RawSession σ} {d : Decoder cap} {s : σ} (cb : FrameCb σ)

theorem emitFrame (agree : Agree x d s) :
    (x.emitFrame (some cb.raw)).1 = (d.emitFrame cb s).1 ∧
      Agree (x.emitFrame (some cb.raw)).2 d (d.emitFrame cb s).2 := by
  have shows := agree.shows
  unfold RawSession.emitFrame Decoder.emitFrame
  simp only [← shows.frameLen]
  by_cases empty : x.dec.frameLen = 0
  · rw [if_pos empty, if_pos empty]
    exact ⟨rfl, agree⟩
  · rw [if_neg empty, if_neg empty, FrameCb.raw, shows.frame, agree.user]
    exact ⟨rfl, ⟨shows.state, shows.held, shows.frame⟩, rfl⟩

theorem takeByte (agree : Agree x d s) (byte : Byte) :
    (x.takeByte (some cb.raw) cap byte).1 = (d.takeByte cb byte s).1 ∧
      Agree (x.takeByte (some cb.raw) cap byte).2 (d.takeByte cb byte s).2.1
        (d.takeByte cb byte s).2.2 := by
  have shows := agree.shows
  obtain ⟨status, emitted⟩ := agree.emitFrame cb
  unfold RawSession.takeByte Decoder.takeByte
  simp only [shows.state, shows.frameLen, status]
  split
  · split
    · split
      · exact ⟨rfl, ⟨emitted.shows.state, rfl, emitted.shows.frame⟩, emitted.user⟩
      · exact ⟨rfl, emitted.shows.restart _, emitted.user⟩
    · exact ⟨rfl, shows.restart _, agree.user⟩
  · exact ⟨rfl, shows.plainByte, agree.user⟩

theorem processLoop (agree : Agree x d s) (fuel : Nat) (data : List Byte) :
    (x.processLoop (some cb.raw) cap fuel data).1 = (d.processLoop cb fuel data s).1 ∧
      Agree (x.processLoop (some cb.raw) cap fuel data).2 (d.processLoop cb fuel data s).2.1
        (d.processLoop cb fuel data s).2.2 := by
  induction fuel generalizing x d s data with
  | zero => exact ⟨rfl, agree⟩
  | succ fuel ih =>
    obtain ⟨run, left⟩ := agree.shows.fastPath data
    unfold RawSession.processLoop Decoder.processLoop
    simp only [left]
    cases (d.fastPath data).2 with
    | nil => exact ⟨rfl, run, agree.user⟩
    | cons byte rest =>
      obtain ⟨refused, taken⟩ := takeByte cb (x := { x with dec := _ }) ⟨run, agree.user⟩ byte
      simp only [refused]
      split
      · exact ⟨rfl, taken⟩
      · exact ih taken rest

theorem process (agree : Agree x d s) (data : List Byte) :
    let out := x.process (some cb.raw) cap data
    let res := d.process cb data s
    out.status = res.status ∧ out.consumed = res.consumed ∧
      Agree out.session res.decoder res.user := by
  obtain ⟨status, emitted⟩ := agree.emitFrame cb
  simp only [RawSession.process, RawSession.processWith, Decoder.process, Decoder.processFresh, status,
    agree.shows.held]
  split
  · exact ⟨rfl, rfl, agree⟩
  · split
    · split
      · exact ⟨rfl, rfl, emitted⟩
      · have fresh : Agree { (x.emitFrame (some cb.raw)).2 with
            dec := { (x.emitFrame (some cb.raw)).2.dec.restart .readFrame with held := false } }
            (Decoder.released : Decoder cap) (d.emitFrame cb s).2 :=
          ⟨⟨rfl, rfl, rfl⟩, emitted.user⟩
        obtain ⟨result, left⟩ := fresh.processLoop cb data.length data
        exact ⟨by rw [result], by rw [result], left⟩
    · obtain ⟨result, left⟩ := agree.processLoop cb data.length data
      exact ⟨by rw [result], by rw [result], left⟩

end Agree

def RawSession.calls {σ : Type} (cb : RawCb σ) (cap : Nat) (x : RawSession σ) :
    List (List Byte) → RawSession σ :=
  List.foldl (fun x chunk => (x.process (some cb) cap chunk).session) x

def Decoder.calls {cap : Nat} {σ : Type} (cb : FrameCb σ) (y : Decoder cap × σ) :
    List (List Byte) → Decoder cap × σ :=
  List.foldl (fun y chunk => let res := y.1.process cb chunk y.2; (res.decoder, res.user)) y

theorem raw_decoder_refines {σ : Type} (cb : FrameCb σ) (cap : Nat) (mem : Nat → Byte) (s : σ)
    (chunks : List (List Byte)) (data : List Byte) :
    let x := RawSession.calls cb.raw cap ⟨⟨.waitFrameStart, 0, false, mem⟩, s, []⟩ chunks
    let y := Decoder.calls cb ((Decoder.init : Decoder cap), s) chunks
    let out := x.process (some cb.raw) cap data
    let res := y.1.process cb data y.2
    out.status = res.status ∧ out.consumed = res.consumed ∧
      Agree out.session res.decoder res.user := by
  have runs (x : RawSession σ) (y : Decoder cap × σ) (agree : Agree x y.1 y.2) :
      Agree (x.calls cb.raw cap chunks) (Decoder.calls cb y chunks).1
        (Decoder.calls cb y chunks).2 := by
    induction chunks generalizing x y with
    | nil => exact agree
    | cons chunk rest ih => exact ih _ _ (agree.process cb chunk).2.2
  exact (runs _ (Decoder.init, s) ⟨⟨rfl, rfl, rfl⟩, rfl⟩).process cb data

end RnodeHalow.Stream
