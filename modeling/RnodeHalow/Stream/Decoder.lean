import RnodeHalow.Ack.State

set_option autoImplicit false

-- A frame that the sending side refuses with THROTTLE is held and offered again.

namespace RnodeHalow.Stream

open Ack (txThrottle)

def rnsStreamFlag : Byte := 0x7E#8
def rnsStreamEsc : Byte := 0x7D#8
def rnsStreamEscMask : Byte := 0x20#8

-- `sys_config.h` comes before the default in `rns/defines.h`.
def rnsStreamMaxFrameSize : Nat := 1024 * 2

inductive State where
  | waitFrameStart
  | readFrame
  | readEscapedByte
  deriving DecidableEq, Repr

-- A decoder with a buffer of `cap` bytes; `frame` is `frame_buffer` up to `frame_len`.
structure Decoder (cap : Nat) where
  state : State
  frame : List Byte
  held : Bool
  fits : frame.length ≤ cap
  deriving DecidableEq

abbrev FrameCb (σ : Type) := List Byte → σ → Int × σ

variable {cap : Nat} {σ : Type}

namespace Decoder

def init : Decoder cap := ⟨.waitFrameStart, [], false, Nat.zero_le _⟩

def reset (_ : Decoder cap) : Decoder cap := ⟨.waitFrameStart, [], false, Nat.zero_le _⟩

def restart (d : Decoder cap) (state : State) : Decoder cap := ⟨state, [], d.held, Nat.zero_le _⟩

def released : Decoder cap := ⟨.readFrame, [], false, Nat.zero_le _⟩

def push (d : Decoder cap) (byte : Byte) (room : d.frame.length < cap) : Decoder cap :=
  { d with frame := d.frame ++ [byte], fits := by rw [List.length_append]; exact room }

def store (d : Decoder cap) (byte : Byte) : Decoder cap :=
  if room : d.frame.length < cap then d.push byte room else d.restart .waitFrameStart

def emitFrame (cb : FrameCb σ) (d : Decoder cap) (s : σ) : Int × σ :=
  if d.frame.length = 0 then (0, s) else cb d.frame s

def retryHeld (cb : FrameCb σ) (d : Decoder cap) (s : σ) : Int × Decoder cap × σ :=
  if !d.held then (0, d, s)
  else
    let r := emitFrame cb d s
    if r.1 = txThrottle then (r.1, d, r.2) else (r.1, released, r.2)

def copyRun (d : Decoder cap) : List Byte → Decoder cap × List Byte
  | [] => (d, [])
  | byte :: rest =>
    if byte = rnsStreamFlag ∨ byte = rnsStreamEsc then (d, byte :: rest)
    else if room : d.frame.length < cap then copyRun (d.push byte room) rest
    else (d.restart .waitFrameStart, byte :: rest)

def fastPath (d : Decoder cap) : List Byte → Decoder cap × List Byte
  | [] => (d, [])
  | byte :: rest =>
    if d.state = .readFrame ∧ byte ≠ rnsStreamFlag ∧ byte ≠ rnsStreamEsc then
      copyRun d (byte :: rest)
    else (d, byte :: rest)

def plainByte (d : Decoder cap) (byte : Byte) : Decoder cap :=
  match d.state with
  | .waitFrameStart => d
  | .readEscapedByte => { d with state := .readFrame }.store (byte ^^^ rnsStreamEscMask)
  | .readFrame =>
    if byte = rnsStreamEsc then { d with state := .readEscapedByte } else d.store byte

def takeByte (cb : FrameCb σ) (d : Decoder cap) (byte : Byte) (s : σ) : Bool × Decoder cap × σ :=
  if byte = rnsStreamFlag then
    if (d.state = .readFrame ∨ d.state = .readEscapedByte) ∧ d.frame.length > 0 then
      let r := emitFrame cb d s
      if r.1 = txThrottle then (true, { d with held := true }, r.2)
      else (false, d.restart .readFrame, r.2)
    else (false, d.restart .readFrame, s)
  else (false, d.plainByte byte, s)

-- Whether the loop stopped at a refused frame, and the bytes it did not take.
def processLoop (cb : FrameCb σ) :
    Nat → Decoder cap → List Byte → σ → (Bool × List Byte) × Decoder cap × σ
  | 0, d, data, s => ((false, data), d, s)
  | fuel + 1, d, data, s =>
    let run := d.fastPath data
    match run.2 with
    | [] => ((false, []), run.1, s)
    | byte :: rest =>
      let taken := run.1.takeByte cb byte s
      if taken.1 then ((true, rest), taken.2.1, taken.2.2)
      else processLoop cb fuel taken.2.1 rest taken.2.2

structure Processed (cap : Nat) (σ : Type) where
  status : Int
  consumed : Nat
  decoder : Decoder cap
  user : σ

def processFresh (cb : FrameCb σ) (d : Decoder cap) (data : List Byte) (s : σ) : Processed cap σ :=
  let r := processLoop cb data.length d data s
  -- `*consumed` is a `uint16_t`
  ⟨if r.1.1 then txThrottle else 0, (data.length - r.1.2.length) % 2 ^ 16, r.2.1, r.2.2⟩

def process (cb : FrameCb σ) (d : Decoder cap) (data : List Byte) (s : σ) : Processed cap σ :=
  if data.length = 0 then ⟨0, 0, d, s⟩
  else if d.held then
    let r := emitFrame cb d s
    if r.1 = txThrottle then ⟨r.1, 0, d, r.2⟩ else processFresh cb released data r.2
  else processFresh cb d data s

end Decoder

end RnodeHalow.Stream
