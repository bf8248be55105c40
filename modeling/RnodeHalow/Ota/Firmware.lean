import RnodeHalow.Wire
import RnodeHalow.Shared.Octets
import RnodeHalow.Shared.Runs

set_option autoImplicit false

namespace RnodeHalow.Ota

open Octets

structure Part where
  len : BitVec 32
  deriving DecidableEq, Repr

structure Env where
  find : Option Part
  erase : Int
  write : Int
  read : Nat → Nat → Option (List Byte)
  mac : Mac
  pbufAlloc : Bool
  -- There is a `linkoutput` and it returned ERR_OK.
  linkoutput : Bool
  timeMs : Int

structure FwCtx where
  active : Bool
  total : BitVec 32
  expectCrc32 : BitVec 32
  deriving DecidableEq, Repr

inductive Act where
  | begun (accepted : Bool)
  | chunk (off : BitVec 32)
  | restarted (total : BitVec 32)
  | erased (p : Part) (total : BitVec 32)
  | wrote (p : Part) (total off : BitVec 32) (len : BitVec 16)
  deriving DecidableEq, Repr

structure Updater where
  part : Option Part
  erased : Bool
  total : BitVec 32
  fw : FwCtx
  beginMs : Int
  log : List Act
  deriving DecidableEq, Repr

namespace Updater

def boot : Updater := ⟨none, false, 0, ⟨false, 0, 0⟩, 0, []⟩

def note (s : Updater) (a : Act) : Updater := { s with log := a :: s.log }

def setActive (s : Updater) (active : Bool) : Updater := { s with fw := { s.fw with active := active } }

end Updater

def otaFwSessionTimeoutMs : Int := 10 * 60 * 1000

def otaFwActive (s : Updater) (env : Env) : Updater × Bool :=
  if s.fw.active = false then (s, false)
  else if otaFwSessionTimeoutMs < env.timeMs - s.beginMs then (s.setActive false, false)
  else (s, true)

def otaFalPartGet (s : Updater) (env : Env) : Updater × Option Part :=
  match s.part with
  | some p => (s, some p)
  | none => ({ s with part := env.find }, env.find)

def otaFalEraseIfNeeded (s : Updater) (env : Env) (p : Part) (total off : BitVec 32) : Updater × Int :=
  let s := if off = 0#32 then { s.note (.restarted total) with erased := false, total := total }
    else s
  if s.erased then
    if s.total ≠ total then (s, -11) else (s, 0)
  else if off ≠ 0#32 then (s, -12)
  else if total = 0#32 then (s, -13)
  else if p.len < total then (s, -14)
  else if env.erase < 0 then (s, -15)
  else ({ s.note (.erased p total) with erased := true }, 0)

def libotaArgs (p : Part) (totLen off : BitVec 32) (len : BitVec 16) : Int :=
  if totLen = 0#32 then -4
  else if totLen < off then -5
  else if totLen < off + len.setWidth 32 then -6
  else if p.len < off + len.setWidth 32 then -7
  else 0

def libotaWriteFwAh (s : Updater) (env : Env) (totLen off : BitVec 32) (data : Bool)
    (len : BitVec 16) : Updater × Int :=
  if data = false then (s, -1)
  else if len = 0#16 then (s, -2)
  else
    match otaFalPartGet s env with
    | (s, none) => (s, -3)
    | (s, some p) =>
      if libotaArgs p totLen off len ≠ 0 then (s, libotaArgs p totLen off len)
      else
        match otaFalEraseIfNeeded s env p totLen off with
        | (s, er) =>
          if er ≠ 0 then (s, er)
          else if env.write < 0 then (s.note (.wrote p totLen off len), -8)
          else if env.write ≠ len.toNat then (s.note (.wrote p totLen off len), -9)
          else (s.note (.wrote p totLen off len), 0)

def otaFwBegin (s : Updater) (env : Env) (totalSize expectCrc32 : BitVec 32) : Updater × Int :=
  if totalSize = 0#32 then (s.note (.begun false), -1)
  else
    match otaFalPartGet s env with
    | (s, none) => (s.note (.begun false), -2)
    | (s, some p) =>
      if p.len < totalSize then (s.note (.begun false), -3)
      else
        ({ s.note (.begun true) with
          erased := false
          total := 0#32
          fw := ⟨true, totalSize, expectCrc32⟩
          beginMs := env.timeMs }, 0)

def otaFwWriteChunk (s : Updater) (env : Env) (off : BitVec 32) (data : Bool) (len : BitVec 16) :
    Updater × Int :=
  let s := s.note (.chunk off)
  if s.fw.active = false then (s, -1)
  else if data = false ∨ len = 0#16 then (s, -2)
  else
    match libotaWriteFwAh s env s.fw.total off data len with
    | (s, r) => if r = 0 then ({ s with beginMs := env.timeMs }, 0) else (s, r)

def crcBit (c : BitVec 32) : BitVec 32 :=
  if c &&& 1#32 = 1#32 then 0xEDB88320#32 ^^^ (c >>> 1) else c >>> 1

def crc32Fw (crc : BitVec 32) (p : List Byte) : BitVec 32 :=
  p.foldl (fun c b => crcBit^[8] (c ^^^ b.setWidth 32)) (crc ^^^ 0xFFFFFFFF#32) ^^^ 0xFFFFFFFF#32

def imageCrcLoop (env : Env) (left offset : Nat) (crc : BitVec 32) : Option (BitVec 32) :=
  if left = 0 then some crc
  else
    let n := if left > 1024 then 1024 else left
    (env.read offset n).bind fun buf => imageCrcLoop env (left - n) (offset + n) (crc32Fw crc buf)
termination_by left
decreasing_by split <;> omega

def imageCrc (env : Env) (total : Nat) : Option (BitVec 32) := imageCrcLoop env total 0 0#32

def otaFwEnd (s : Updater) (env : Env) : Updater × Int :=
  if s.fw.active = false then (s, -1)
  else
    match otaFalPartGet (s.setActive false) env with
    | (s, none) => (s, -2)
    | (s, some _) =>
      match imageCrc env s.fw.total.toNat with
      | none => (s, -3)
      | some crc => if crc ≠ s.fw.expectCrc32 then (s, -4) else (s, 0)

def be16 (d : List Byte) (k : Nat) : BitVec 16 :=
  (byteAt d k).setWidth 16 <<< 8 ||| (byteAt d (k + 1)).setWidth 16

def be32 (d : List Byte) (k : Nat) : BitVec 32 :=
  word (byteAt d k) (byteAt d (k + 1)) (byteAt d (k + 2)) (byteAt d (k + 3))

def ethPOta : BitVec 16 := 0x4847#16
def ethOtaFwDataSize : Nat := 36
def ethPOtaFwDataResp : Byte := 5#8

def fwOff (frame : List Byte) : BitVec 32 := be32 frame 20

def fwTotal (frame : List Byte) : BitVec 32 := be32 frame 24

def fwLen (frame : List Byte) : BitVec 16 := be16 frame 28

def fwEnd (frame : List Byte) : BitVec 32 := fwOff frame + (fwLen frame).setWidth 32

def fwHeader (frame : List Byte) : Bool :=
  ethOtaFwDataSize ≤ frame.length && be16 frame 12 == ethPOta

def fwAdmits (frame : List Byte) : Bool :=
  fwLen frame != 0#16 && (fwLen frame).toNat ≤ 1400 &&
    ethOtaFwDataSize + (fwLen frame).toNat ≤ frame.length &&
    fwOff frame ≤ fwTotal frame && fwEnd frame ≤ fwTotal frame

def fwAnswer (mac : Mac) (frame : List Byte) : List Byte :=
  (frame.drop 6).take 6 ++ [mac.b0, mac.b1, mac.b2, mac.b3, mac.b4, mac.b5] ++
    [0x48#8, 0x47#8, ethPOtaFwDataResp, 0#8] ++ (frame.drop 16).take 18 ++ [0#8, 0#8]

def fwDataWrite (s : Updater) (env : Env) (frame : List Byte) : Updater × Int :=
  let s := if fwOff frame = 0#32 then { s with fw := ⟨true, fwTotal frame, s.fw.expectCrc32⟩ } else s
  match libotaWriteFwAh s env (fwTotal frame) (fwOff frame) true (fwLen frame) with
  | (s, r) =>
    if r ≠ 0 then (s.setActive false, r)
    else if fwTotal frame ≤ fwEnd frame then (s.setActive false, 0)
    else (s, 0)

def otaCmdFirmwareData (s : Updater) (env : Env) (nif : Bool) (data : Option (List Byte)) :
    Updater × Int × Option (List Byte) :=
  match nif, data with
  | true, some frame =>
    if fwHeader frame = false then (s, -1, none)
    else if fwAdmits frame = false then (s.note (.chunk (fwOff frame)), -1, none)
    else
      match fwDataWrite (s.note (.chunk (fwOff frame))) env frame with
      | (s, r) =>
        if r ≠ 0 then (s, -1, none)
        else if env.pbufAlloc && env.linkoutput then (s, 0, some (fwAnswer env.mac frame))
        else (s, -1, none)
  | _, _ => (s, -1, none)

inductive Call where
  | begin (totalSize expectCrc32 : BitVec 32)
  | writeChunk (off : BitVec 32) (data : Bool) (len : BitVec 16)
  | finish
  | fwData (nif : Bool) (data : Option (List Byte))
  | query

structure Event where
  call : Call
  env : Env

def step (s : Updater) (e : Event) : Updater :=
  match e.call with
  | .begin totalSize expectCrc32 => (otaFwBegin s e.env totalSize expectCrc32).1
  | .writeChunk off data len => (otaFwWriteChunk s e.env off data len).1
  | .finish => (otaFwEnd s e.env).1
  | .fwData nif data => (otaCmdFirmwareData s e.env nif data).1
  | .query => (otaFwActive s e.env).1

def after (s : Updater) (events : List Event) : Updater := events.foldl step s

def eraseInForce : List Act → Option (Part × BitVec 32)
  | [] => none
  | .erased p total :: older =>
    if older.head? = some (.restarted total) then some (p, total) else none
  | .begun true :: _ => none
  | .restarted _ :: _ => none
  | _ :: older => eraseInForce older

structure WriteSound (earlier : List Act) (p : Part) (total off : BitVec 32) (len : BitVec 16) :
    Prop where
  inside : off.toNat + len.toNat ≤ total.toNat
  fits : total.toNat ≤ p.len.toNat
  erased : eraseInForce earlier = some (p, total)

def Sound : List Act → Prop
  | [] => True
  | .wrote p total off len :: earlier => WriteSound earlier p total off len ∧ Sound earlier
  | _ :: earlier => Sound earlier

def Part.Short (p : Part) : Prop := p.len.toNat < 2 ^ 32 - 65536

structure Inv (s : Updater) : Prop where
  short : ∀ p, s.part = some p → p.Short
  inForce : s.erased = true →
    ∃ p, s.part = some p ∧ s.total.toNat ≤ p.len.toNat ∧ eraseInForce s.log = some (p, s.total)
  sound : Sound s.log

section Steps

variable {s : Updater} {env : Env}

theorem Inv.guard (inv : Inv s) (fw : FwCtx) (beginMs : Int) :
    Inv { s with fw := fw, beginMs := beginMs } := ⟨inv.short, inv.inForce, inv.sound⟩

theorem Inv.setActive (inv : Inv s) (active : Bool) : Inv (s.setActive active) := inv.guard _ _

theorem Inv.note_refused (inv : Inv s) : Inv (s.note (.begun false)) :=
  ⟨inv.short, inv.inForce, inv.sound⟩

theorem Inv.note_chunk (inv : Inv s) (off : BitVec 32) : Inv (s.note (.chunk off)) :=
  ⟨inv.short, inv.inForce, inv.sound⟩

theorem otaFwActive_inv (inv : Inv s) : Inv (otaFwActive s env).1 := by
  unfold otaFwActive
  split
  next => exact inv
  next =>
    split
    next => exact inv.setActive false
    next => exact inv

theorem otaFalPartGet_inv {s' : Updater} {found : Option Part} (inv : Inv s)
    (small : ∀ p, env.find = some p → p.Short) (got : otaFalPartGet s env = (s', found)) :
    Inv s' ∧ s'.part = found := by
  unfold otaFalPartGet at got
  cases known : s.part with
  | some p =>
    rw [known] at got
    cases got
    exact ⟨inv, known⟩
  | none =>
    rw [known] at got
    cases got
    refine ⟨⟨small, ?_, inv.sound⟩, rfl⟩
    intro erased
    obtain ⟨p, part, _⟩ := inv.inForce erased
    rw [known] at part
    cases part

structure Readied (p : Part) (total : BitVec 32) (r : Updater × Int) : Prop where
  inv : Inv r.1
  part : r.1.part = some p
  ready : r.2 = 0 → r.1.erased = true ∧ r.1.total = total

theorem Inv.refused {p : Part} {total : BitVec 32} {er : Int} (inv : Inv s)
    (part : s.part = some p) (error : er ≠ 0) : Readied p total (s, er) :=
  ⟨inv, part, fun zero => absurd zero error⟩

theorem otaFalEraseIfNeeded_readied {p : Part} {total off : BitVec 32} (inv : Inv s)
    (part : s.part = some p) : Readied p total (otaFalEraseIfNeeded s env p total off) := by
  unfold otaFalEraseIfNeeded
  by_cases first : off = 0#32
  · have restarted : Inv { s.note (.restarted total) with erased := false, total := total } :=
      ⟨inv.short, fun erased => Bool.noConfusion erased, inv.sound⟩
    simp only [first, if_true]
    rw [if_neg Bool.false_ne_true, if_neg (by simp)]
    split
    next => exact restarted.refused part (by decide)
    next =>
      split
      next => exact restarted.refused part (by decide)
      next fits =>
        split
        next => exact restarted.refused part (by decide)
        next =>
          have within : total.toNat ≤ p.len.toNat := Nat.le_of_not_lt fits
          have inForce : eraseInForce (.erased p total :: .restarted total :: s.log) =
              some (p, total) := if_pos rfl
          exact ⟨⟨inv.short, fun _ => ⟨p, part, within, inForce⟩, inv.sound⟩, part,
            fun _ => ⟨rfl, rfl⟩⟩
  · simp only [first, if_false]
    split
    next erased =>
      split
      next => exact inv.refused part (by decide)
      next same => exact ⟨inv, part, fun _ => ⟨erased, not_not.mp same⟩⟩
    next => exact inv.refused part (by decide)

theorem inside_of_args {p : Part} {totLen off : BitVec 32} {len : BitVec 16}
    (short : p.Short) (fits : totLen.toNat ≤ p.len.toNat) (passed : libotaArgs p totLen off len = 0) :
    off.toNat + len.toNat ≤ totLen.toNat := by
  unfold Part.Short at short
  unfold libotaArgs at passed
  split at passed
  next => cases passed
  next =>
    split at passed
    next => cases passed
    next below =>
      split at passed
      next => cases passed
      next within =>
        have len_lt := len.isLt
        simp only [BitVec.lt_def, BitVec.toNat_add, BitVec.toNat_setWidth, not_lt] at below within
        omega

theorem Inv.note_wrote {p : Part} {total off : BitVec 32} {len : BitVec 16} (inv : Inv s)
    (part : s.part = some p) (erased : s.erased = true) (same : s.total = total)
    (passed : libotaArgs p total off len = 0) : Inv (s.note (.wrote p total off len)) := by
  obtain ⟨q, found, fits, inForce⟩ := inv.inForce erased
  obtain rfl : q = p := Option.some.inj (found.symm.trans part)
  subst same
  refine ⟨inv.short, inv.inForce, ?_, inv.sound⟩
  exact ⟨inside_of_args (inv.short q part) fits passed, fits, inForce⟩

theorem libotaWriteFwAh_inv (inv : Inv s) (small : ∀ p, env.find = some p → p.Short)
    (totLen off : BitVec 32) (data : Bool) (len : BitVec 16) :
    Inv (libotaWriteFwAh s env totLen off data len).1 := by
  unfold libotaWriteFwAh
  split
  next => exact inv
  split
  next => exact inv
  split
  next s1 got => exact (otaFalPartGet_inv inv small got).1
  next s1 p got =>
    obtain ⟨kept, part⟩ := otaFalPartGet_inv inv small got
    split
    next => exact kept
    next passed =>
      split
      next s2 er erase =>
        have readied : Readied p totLen (s2, er) := erase ▸ otaFalEraseIfNeeded_readied kept part
        split
        next => exact readied.inv
        next fine =>
          obtain ⟨erased, same⟩ := readied.ready (not_not.mp fine)
          have wrote := readied.inv.note_wrote readied.part erased same (not_not.mp passed)
          split
          next => exact wrote
          next =>
            split
            next => exact wrote
            next => exact wrote

theorem otaFwBegin_inv (inv : Inv s) (small : ∀ p, env.find = some p → p.Short)
    (totalSize expectCrc32 : BitVec 32) : Inv (otaFwBegin s env totalSize expectCrc32).1 := by
  unfold otaFwBegin
  split
  next => exact inv.note_refused
  split
  next s1 got => exact (otaFalPartGet_inv inv small got).1.note_refused
  next s1 p got =>
    have kept := (otaFalPartGet_inv inv small got).1
    split
    next => exact kept.note_refused
    next => exact ⟨kept.short, fun erased => Bool.noConfusion erased, kept.sound⟩

theorem otaFwWriteChunk_inv (inv : Inv s) (small : ∀ p, env.find = some p → p.Short)
    (off : BitVec 32) (data : Bool) (len : BitVec 16) :
    Inv (otaFwWriteChunk s env off data len).1 := by
  have noted := inv.note_chunk off
  unfold otaFwWriteChunk
  dsimp only
  split
  next => exact noted
  split
  next => exact noted
  have written := libotaWriteFwAh_inv noted small (s.note (.chunk off)).fw.total off data len
  split
  next => exact written.guard _ _
  next => exact written

theorem otaFwEnd_inv (inv : Inv s) (small : ∀ p, env.find = some p → p.Short) :
    Inv (otaFwEnd s env).1 := by
  unfold otaFwEnd
  split
  next => exact inv
  split
  next s1 got => exact (otaFalPartGet_inv (inv.setActive false) small got).1
  next s1 p got =>
    have kept := (otaFalPartGet_inv (inv.setActive false) small got).1
    split
    next => exact kept
    next =>
      split
      next => exact kept
      next => exact kept

theorem fwDataWrite_inv (inv : Inv s) (small : ∀ p, env.find = some p → p.Short)
    (frame : List Byte) : Inv (fwDataWrite s env frame).1 := by
  unfold fwDataWrite
  generalize armed : (if fwOff frame = 0#32 then
    { s with fw := ⟨true, fwTotal frame, s.fw.expectCrc32⟩ } else s) = s1
  have kept : Inv s1 := by
    rw [← armed]
    split
    next => exact inv.guard _ _
    next => exact inv
  have written := libotaWriteFwAh_inv kept small (fwTotal frame) (fwOff frame) true (fwLen frame)
  dsimp only
  split
  next => exact written.setActive false
  split
  next => exact written.setActive false
  next => exact written

theorem otaCmdFirmwareData_inv (inv : Inv s) (small : ∀ p, env.find = some p → p.Short) (nif : Bool)
    (data : Option (List Byte)) : Inv (otaCmdFirmwareData s env nif data).1 := by
  unfold otaCmdFirmwareData
  split
  next frame =>
    have noted := inv.note_chunk (fwOff frame)
    split
    next => exact inv
    split
    next => exact noted
    split
    next s1 r write =>
      have written := fwDataWrite_inv noted small frame
      rw [write] at written
      split
      next => exact written
      next =>
        split
        next => exact written
        next => exact written
  next => exact inv

theorem step_inv {e : Event} (inv : Inv s) (small : ∀ p, e.env.find = some p → p.Short) :
    Inv (step s e) := by
  unfold step
  split
  next totalSize expectCrc32 _ => exact otaFwBegin_inv inv small totalSize expectCrc32
  next off data len _ => exact otaFwWriteChunk_inv inv small off data len
  next => exact otaFwEnd_inv inv small
  next nif data _ => exact otaCmdFirmwareData_inv inv small nif data
  next => exact otaFwActive_inv inv

end Steps

theorem boot_inv : Inv .boot := by
  refine ⟨?_, fun erased => Bool.noConfusion erased, trivial⟩
  intro p known
  cases known

theorem after_inv {events : List Event}
    (small : ∀ e ∈ events, ∀ p, e.env.find = some p → p.Short) : Inv (after .boot events) :=
  (Runs.along_of_forall small).holds boot_inv fun _ _ inv small => step_inv inv small

theorem Sound.at_write {log later earlier : List Act} {p : Part} {total off : BitVec 32}
    {len : BitVec 16} (sound : Sound log) (split : log = later ++ .wrote p total off len :: earlier) :
    WriteSound earlier p total off len := by
  subst split
  induction later with
  | nil => exact sound.1
  | cons a later ih =>
    apply ih
    cases a with
    | wrote => exact sound.2
    | begun | chunk | restarted | erased => exact sound

def Act.starts : Act → Bool
  | .begun accepted => accepted
  | .restarted _ => true
  | _ => false

theorem eraseInForce_split {log : List Act} {p : Part} {total : BitVec 32}
    (inForce : eraseInForce log = some (p, total)) :
    ∃ since older, log = since ++ .erased p total :: .restarted total :: older ∧
      ∀ a ∈ since, a.starts = false := by
  induction log with
  | nil => cases inForce
  | cons a log ih =>
    have extend (still : eraseInForce log = some (p, total)) (quiet : a.starts = false) :
        ∃ since older, a :: log = since ++ .erased p total :: .restarted total :: older ∧
          ∀ b ∈ since, b.starts = false := by
      obtain ⟨since, older, split, clean⟩ := ih still
      refine ⟨a :: since, older, by rw [split, List.cons_append], ?_⟩
      intro b member
      rcases List.mem_cons.mp member with rfl | member
      · exact quiet
      · exact clean b member
    cases a with
    | begun accepted =>
      cases accepted with
      | true => cases inForce
      | false => exact extend inForce rfl
    | chunk | wrote => exact extend inForce rfl
    | restarted t => cases inForce
    | erased q t =>
      unfold eraseInForce at inForce
      split at inForce
      next first =>
        cases inForce
        obtain ⟨older, rfl⟩ := List.head?_eq_some_iff.mp first
        exact ⟨[], older, rfl, by simp⟩
      next => cases inForce

-- `restarted` stands for a chunk with offset 0 that got as far as the erase.
theorem firmware_writes_inside_erased_image {events : List Event}
    (small : ∀ e ∈ events, ∀ p, e.env.find = some p → p.len.toNat < 2 ^ 32 - 65536)
    {later earlier : List Act} {p : Part} {total off : BitVec 32} {len : BitVec 16}
    (wrote : (after .boot events).log = later ++ .wrote p total off len :: earlier) :
    off.toNat + len.toNat ≤ total.toNat ∧ total.toNat ≤ p.len.toNat ∧
      ∃ since older, earlier = since ++ .erased p total :: .restarted total :: older ∧
        ∀ a ∈ since, a.starts = false := by
  have written := (after_inv small).sound.at_write wrote
  exact ⟨written.inside, written.fits, eraseInForce_split written.erased⟩

def smallPart : Part := ⟨4096#32⟩

def workingEnv (wrote : Int) (timeMs : Int) : Env where
  find := some smallPart
  erase := 0
  write := wrote
  read := fun _ n => some (List.replicate n 0#8)
  mac := ⟨0x02#8, 0#8, 0#8, 0#8, 0#8, 1#8⟩
  pbufAlloc := true
  linkoutput := true
  timeMs := timeMs

def disturbedUpload : List Event :=
  [⟨.begin 100#32 0#32, workingEnv 0 0⟩, ⟨.writeChunk 0#32 true 50#16, workingEnv 50 10⟩,
    ⟨.begin 0#32 0#32, workingEnv 0 20⟩, ⟨.writeChunk 0#32 true 101#16, workingEnv 101 30⟩,
    ⟨.writeChunk 50#32 true 50#16, workingEnv 50 40⟩]

theorem disturbedUpload_small (e : Event) (member : e ∈ disturbedUpload) (p : Part)
    (found : e.env.find = some p) : p.len.toNat < 2 ^ 32 - 65536 := by
  have same : e.env.find = some smallPart := by
    simp only [disturbedUpload, List.mem_cons, List.not_mem_nil, or_false] at member
    rcases member with rfl | rfl | rfl | rfl | rfl <;> rfl
  obtain rfl : smallPart = p := Option.some.inj (same.symm.trans found)
  decide

def beforeSecondHalf : List Act :=
  [.chunk 50#32, .chunk 0#32, .begun false, .wrote smallPart 100#32 0#32 50#16,
    .erased smallPart 100#32, .restarted 100#32, .chunk 0#32, .begun true]

theorem firmware_writes_inside_erased_image_upload :
    (after .boot disturbedUpload).log =
      [] ++ .wrote smallPart 100#32 50#32 50#16 :: beforeSecondHalf ∧
    (50#32).toNat + (50#16).toNat ≤ (100#32).toNat ∧ (100#32).toNat ≤ smallPart.len.toNat ∧
      ∃ since older, beforeSecondHalf =
          since ++ .erased smallPart 100#32 :: .restarted 100#32 :: older ∧
        ∀ a ∈ since, a.starts = false := by
  have log : (after .boot disturbedUpload).log =
      [] ++ .wrote smallPart 100#32 50#32 50#16 :: beforeSecondHalf := by decide
  exact ⟨log, firmware_writes_inside_erased_image disturbedUpload_small log⟩

theorem upload_survives_refused_begin :
    (otaFwBegin (after .boot (disturbedUpload.take 2)) (workingEnv 0 20) 0#32 0#32).2 = -1 ∧
    (otaFwWriteChunk (after .boot (disturbedUpload.take 3)) (workingEnv 101 30) 0#32 true 101#16).2 =
      -6 ∧
    (otaFwWriteChunk (after .boot (disturbedUpload.take 4)) (workingEnv 50 40) 50#32 true 50#16).2 =
      0 ∧
    (after .boot disturbedUpload).log = .wrote smallPart 100#32 50#32 50#16 :: beforeSecondHalf := by
  decide

end RnodeHalow.Ota
