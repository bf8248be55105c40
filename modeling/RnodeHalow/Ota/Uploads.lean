import RnodeHalow.Ota.Firmware
import RnodeHalow.Shared.Crc

set_option autoImplicit false

namespace RnodeHalow.Ota

def crc32Poly : BitVec 32 := 0xEDB88320#32

def ones : BitVec 32 := 0xFFFFFFFF#32

def crc32 (message : List Byte) : BitVec 32 := Crc.register crc32Poly ones message ^^^ ones

example : crc32 [0x31, 0x32, 0x33, 0x34, 0x35, 0x36, 0x37, 0x38, 0x39] = 0xCBF43926#32 := by
  decide +kernel

def crc32Feed (c : BitVec 32) (p : List Byte) : BitVec 32 := Crc.feed crc32Poly c p

def wotaPathMax : Nat := 128

structure Wota where
  active : Bool
  size : BitVec 32
  expectCrc32 : BitVec 32
  written : BitVec 32
  crcRunning : BitVec 32

def ensureParentDirs (path : List Byte) : Int := if wotaPathMax ≤ path.length then -1 else 0

def otaLfsFileBegin (s : Wota) (path : Option (List Byte)) (size crc : BitVec 32) (opened : Bool) :
    Int × Wota :=
  match path with
  | none => (-1, s)
  | some path =>
    if path = [] then (-1, s)
    else if size = 0#32 then (-2, s)
    else if wotaPathMax ≤ path.length then (-3, s)
    else if ensureParentDirs path < 0 then (-4, { s with active := false })
    else if !opened then (-5, { s with active := false })
    else (0, ⟨true, size, crc, 0#32, ones⟩)

structure Chunk where
  data : List Byte
  answer : Int
  short : data.length < 2 ^ 32

def Chunk.len (c : Chunk) : BitVec 32 := BitVec.ofNat 32 c.data.length

def otaWotaFileWrite (s : Wota) (c : Chunk) : Int × Wota :=
  if !s.active then (-1, s)
  else if c.len = 0#32 then (-2, s)
  else if s.size < s.written + c.len then (-3, s)
  else if c.answer ≠ c.len.toInt then (-4, s)
  else
    (0, { s with
      crcRunning := crc32Feed s.crcRunning c.data
      written := s.written + c.len })

def otaWotaFileEnd (s : Wota) : Int × Wota :=
  if !s.active then (-1, s)
  else if s.written ≠ s.size then (-2, { s with active := false })
  else if s.crcRunning ^^^ ones ≠ s.expectCrc32 then (-3, { s with active := false })
  else (0, { s with active := false })

def upload (x : Wota × List Byte) (c : Chunk) : Wota × List Byte :=
  ((otaWotaFileWrite x.1 c).2,
    if (otaWotaFileWrite x.1 c).1 = 0 then x.2 ++ c.data else x.2)

def lfsFileMax : Nat := 2147483647

def Succeeds (x : Wota × List Byte) (c : Chunk) : Prop :=
  c.data ≠ [] → ¬ x.1.size < x.1.written + c.len →
    c.answer = c.data.length ∧ x.2.length + c.data.length ≤ lfsFileMax

instance (x : Wota × List Byte) (c : Chunk) : Decidable (Succeeds x c) :=
  inferInstanceAs (Decidable (_ → _ → _ ∧ _))

structure Uploading (size crc : BitVec 32) (x : Wota × List Byte) : Prop where
  active : x.1.active = true
  size_eq : x.1.size = size
  crc_eq : x.1.expectCrc32 = crc
  written : x.1.written = BitVec.ofNat 32 x.2.length
  fits : x.2.length ≤ size.toNat
  running : x.1.crcRunning = crc32Feed ones x.2

def Fits (size : BitVec 32) (got : List Byte) (c : Chunk) : Prop :=
  c.data ≠ [] ∧ got.length + c.data.length ≤ size.toNat

variable {size crc : BitVec 32} {x : Wota × List Byte} {c : Chunk}

theorem len_eq_zero : c.len = 0#32 ↔ c.data = [] := by
  rw [Chunk.len, ← BitVec.toNat_inj, BitVec.toNat_ofNat, Nat.mod_eq_of_lt c.short]
  exact List.length_eq_zero_iff

theorem Uploading.over_iff (up : Uploading size crc x) (ok : Succeeds x c) (some : c.data ≠ []) :
    x.1.size < x.1.written + c.len ↔ size.toNat < x.2.length + c.data.length := by
  have small := size.isLt
  have fits := up.fits
  have short := c.short
  unfold Succeeds at ok
  rw [up.size_eq, up.written, Chunk.len, ← BitVec.ofNat_add, BitVec.lt_def, BitVec.toNat_ofNat]
    at ok ⊢
  unfold lfsFileMax at ok
  by_cases low : x.2.length + c.data.length < 2 ^ 32
  · rw [Nat.mod_eq_of_lt low]
  · constructor
    · intro
      omega
    · intro
      by_contra passed
      have bound := (ok some passed).2
      omega

theorem Uploading.write (up : Uploading size crc x) (ok : Succeeds x c) :
    (Fits size x.2 c ∧ (otaWotaFileWrite x.1 c).1 = 0 ∧
        Uploading size crc ((otaWotaFileWrite x.1 c).2, x.2 ++ c.data)) ∨
      (¬ Fits size x.2 c ∧ (otaWotaFileWrite x.1 c).1 ≠ 0 ∧ (otaWotaFileWrite x.1 c).2 = x.1) := by
  unfold otaWotaFileWrite
  rw [up.active, Bool.not_true, if_neg Bool.false_ne_true]
  by_cases empty : c.data = []
  · rw [if_pos (len_eq_zero.mpr empty)]
    exact .inr ⟨fun fits => fits.1 empty, by simp, rfl⟩
  · have past := up.over_iff ok empty
    rw [if_neg (mt len_eq_zero.mp empty)]
    by_cases beyond : x.1.size < x.1.written + c.len
    · rw [if_pos beyond]
      refine .inr ⟨fun fits => ?_, by simp, rfl⟩
      exact Nat.not_le.mpr (past.mp beyond) fits.2
    · have fits : x.2.length + c.data.length ≤ size.toNat := Nat.not_lt.mp (mt past.mpr beyond)
      obtain ⟨answer, bound⟩ := ok empty beyond
      have count : c.len.toInt = c.data.length := by
        unfold lfsFileMax at bound
        have low : c.len.toNat = c.data.length := Nat.mod_eq_of_lt c.short
        rw [BitVec.toInt_eq_toNat_of_lt (by omega), low]
      rw [if_neg beyond, if_neg (by rw [answer, count]; exact fun ne => ne rfl)]
      refine .inl ⟨⟨empty, fits⟩, rfl, rfl, up.size_eq, up.crc_eq, ?_, ?_, ?_⟩
      · change x.1.written + c.len = _
        rw [up.written, Chunk.len, ← BitVec.ofNat_add, List.length_append]
      · rw [List.length_append]
        exact fits
      · change crc32Feed x.1.crcRunning c.data = _
        rw [up.running]
        exact (Crc.feed_append ..).symm

theorem Uploading.upload (up : Uploading size crc x) (ok : Succeeds x c) :
    Uploading size crc (upload x c) := by
  unfold Ota.upload
  rcases up.write ok with ⟨-, zero, next⟩ | ⟨-, code, same⟩
  · rw [if_pos zero]
    exact next
  · rw [if_neg code, same]
    exact up

theorem Uploading.fileEnd (up : Uploading size crc x) :
    (otaWotaFileEnd x.1).1 = 0 ↔ x.2.length = size.toNat ∧ crc32 x.2 = crc := by
  have all : x.1.written = x.1.size ↔ x.2.length = size.toNat := by
    have small := size.isLt
    have fits := up.fits
    rw [up.written, up.size_eq, ← BitVec.toNat_inj, BitVec.toNat_ofNat, Nat.mod_eq_of_lt (by omega)]
  have sum : x.1.crcRunning ^^^ ones = crc32 x.2 := by
    rw [up.running, crc32Feed, Crc.feed_eq_register, crc32]
  unfold otaWotaFileEnd
  rw [up.active, sum, up.crc_eq, ← all]
  by_cases whole : x.1.written = x.1.size <;> by_cases same : crc32 x.2 = crc <;> simp [whole, same]

theorem crc32_append (a b : List Byte) : crc32 (a ++ b) = crc32Fw (crc32 a) b := by
  have fw (crc : BitVec 32) : crc32Fw crc b = Crc.feed crc32Poly (crc ^^^ ones) b ^^^ ones := rfl
  rw [fw, crc32, crc32, BitVec.xor_assoc, BitVec.xor_self, BitVec.xor_zero,
    ← Crc.feed_eq_register, ← Crc.feed_eq_register, Crc.feed_append]

-- The loop has taken up the first `offset` bytes and has `left` bytes to go.
theorem imageCrcLoop_eq {env : Env} {image : List Byte}
    (read : ∀ off n, env.read off n = some ((image.drop off).take n)) (left offset : Nat)
    (rest : offset + left = image.length) :
    imageCrcLoop env left offset (crc32 (image.take offset)) = some (crc32 image) := by
  induction left using Nat.strong_induction_on generalizing offset with
  | _ left ih =>
    unfold imageCrcLoop
    by_cases done : left = 0
    · rw [if_pos done, List.take_of_length_le (by omega)]
    · rw [if_neg done]
      generalize size : (if left > 1024 then 1024 else left) = n
      have step : 0 < n ∧ n ≤ left := by
        rw [← size]
        split <;> omega
      simp only [read, Option.bind_some]
      rw [← crc32_append, ← List.take_add]
      exact ih (left - n) (by omega) (offset + n) (by omega)

theorem imageCrc_eq {env : Env} {image : List Byte}
    (read : ∀ off n, env.read off n = some ((image.drop off).take n)) :
    imageCrc env image.length = some (crc32 image) := by
  have start : crc32 (image.take 0) = 0#32 := by
    rw [List.take_zero]
    decide
  rw [imageCrc, ← start]
  exact imageCrcLoop_eq read image.length 0 (Nat.zero_add _)

theorem fileBegin_ok {s : Wota} {path : Option (List Byte)} {opened : Bool}
    (begun : (otaLfsFileBegin s path size crc opened).1 = 0) :
    (otaLfsFileBegin s path size crc opened).2 = ⟨true, size, crc, 0#32, ones⟩ := by
  unfold otaLfsFileBegin at begun ⊢
  cases path with
  | none => simp at begun
  | some path =>
    dsimp only at begun ⊢
    split_ifs at begun ⊢ <;> first | rfl | simp at begun

theorem fileEnd_iff_crc32 (s : Wota) (path : Option (List Byte)) (size crc : BitVec 32)
    (opened : Bool) (begun : (otaLfsFileBegin s path size crc opened).1 = 0) (calls : List Chunk)
    (ok : Runs.Along upload Succeeds ((otaLfsFileBegin s path size crc opened).2, []) calls) :
    let start := ((otaLfsFileBegin s path size crc opened).2, [])
    let done := calls.foldl upload start
    ((otaWotaFileEnd done.1).1 = 0 ↔ done.2.length = size.toNat ∧ crc32 done.2 = crc) ∧
      (∀ before c later, calls = before ++ c :: later →
        let x := before.foldl upload start
        ((otaWotaFileWrite x.1 c).1 = 0 ↔ Fits size x.2 c) ∧
          (¬ Fits size x.2 c → (otaWotaFileWrite x.1 c).2 = x.1)) ∧
      ∀ (image : List Byte) (env : Env),
        (∀ off n, env.read off n = some ((image.drop off).take n)) →
          imageCrc env image.length = some (crc32 image) := by
  have first : Uploading size crc ((otaLfsFileBegin s path size crc opened).2, []) := by
    rw [fileBegin_ok begun]
    exact ⟨rfl, rfl, rfl, rfl, Nat.zero_le _, rfl⟩
  refine ⟨(ok.holds first fun x c up => up.upload).fileEnd, ?_, fun image env => imageCrc_eq⟩
  intro before c later split
  have up := ok.holds_at first (fun x c up => up.upload) split
  rcases up.write (ok before c later split) with ⟨fits, zero, -⟩ | ⟨tooBig, code, same⟩
  · exact ⟨⟨fun _ => fits, fun _ => zero⟩, fun no => absurd fits no⟩
  · exact ⟨⟨fun zero => absurd zero code, fun fits => absurd fits tooBig⟩, fun _ => same⟩

def splitUpload : List Chunk :=
  [⟨[0x41, 0x42], 2, by decide⟩, ⟨[], 0, by decide⟩, ⟨[0x43, 0x44], 2, by decide⟩,
    ⟨[0x45], 1, by decide⟩]

def beginSplit : Int × Wota :=
  otaLfsFileBegin ⟨false, 0, 0, 0, 0⟩ (some [0x61]) 3 (crc32 [0x41, 0x42, 0x45]) true

def longImage : List Byte := List.replicate 1500 0x41

def longImageEnv : Env :=
  { workingEnv 0 0 with read := fun off n => some ((longImage.drop off).take n) }

theorem fileEnd_iff_crc32_split :
    (otaWotaFileEnd (splitUpload.foldl upload (beginSplit.2, [])).1).1 = 0 ∧
      (otaWotaFileWrite ((splitUpload.take 2).foldl upload (beginSplit.2, [])).1
        ⟨[0x43, 0x44], 2, by decide⟩).1 ≠ 0 ∧
      imageCrc longImageEnv longImage.length = some (crc32 longImage) := by
  have ok : Runs.Along upload Succeeds (beginSplit.2, []) splitUpload := by
    have good : Runs.check upload (fun x c => decide (Succeeds x c)) (beginSplit.2, [])
        splitUpload = true := by
      decide +kernel
    exact fun before c later split =>
      of_decide_eq_true (Runs.along_of_check good before c later split)
  obtain ⟨ends, writes, images⟩ := fileEnd_iff_crc32 ⟨false, 0, 0, 0, 0⟩ (some [0x61]) 3
    (crc32 [0x41, 0x42, 0x45]) true (by decide) splitUpload ok
  refine ⟨ends.mpr (by decide +kernel), fun zero => ?_, images longImage _ fun _ _ => rfl⟩
  have fits := (writes (splitUpload.take 2) ⟨[0x43, 0x44], 2, by decide⟩ (splitUpload.drop 3)
    rfl).1.mp zero
  exact absurd fits.2 (by decide +kernel)

end RnodeHalow.Ota
