import RnodeHalow.Radio.FragmentMix

set_option autoImplicit false

namespace RnodeHalow.Radio

open Function (update update_of_ne)

def wlanFtypeData : BitVec 16 := 0x0008#16

structure LmacFrame where
  data : List Byte
  mcs : Byte
  now : BitVec 32

def addrAt (d : List Byte) (k : Nat) : Mac :=
  ⟨byteAt d k, byteAt d (k + 1), byteAt d (k + 2), byteAt d (k + 3), byteAt d (k + 4),
    byteAt d (k + 5)⟩

def LmacFrame.rx (f : LmacFrame) : RxFrame :=
  ⟨f.data.drop ieee80211HdrLen, ⟨addrAt f.data 10, addrAt f.data 16⟩, f.now⟩

def halowLmacRx (cb : Bool) (f : LmacFrame) (r : Reasm) : Int × Reasm × Option RxCall :=
  if f.data.length < ieee80211HdrLen then (-1, r, none)
  else if le16 f.data 0 &&& 0x000C#16 ≠ wlanFtypeData then (-1, r, none)
  else if f.rx.payload.length = 0 ∨ cb = false then (0, r, none)
  else if f.mcs = 10#8 then (0, halowLmacRxMcs10 f.rx r)
  else (0, r, some ⟨f.rx.hdr, f.rx.payload⟩)

structure Frag where
  total : Nat
  seq : Nat
  uuid : Byte
  data : List Byte
  deriving DecidableEq, Repr

def RxFrame.total (f : RxFrame) : Nat := (byteAt f.payload 0 >>> 4).toNat

def RxFrame.fragment (f : RxFrame) : Option Frag :=
  if fragHdrSize ≤ f.payload.length ∧ 2 ≤ f.total ∧ f.total ≤ fragMaxTotal then
    some ⟨f.total, (byteAt f.payload 0 &&& 0x0F#8).toNat, byteAt f.payload 1,
      f.payload.drop fragHdrSize⟩
  else none

def LmacFrame.isMcs10 (cb : Bool) (f : LmacFrame) : Bool :=
  decide (ieee80211HdrLen < f.data.length) && le16 f.data 0 &&& 0x000C#16 == wlanFtypeData &&
    cb && f.mcs == 10#8

def LmacFrame.fragment (cb : Bool) (f : LmacFrame) : Option Frag :=
  if f.isMcs10 cb then f.rx.fragment else none

def Reasm.gather (g : Frag) (now : BitVec 32) (r : Reasm) : Reasm :=
  { (r.begun g.uuid g.total now).store g.seq g.data with lastTick := now }

theorem rxMcs10_fragment {f : RxFrame} {g : Frag} (fragment : f.fragment = some g) (r : Reasm) :
    2 ≤ g.total ∧ g.total ≤ fragMaxTotal ∧
      halowLmacRxMcs10 f r = (r.gather g f.now).finish f.hdr := by
  unfold RxFrame.fragment at fragment
  split at fragment
  next range =>
    obtain ⟨long, several, few⟩ := range
    cases fragment
    refine ⟨several, few, ?_⟩
    unfold RxFrame.total at several few
    unfold halowLmacRxMcs10
    dsimp only
    rw [if_neg (by omega), if_neg (by omega), if_neg (by omega), if_neg (by omega)]
    rfl
  next => cases fragment

theorem rxMcs10_other {f : RxFrame} (other : f.fragment = none) (r : Reasm) :
    (halowLmacRxMcs10 f r).1 = r ∨ (halowLmacRxMcs10 f r).1 = r.dropped := by
  unfold RxFrame.fragment at other
  split at other
  next => cases other
  next range =>
    unfold RxFrame.total at range
    unfold halowLmacRxMcs10
    dsimp only
    split
    · exact .inl rfl
    · split
      · exact .inl rfl
      · split
        · exact .inr rfl
        · rw [if_pos (by omega)]
          exact .inl rfl

theorem lmacRx_mcs10 {cb : Bool} {f : LmacFrame} (mcs10 : f.isMcs10 cb = true) (r : Reasm) :
    halowLmacRx cb f r = (0, halowLmacRxMcs10 f.rx r) := by
  simp only [LmacFrame.isMcs10, Bool.and_eq_true, decide_eq_true_eq, beq_iff_eq] at mcs10
  obtain ⟨⟨⟨long, data⟩, set⟩, rate⟩ := mcs10
  have some : f.rx.payload.length ≠ 0 := by
    simp only [LmacFrame.rx, List.length_drop]
    omega
  simp [halowLmacRx, data, set, rate, some, Nat.not_lt.mpr (Nat.le_of_lt long)]

theorem lmacRx_other {cb : Bool} {f : LmacFrame} (other : f.isMcs10 cb = false) (r : Reasm) :
    (halowLmacRx cb f r).2.1 = r := by
  unfold halowLmacRx
  split
  next => rfl
  next long =>
    split
    next => rfl
    next data =>
      split
      next => rfl
      next ready =>
        rw [if_neg]
        intro rate
        simp only [LmacFrame.rx, List.length_drop] at ready
        have whole : f.isMcs10 cb = true := by
          simp only [LmacFrame.isMcs10, Bool.and_eq_true, decide_eq_true_eq, beq_iff_eq]
          exact ⟨⟨⟨by omega, not_ne_iff.mp data⟩, by simpa using fun h => ready (.inr h)⟩, rate⟩
        rw [whole] at other
        cases other

def Reasm.storedCount (r : Reasm) : Nat :=
  ((List.range r.total).filter fun i => decide (r.partLen i ≠ 0)).length

structure Reasm.Holds (parts : List Frag) (r : Reasm) : Prop where
  total_le : r.total ≤ fragMaxTotal
  several : r.active = true → 2 ≤ r.total
  received : r.received = parts.length
  distinct : (parts.map Frag.seq).Nodup
  within : ∀ g ∈ parts, g.seq < r.total ∧ 0 < g.data.length
  stored : ∀ i, r.partLen i ≠ 0 ↔ i ∈ parts.map Frag.seq
  small : ∀ i, r.partLen i ≤ fragMaxPayload
  bytes : r.length = (parts.map fun g => g.data.length).sum

namespace Reasm

section Holds

variable {parts : List Frag} {r : Reasm} {g : Frag} {uuid : Byte} {now : BitVec 32} {hdr : RxHdr}

theorem boot_holds : bootReasm.Holds [] where
  total_le := by decide
  several active := by cases active
  received := rfl
  distinct := List.nodup_nil
  within g mem := by cases mem
  stored i := by simp [bootReasm]
  small i := Nat.zero_le _
  bytes := rfl

theorem Holds.reset {total : Nat} (several : 2 ≤ total) (few : total ≤ fragMaxTotal) :
    (r.reset uuid total).Holds [] where
  total_le := few
  several _ := several
  received := rfl
  distinct := List.nodup_nil
  within g mem := by cases mem
  stored i := by simp [Reasm.reset]
  small i := Nat.zero_le _
  bytes := by simp [Reasm.reset, Reasm.length, offset]

theorem Holds.congr {r' : Reasm} (holds : r.Holds parts) (total : r'.total = r.total)
    (received : r'.received = r.received) (partLen : r'.partLen = r.partLen)
    (active : r'.active = true → r.active = true) : r'.Holds parts where
  total_le := total ▸ holds.total_le
  several on := total ▸ holds.several (active on)
  received := received ▸ holds.received
  distinct := holds.distinct
  within := total ▸ holds.within
  stored := partLen ▸ holds.stored
  small := partLen ▸ holds.small
  bytes := by
    rw [← holds.bytes, Reasm.length, Reasm.length, offset, offset, total, partLen]

theorem Holds.dropped (holds : r.Holds parts) : r.dropped.Holds parts :=
  holds.congr rfl rfl rfl id

theorem sum_update {f : Nat → Nat} {s n : Nat} (below : s < n) (empty : f s = 0) (v : Nat) :
    ((List.range n).map (update f s v)).sum = ((List.range n).map f).sum + v := by
  have outside (m : Nat) (le : m ≤ s) :
      (List.range m).map (update f s v) = (List.range m).map f := by
    apply List.map_congr_left
    intro i mem
    have lt := List.mem_range.mp mem
    exact update_of_ne (by omega) ..
  induction n with
  | zero => omega
  | succ n ih =>
    rw [List.range_succ, List.map_append, List.map_append, List.sum_append, List.sum_append]
    by_cases last : s = n
    · subst last
      rw [outside s le_rfl]
      simp [empty]
    · rw [ih (by omega), List.map_singleton, update_of_ne (Ne.symm last)]
      simp only [List.map_singleton]
      omega

theorem takes_iff {seq : Nat} {fdata : List Byte} : r.takes seq fdata = true ↔
    seq < r.total ∧ 0 < fdata.length ∧ fdata.length ≤ fragMaxPayload ∧ r.partLen seq = 0 ∧
      r.offset seq + fdata.length ≤ fragBufSize := by
  simp only [takes, malformed, Bool.and_eq_true, Bool.not_eq_true', Bool.or_eq_false_iff,
    decide_eq_true_eq, decide_eq_false_iff_not]
  omega

theorem Holds.take (holds : r.Holds parts) (taken : r.takes g.seq g.data = true) :
    (r.store g.seq g.data).Holds (g :: parts) := by
  obtain ⟨below, some, short, empty, room⟩ := takes_iff.mp taken
  rw [store_takes taken]
  have fresh : g.seq ∉ parts.map Frag.seq := fun mem => (holds.stored g.seq).mpr mem empty
  exact
    { total_le := holds.total_le
      several := holds.several
      received := congrArg (· + 1) holds.received
      distinct := List.nodup_cons.mpr ⟨fresh, holds.distinct⟩
      within := by
        intro p mem
        rcases List.mem_cons.mp mem with rfl | mem
        · exact ⟨below, some⟩
        · exact holds.within p mem
      stored := by
        intro i
        rw [List.map_cons, List.mem_cons]
        by_cases same : i = g.seq
        · subst same
          simp [Nat.ne_of_gt some]
        · simpa [same] using holds.stored i
      small := by
        intro i
        by_cases same : i = g.seq
        · subst same
          simpa using short
        · simpa [same] using holds.small i
      bytes := by
        rw [List.map_cons, List.sum_cons, ← holds.bytes, Nat.add_comm g.data.length]
        exact sum_update below empty g.data.length }

def partsWith (g : Frag) (now : BitVec 32) (r : Reasm) (parts : List Frag) : List Frag :=
  let kept := if r.keeps g.uuid now then parts else []
  if (r.begun g.uuid g.total now).takes g.seq g.data then g :: kept else kept

variable (now) in
theorem Holds.begun (holds : r.Holds parts) (several : 2 ≤ g.total)
    (few : g.total ≤ fragMaxTotal) :
    (r.begun g.uuid g.total now).Holds (if r.keeps g.uuid now then parts else []) ∧
      2 ≤ (r.begun g.uuid g.total now).total := by
  by_cases kept : r.keeps g.uuid now = true
  · rw [begun_kept kept, if_pos kept]
    exact ⟨holds, holds.several (kept_active kept)⟩
  · rw [begun_reset (Bool.not_eq_true _ ▸ kept), if_neg kept]
    exact ⟨.reset several few, several⟩

theorem store_total (seq : Nat) (fdata : List Byte) (r : Reasm) :
    (r.store seq fdata).total = r.total := by
  by_cases taken : r.takes seq fdata = true
  · rw [store_takes taken]
  · rcases store_refuses (Bool.not_eq_true _ ▸ taken) with same | same <;> rw [same]
    rfl

variable (now) in
theorem Holds.gather (holds : r.Holds parts) (several : 2 ≤ g.total)
    (few : g.total ≤ fragMaxTotal) :
    (r.gather g now).Holds (r.partsWith g now parts) ∧ 2 ≤ (r.gather g now).total := by
  obtain ⟨begun, two⟩ := holds.begun now several few
  have kept : ((r.begun g.uuid g.total now).store g.seq g.data).Holds
      (r.partsWith g now parts) := by
    unfold partsWith
    by_cases taken : (r.begun g.uuid g.total now).takes g.seq g.data = true
    · rw [if_pos taken]
      exact begun.take taken
    · rw [if_neg taken]
      rcases store_refuses (Bool.not_eq_true _ ▸ taken) with same | same <;> rw [same]
      · exact begun
      · exact begun.dropped
  refine ⟨kept.congr rfl rfl rfl id, ?_⟩
  change 2 ≤ ((r.begun g.uuid g.total now).store g.seq g.data).total
  rw [store_total]
  exact two

theorem Holds.finish (holds : r.Holds parts) : (r.finish hdr).1.Holds parts := by
  unfold Reasm.finish
  split
  · exact holds.congr rfl rfl rfl fun active => by cases active
  · exact holds

theorem Holds.filter_perm (holds : r.Holds parts) :
    ((List.range r.total).filter fun i => decide (r.partLen i ≠ 0)).Perm
      (parts.map Frag.seq) := by
  refine (List.perm_ext_iff_of_nodup (List.nodup_range.filter _) holds.distinct).mpr ?_
  intro i
  rw [List.mem_filter, List.mem_range, decide_eq_true_eq, holds.stored]
  constructor
  · exact And.right
  · intro mem
    obtain ⟨g, member, rfl⟩ := List.mem_map.mp mem
    exact ⟨(holds.within g member).1, mem⟩

theorem Holds.counted (holds : r.Holds parts) : r.received = r.storedCount := by
  rw [storedCount, holds.filter_perm.length_eq, List.length_map, holds.received]

theorem Holds.received_le (holds : r.Holds parts) : r.received ≤ r.total := by
  have le := List.length_filter_le (fun i => decide (r.partLen i ≠ 0)) (List.range r.total)
  rw [holds.counted, storedCount]
  simpa using le

theorem Holds.offset_le (holds : r.Holds parts) (n : Nat) : r.offset n ≤ n * fragMaxPayload := by
  have le := List.sum_le_card_nsmul ((List.range n).map r.partLen) fragMaxPayload (by
    intro len mem
    obtain ⟨i, -, rfl⟩ := List.mem_map.mp mem
    exact holds.small i)
  simpa [offset] using le

theorem Holds.length_le (holds : r.Holds parts) : r.length ≤ fragBufSize := by
  apply (holds.offset_le r.total).trans
  rw [fragBufSize, Nat.mul_comm]
  exact Nat.mul_le_mul_left _ holds.total_le

theorem Holds.complete_perm (holds : r.Holds parts) (complete : r.complete = true) :
    (parts.map Frag.seq).Perm (List.range r.total) := by
  have count : r.storedCount = r.total := by
    rw [← holds.counted]
    simpa [Reasm.complete] using complete
  have whole : (List.range r.total).filter (fun i => decide (r.partLen i ≠ 0)) =
      List.range r.total := by
    apply List.filter_eq_self.mpr
    apply List.length_filter_eq_length_iff.mp
    rw [List.length_range]
    exact count
  have perm := holds.filter_perm
  rw [whole] at perm
  exact perm.symm

theorem Holds.parts_le (holds : r.Holds parts) : r.received ≤ r.length := by
  rw [holds.received, holds.bytes]
  have le := List.card_nsmul_le_sum (parts.map fun g => g.data.length) 1 (by
    intro len mem
    obtain ⟨g, member, rfl⟩ := List.mem_map.mp mem
    exact (holds.within g member).2)
  simpa using le

end Holds

section Checked

variable (r : Reasm)

def partLenChecked (i : Nat) : Option Nat := if i < fragMaxTotal then some (r.partLen i) else none

def offsetChecked : Nat → Option Nat
  | 0 => some 0
  | i + 1 => do
    let off ← offsetChecked i
    let len ← r.partLenChecked i
    some (off + len)

def copyChecked (off : Nat) (fdata : List Byte) : Option (Nat → Byte) :=
  if off + fdata.length ≤ fragBufSize then some (Buffer.put r.buf off fdata) else none

def storeChecked (seq : Nat) (fdata : List Byte) : Option Reasm :=
  if r.malformed seq fdata then some r.dropped
  else do
    let len ← r.partLenChecked seq
    if len ≠ 0 then some r
    else
      let off ← r.offsetChecked seq
      if off + fdata.length ≤ fragBufSize then
        let buf ← r.copyChecked off fdata
        some { r with
          buf := buf
          partLen := update r.partLen seq fdata.length
          received := r.received + 1 }
      else some r.dropped

def finishChecked (hdr : RxHdr) : Option (Reasm × Option RxCall) :=
  if r.complete then do
    let len ← r.offsetChecked r.total
    if len ≤ fragBufSize then
      some ({ r with active := false }, some ⟨hdr, Buffer.get r.buf 0 len⟩)
    else none
  else some (r, none)

theorem offsetChecked_inside {n : Nat} (inside : n ≤ fragMaxTotal) :
    r.offsetChecked n = some (r.offset n) := by
  induction n with
  | zero => rfl
  | succ n ih =>
    have sum : r.offset (n + 1) = r.offset n + r.partLen n := by
      simp [offset, List.range_succ]
    rw [offsetChecked, ih (by omega), partLenChecked, if_pos (by omega), sum]
    rfl

theorem storeChecked_inside (few : r.total ≤ fragMaxTotal) (seq : Nat) (fdata : List Byte) :
    r.storeChecked seq fdata = some (r.store seq fdata) := by
  unfold storeChecked store
  by_cases bad : r.malformed seq fdata = true
  · rw [if_pos bad, if_pos bad]
  have below : seq < fragMaxTotal := by
    simp only [malformed, Bool.or_eq_true, decide_eq_true_eq, not_or] at bad
    omega
  rw [if_neg bad, if_neg bad, partLenChecked, if_pos below, Option.bind_eq_bind, Option.bind_some]
  by_cases known : r.partLen seq ≠ 0
  · rw [if_pos known, if_pos known]
  rw [if_neg known, if_neg known, r.offsetChecked_inside (Nat.le_of_lt below), Option.bind_some]
  by_cases room : r.offset seq + fdata.length ≤ fragBufSize
  · rw [if_pos room, if_pos room, copyChecked, if_pos room]
    rfl
  · rw [if_neg room, if_neg room]

end Checked

theorem Holds.finishChecked {parts : List Frag} {r : Reasm} (holds : r.Holds parts) (hdr : RxHdr) :
    r.finishChecked hdr = some (r.finish hdr) := by
  unfold Reasm.finishChecked Reasm.finish
  by_cases complete : r.complete = true
  · rw [if_pos complete, if_pos complete, r.offsetChecked_inside holds.total_le]
    exact if_pos holds.length_le
  · rw [if_neg complete, if_neg complete]

end Reasm

open Buffer in
def halowLmacRxMcs10Checked (f : RxFrame) (r : Reasm) : Option (Reasm × Option RxCall) :=
  if f.payload.length < fragHdrSize then some (r, some ⟨f.hdr, f.payload⟩)
  else do
    let b₀ ← readAt f.payload 0
    let total := (b₀ >>> 4).toNat
    if total = 0 then some (r, some ⟨f.hdr, f.payload⟩)
    else if total > fragMaxTotal then some (r.dropped, none)
    else
      let seq := (b₀ &&& 0x0F#8).toNat
      let uuid ← readAt f.payload 1
      let fdata := f.payload.drop fragHdrSize
      if total = 1 then some (r, some ⟨f.hdr, fdata⟩)
      else
        let r ← (r.begun uuid total f.now).storeChecked seq fdata
        Reasm.finishChecked { r with lastTick := f.now } f.hdr

open Buffer in
def halowLmacRxChecked (cb : Bool) (f : LmacFrame) (r : Reasm) :
    Option (Int × Reasm × Option RxCall) :=
  if f.data.length < ieee80211HdrLen then some (-1, r, none)
  else do
    let fc₀ ← readAt f.data 0
    let fc₁ ← readAt f.data 1
    if (fc₀.setWidth 16 ||| fc₁.setWidth 16 <<< 8) &&& 0x000C#16 ≠ wlanFtypeData then
      some (-1, r, none)
    else if f.rx.payload.length = 0 ∨ cb = false then some (0, r, none)
    else if f.mcs = 10#8 then
      let out ← halowLmacRxMcs10Checked f.rx r
      some (0, out)
    else some (0, r, some ⟨f.rx.hdr, f.rx.payload⟩)

theorem halowLmacRxMcs10_checked {parts : List Frag} {r : Reasm} (holds : r.Holds parts)
    (f : RxFrame) : halowLmacRxMcs10Checked f r = some (halowLmacRxMcs10 f r) := by
  have size : fragHdrSize = 2 := rfl
  unfold halowLmacRxMcs10Checked halowLmacRxMcs10
  by_cases short : f.payload.length < fragHdrSize
  · rw [if_pos short, if_pos short]
  have read (k : Nat) (low : k < 2) :
      Buffer.readAt f.payload k = some (byteAt f.payload k) :=
    Buffer.readAt_inside (by omega) 0#8
  rw [if_neg short, if_neg short, read 0 (by omega), Option.bind_eq_bind, Option.bind_some]
  dsimp only
  by_cases none : (byteAt f.payload 0 >>> 4).toNat = 0
  · rw [if_pos none, if_pos none]
  by_cases many : (byteAt f.payload 0 >>> 4).toNat > fragMaxTotal
  · rw [if_neg none, if_neg none, if_pos many, if_pos many]
  rw [if_neg none, if_neg none, if_neg many, if_neg many, read 1 (by omega), Option.bind_some]
  by_cases one : (byteAt f.payload 0 >>> 4).toNat = 1
  · rw [if_pos one, if_pos one]
  · have fragment : f.fragment = some ⟨f.total, (byteAt f.payload 0 &&& 0x0F#8).toNat,
        byteAt f.payload 1, f.payload.drop fragHdrSize⟩ := by
      unfold RxFrame.fragment RxFrame.total
      exact if_pos (by omega)
    obtain ⟨several, few, -⟩ := rxMcs10_fragment fragment r
    have begun := (holds.begun f.now several few).1
    have gathered := (holds.gather f.now several few).1
    rw [if_neg one, if_neg one]
    refine (congrArg (Option.bind · _)
      (Reasm.storeChecked_inside _ begun.total_le _ _)).trans ?_
    exact gathered.finishChecked f.hdr

theorem halowLmacRx_checked {parts : List Frag} {r : Reasm} (holds : r.Holds parts) (cb : Bool)
    (f : LmacFrame) : halowLmacRxChecked cb f r = some (halowLmacRx cb f r) := by
  have size : ieee80211HdrLen = 24 := rfl
  unfold halowLmacRxChecked halowLmacRx
  by_cases short : f.data.length < ieee80211HdrLen
  · rw [if_pos short, if_pos short]
  have read (k : Nat) (low : k < 2) : Buffer.readAt f.data k = some (byteAt f.data k) :=
    Buffer.readAt_inside (by omega) 0#8
  rw [if_neg short, if_neg short, read 0 (by omega), read 1 (by omega),
    halowLmacRxMcs10_checked holds]
  simp only [Option.bind_eq_bind, Option.bind_some]
  rw [apply_ite some, apply_ite some, apply_ite some]
  rfl

structure Gathering where
  reasm : Reasm
  parts : List Frag

namespace Gathering

variable (cb : Bool)

def receive (x : Gathering) (f : LmacFrame) : Gathering where
  reasm := (halowLmacRx cb f x.reasm).2.1
  parts :=
    match f.fragment cb with
    | some g => x.reasm.partsWith g f.now x.parts
    | none => x.parts

def after (frames : List LmacFrame) : Gathering := frames.foldl (receive cb) ⟨bootReasm, []⟩

variable {cb} {x : Gathering} {f : LmacFrame} {g : Frag}

theorem receive_fragment (fragment : f.fragment cb = some g) :
    2 ≤ g.total ∧ g.total ≤ fragMaxTotal ∧
      halowLmacRx cb f x.reasm = (0, (x.reasm.gather g f.now).finish f.rx.hdr) ∧
      (x.receive cb f).parts = x.reasm.partsWith g f.now x.parts := by
  have mcs10 : f.isMcs10 cb = true := by
    by_contra other
    simp [LmacFrame.fragment, other] at fragment
  have inner : f.rx.fragment = some g := by simpa [LmacFrame.fragment, mcs10] using fragment
  obtain ⟨several, few, step⟩ := rxMcs10_fragment inner x.reasm
  refine ⟨several, few, ?_, ?_⟩
  · rw [lmacRx_mcs10 mcs10, step]
    rfl
  · simp only [receive, fragment]

theorem receive_holds (holds : x.reasm.Holds x.parts) (f : LmacFrame) :
    (x.receive cb f).reasm.Holds (x.receive cb f).parts := by
  cases fragment : f.fragment cb with
  | some g =>
    obtain ⟨several, few, step, parts⟩ := receive_fragment (x := x) fragment
    rw [parts]
    change (halowLmacRx cb f x.reasm).2.1.Holds _
    rw [step]
    exact (holds.gather f.now several few).1.finish
  | none =>
    simp only [receive, fragment]
    by_cases mcs10 : f.isMcs10 cb = true
    · rw [lmacRx_mcs10 mcs10]
      have inner : f.rx.fragment = none := by simpa [LmacFrame.fragment, mcs10] using fragment
      rcases rxMcs10_other inner x.reasm with same | same
      · rw [same]
        exact holds
      · rw [same]
        exact holds.dropped
    · rw [lmacRx_other (Bool.not_eq_true _ ▸ mcs10)]
      exact holds

theorem after_holds (cb : Bool) (frames : List LmacFrame) :
    (after cb frames).reasm.Holds (after cb frames).parts := by
  induction frames using List.reverseRecOn with
  | nil => exact Reasm.boot_holds
  | append_singleton frames f ih =>
    rw [after, List.foldl_append]
    exact receive_holds ih f

theorem reassembly_safe (cb : Bool) (frames : List LmacFrame) :
    (after cb frames).reasm.received = (after cb frames).reasm.storedCount ∧
    (after cb frames).reasm.received ≤ (after cb frames).reasm.total ∧
    (after cb frames).reasm.total ≤ 8 ∧
    (after cb frames).reasm.offset 8 ≤ 2400 ∧
    ∀ f : LmacFrame,
      halowLmacRxChecked cb f (after cb frames).reasm =
        some (halowLmacRx cb f (after cb frames).reasm) ∧
      ∀ (g : Frag) (call : RxCall), f.fragment cb = some g →
        (halowLmacRx cb f (after cb frames).reasm).2.2 = some call →
        2 ≤ call.data.length ∧ call.data.length ≤ 2400 ∧
        call.data.length =
          ((after cb (frames ++ [f])).parts.map fun g => g.data.length).sum ∧
        ((after cb (frames ++ [f])).parts.map Frag.seq).Perm
          (List.range (after cb (frames ++ [f])).reasm.total) := by
  have holds := after_holds cb frames
  refine ⟨holds.counted, holds.received_le, holds.total_le, holds.offset_le 8, ?_⟩
  intro f
  refine ⟨halowLmacRx_checked holds cb f, ?_⟩
  intro g call fragment called
  obtain ⟨several, few, step, parts⟩ := receive_fragment (x := after cb frames) fragment
  obtain ⟨gathered, two⟩ := holds.gather f.now several few
  have next : after cb (frames ++ [f]) = (after cb frames).receive cb f := by
    rw [after, List.foldl_append]
    rfl
  have state : ((after cb frames).receive cb f).reasm =
      (((after cb frames).reasm.gather g f.now).finish f.rx.hdr).1 := congrArg (·.2.1) step
  rw [step] at called
  rw [next, parts, state]
  unfold Reasm.finish at called ⊢
  split at called
  next complete =>
    cases called
    rw [if_pos complete]
    have count : ((after cb frames).reasm.gather g f.now).received =
        ((after cb frames).reasm.gather g f.now).total := by
      simpa [Reasm.complete] using complete
    have length : ((after cb frames).reasm.gather g f.now).output.length =
        ((after cb frames).reasm.gather g f.now).length := Buffer.get_length ..
    have most := gathered.parts_le
    rw [length, ← gathered.bytes]
    exact ⟨by omega, gathered.length_le, rfl, gathered.complete_perm complete⟩
  next => cases called

def dataFrame (payload : List Byte) : LmacFrame :=
  ⟨8#8 :: List.replicate 23 0#8 ++ payload, 10#8, 0#32⟩

theorem reassembly_safe_otherTotal :
    ((after true [dataFrame [0x20#8, 7#8, 1#8, 2#8], dataFrame [0x31#8, 7#8, 3#8]]).parts.map
      Frag.seq).Perm (List.range 2) := by
  have fragment : (dataFrame [0x31#8, 7#8, 3#8]).fragment true =
      some ⟨3, 1, 7#8, [3#8]⟩ := by decide +kernel
  have called : (halowLmacRx true (dataFrame [0x31#8, 7#8, 3#8])
      (after true [dataFrame [0x20#8, 7#8, 1#8, 2#8]]).reasm).2.2 =
      some ⟨⟨⟨0, 0, 0, 0, 0, 0⟩, ⟨0, 0, 0, 0, 0, 0⟩⟩, [1#8, 2#8, 3#8]⟩ := by decide +kernel
  have total : (after true [dataFrame [0x20#8, 7#8, 1#8, 2#8],
      dataFrame [0x31#8, 7#8, 3#8]]).reasm.total = 2 := by decide +kernel
  have safe := reassembly_safe true [dataFrame [0x20#8, 7#8, 1#8, 2#8]]
  have delivered := (safe.2.2.2.2 (dataFrame [0x31#8, 7#8, 3#8])).2 _ _ fragment called
  rw [← total]
  exact delivered.2.2.2

end Gathering

end RnodeHalow.Radio
