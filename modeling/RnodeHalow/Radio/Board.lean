import RnodeHalow.Ack.State

set_option autoImplicit false

-- What the operating system and the LMAC do is given by `fates`, one for each call into them.

namespace RnodeHalow.Radio

def txBufferSize : Nat := 1460 * 20
def fragHdrSize : Nat := 2
def fragMaxPayload : Nat := 300
def fragMaxTotal : Nat := 8
def txBlockIters : Nat := 100
def mcsDefault : Byte := 0xFF#8

def ieee80211HdrLen : Nat := 24

def maxMsdu : Fin 4 → List Nat
  | 0 => [700, 1450, 2200, 3000, 4500, 6050, 6800, 7600]
  | 1 => [1600, 3200, 4900, 6500, 8192, 8192, 8192, 8192]
  | 2 => [3400, 6800, 8192, 8192, 8192, 8192, 8192, 8192]
  | 3 => [7400, 8192, 8192, 8192, 8192, 8192, 8192, 8192]

def bwIndex (bw : Byte) : Fin 4 := if bw ≥ 8 then 3 else if bw ≥ 4 then 2 else if bw ≥ 2 then 1 else 0

structure Fate where
  -- jiffies that pass
  elapsed : Nat
  -- bytes of the frames that are completed meanwhile
  refund : Nat
  -- what `os_malloc` returns
  heap : Option Ack.HeapBlock
  -- whether `alloc_tx_skb` succeeds
  skb : Bool
  semaDown : Int
  lmacTx : Int
  -- whether the watchdog finds a leaked budget
  leak : Bool
  seconds : BitVec 32

structure AirFrame where
  payload : List Byte
  dest : Mac
  mcs : Byte
  tid : Byte
  seqCtrl : BitVec 16
  deriving DecidableEq, Repr

structure TxDbg where
  txDropAlloc : BitVec 32 := 0
  txDropBudget : BitVec 32 := 0
  txDropLmac : BitVec 32 := 0
  txDropOversize : BitVec 32 := 0
  txMcsBump : BitVec 32 := 0

structure Board where
  fates : Nat → Fate
  calls : Nat
  jiffies : Nat
  -- `g_ops != NULL`
  opsReady : Bool
  vacatedBytes : Nat
  mayBlock : Bool
  seq : BitVec 16
  fragUuid : Byte
  dbg : TxDbg
  -- MCS and bandwidth in the configuration database
  cfg : Byte × Byte
  cfgCache : Option (Byte × Byte)
  ackConfig : Ack.Config
  txPackages : Nat
  txBytes : Nat
  air : List AirFrame

namespace Board

def fate (b : Board) : Fate := b.fates b.calls

-- One call into the system: time passes and completed frames give their bytes back.
def advance (b : Board) : Board :=
  { b with
    calls := b.calls + 1
    jiffies := b.jiffies + b.fate.elapsed
    vacatedBytes := min (b.vacatedBytes + b.fate.refund) txBufferSize }

def modifyDbg (b : Board) (f : TxDbg → TxDbg) : Board := { b with dbg := f b.dbg }

def txSkbBudgetRefund (len : Nat) (b : Board) : Board :=
  { b with vacatedBytes := min (b.vacatedBytes + len) txBufferSize }

def txBudgetTake (len : Nat) (b : Board) : Bool × Board :=
  if b.vacatedBytes ≥ len then (true, { b with vacatedBytes := b.vacatedBytes - len })
  else (false, b)

def txBudgetWaitLoop (len : Nat) : Nat → Board → Bool × Board
  | 0, b => (false, b)
  | n + 1, b =>
    if b.fate.semaDown = 0 ∧ (b.advance.txBudgetTake len).1 = true then b.advance.txBudgetTake len
    else txBudgetWaitLoop len n b.advance

def txBudgetWait (len : Nat) (b : Board) : Bool × Board :=
  if !b.mayBlock then (false, b) else txBudgetWaitLoop len txBlockIters b

def txBudget (len : Nat) (b : Board) : Bool × Board :=
  if (b.txBudgetTake len).1 then b.txBudgetTake len else b.txBudgetWait len

def lmacTx (frame : AirFrame) (len : Nat) (b : Board) : Int × Board :=
  if b.fate.lmacTx ≠ 0 then
    (b.fate.lmacTx, (b.advance.txSkbBudgetRefund len).modifyDbg fun d =>
      { d with txDropLmac := d.txDropLmac + 1 })
  else (0, { b.advance with air := frame :: b.advance.air })

def halowSendFrame (payload : List Byte) (dest : Mac) (mcs tid : Byte) (b : Board) : Int × Board :=
  let b := { b with seq := b.seq + 1 }
  let len := ieee80211HdrLen + payload.length
  if !b.fate.skb then
    (-5, b.advance.modifyDbg fun d => { d with txDropAlloc := d.txDropAlloc + 1 })
  else
    let taken := b.advance.txBudget len
    if taken.1 then lmacTx ⟨payload, dest, mcs, tid &&& 7, (b.seq &&& 0x0fff) <<< 4⟩ len taken.2
    else (-6, taken.2.modifyDbg fun d => { d with txDropBudget := d.txDropBudget + 1 })

def fragLoop (dest : Mac) (mcs tid uuid : Byte) (n : Nat) :
    Nat → Nat → List Byte → Board → Int × Board
  | 0, _, _, b => (0, b)
  | k + 1, i, rest, b =>
    let frag := BitVec.ofNat 8 (n <<< 4 ||| i) :: uuid :: rest.take fragMaxPayload
    let sent := halowSendFrame frag dest mcs tid b
    if sent.1 ≠ 0 then sent
    else fragLoop dest mcs tid uuid n k (i + 1) (rest.drop fragMaxPayload) sent.2

def halowTxMcs10Frag (data : List Byte) (dest : Mac) (mcs tid : Byte) (b : Board) : Int × Board :=
  if data.length > fragMaxPayload * fragMaxTotal then
    (-4, b.modifyDbg fun d => { d with txDropAlloc := d.txDropAlloc + 1 })
  else
    let b := { b with fragUuid := b.fragUuid + 1 }
    if data.length ≤ fragMaxPayload then
      halowSendFrame (BitVec.ofNat 8 (1 <<< 4) :: b.fragUuid :: data) dest mcs tid b
    else
      let n := (data.length + fragMaxPayload - 1) / fragMaxPayload
      fragLoop dest mcs tid b.fragUuid n n 0 data b

def cfgMcsBwRefresh (b : Board) : Board := { b with cfgCache := some b.cfg }

def cfgMcsBw (b : Board) : Byte × Byte := b.cfgCache.getD b.cfg

def cfgMcsBwCached (b : Board) : (Byte × Byte) × Board :=
  (b.cfgMcsBw, if b.cfgCache.isSome then b else b.cfgMcsBwRefresh)

def msduFits (b : Board) (m len : Nat) : Bool :=
  len + 32 ≤ (maxMsdu (bwIndex b.cfgMcsBw.2)).getD m 0

def mcsBump (b : Board) (len : Nat) : List Nat → Byte × Board
  | [] => (mcsDefault, b)
  | m :: rest =>
    if b.msduFits m len then
      (BitVec.ofNat 8 m, b.modifyDbg fun d => { d with txMcsBump := d.txMcsBump + 1 })
    else mcsBump b len rest

def mcsFitLen (mcs : Byte) (len : Nat) (b : Board) : Byte × Board :=
  let b := b.cfgMcsBwCached.2
  if b.msduFits mcs.toNat len then (mcs, b)
  else mcsBump b len ((List.range 8).drop (mcs.toNat + 1))

def resolveMcs (mcs : Byte) (b : Board) : Byte × Board :=
  if mcs = mcsDefault ∨ mcs > 7 ∧ mcs ≠ 10 then (b.cfgMcsBwCached.1.1, b.cfgMcsBwCached.2)
  else (mcs, b)

def halowTxP (data : List Byte) (dest : Mac) (mcs tid : Byte) (b : Board) : Int × Board :=
  if !b.opsReady then (-1, b)
  else if data.length = 0 then (-3, b)
  else if data.length > txBufferSize then (-4, b)
  else
    let rate := resolveMcs mcs b
    if rate.1 = 10 then halowTxMcs10Frag data dest rate.1 tid rate.2
    else
      let fit := mcsFitLen rate.1 data.length rate.2
      if fit.1 = mcsDefault then
        (-4, fit.2.modifyDbg fun d => { d with txDropOversize := d.txDropOversize + 1 })
      else halowSendFrame data dest fit.1 tid fit.2

def halowTxVacancyWatchdog (b : Board) : Board :=
  if b.fate.leak then { b.advance with vacatedBytes := txBufferSize } else b.advance

structure Frame (b b' : Board) : Prop where
  jiffies : b.jiffies ≤ b'.jiffies
  fates : b'.fates = b.fates
  opsReady : b'.opsReady = b.opsReady
  cfgMcsBw : b'.cfgMcsBw = b.cfgMcsBw

namespace Frame

theorem refl (b : Board) : Frame b b := ⟨Nat.le_refl _, rfl, rfl, rfl⟩

theorem trans {a b c : Board} (first : Frame a b) (second : Frame b c) : Frame a c :=
  ⟨Nat.le_trans first.jiffies second.jiffies, second.fates.trans first.fates,
    second.opsReady.trans first.opsReady, second.cfgMcsBw.trans first.cfgMcsBw⟩

end Frame

variable (len : Nat) (b : Board)

theorem advance_frame : Frame b b.advance := ⟨Nat.le_add_right _ _, rfl, rfl, rfl⟩

theorem Frame.counted {α : Type} {r : α} {b b' : Board} (frame : Frame b b')
    (f : TxDbg → TxDbg) : Frame b (r, b'.modifyDbg f).2 :=
  ⟨frame.jiffies, frame.fates, frame.opsReady, frame.cfgMcsBw⟩

theorem txBudgetTake_frame : Frame b (b.txBudgetTake len).2 := by
  unfold txBudgetTake
  split
  · exact ⟨Nat.le_refl _, rfl, rfl, rfl⟩
  · exact .refl b

theorem txBudgetWaitLoop_frame (n : Nat) (b : Board) : Frame b (b.txBudgetWaitLoop len n).2 := by
  induction n generalizing b with
  | zero => exact .refl b
  | succ n ih =>
    simp only [txBudgetWaitLoop]
    split
    · exact b.advance_frame.trans (txBudgetTake_frame len _)
    · exact b.advance_frame.trans (ih _)

theorem txBudget_frame : Frame b (b.txBudget len).2 := by
  unfold txBudget txBudgetWait
  split
  · exact txBudgetTake_frame len b
  · split
    · exact .refl b
    · exact txBudgetWaitLoop_frame len _ b

theorem lmacTx_frame (frame : AirFrame) (len : Nat) (b : Board) :
    Frame b (b.lmacTx frame len).2 := by
  unfold lmacTx
  split <;> exact ⟨Nat.le_add_right _ _, rfl, rfl, rfl⟩

theorem halowSendFrame_frame (payload : List Byte) (dest : Mac) (mcs tid : Byte) (b : Board) :
    Frame b (b.halowSendFrame payload dest mcs tid).2 := by
  have counted : Frame b { b with seq := b.seq + 1 } := ⟨Nat.le_refl _, rfl, rfl, rfl⟩
  refine counted.trans ?_
  simp only [halowSendFrame]
  generalize ({ b with seq := b.seq + 1 } : Board) = b
  split
  · exact b.advance_frame.counted _
  · have taken := b.advance_frame.trans (txBudget_frame (ieee80211HdrLen + payload.length) b.advance)
    split
    · exact taken.trans (lmacTx_frame _ _ _)
    · exact taken.counted _

theorem fragLoop_frame (dest : Mac) (mcs tid uuid : Byte) (n k i : Nat) (rest : List Byte)
    (b : Board) : Frame b (fragLoop dest mcs tid uuid n k i rest b).2 := by
  induction k generalizing i rest b with
  | zero => exact .refl b
  | succ k ih =>
    simp only [fragLoop]
    split
    · exact halowSendFrame_frame _ _ _ _ b
    · exact (halowSendFrame_frame _ _ _ _ b).trans (ih _ _ _)

theorem halowTxMcs10Frag_frame (data : List Byte) (dest : Mac) (mcs tid : Byte) (b : Board) :
    Frame b (b.halowTxMcs10Frag data dest mcs tid).2 := by
  have named : Frame b { b with fragUuid := b.fragUuid + 1 } := ⟨Nat.le_refl _, rfl, rfl, rfl⟩
  simp only [halowTxMcs10Frag]
  split
  · exact (Frame.refl b).counted _
  · split
    · exact named.trans (halowSendFrame_frame _ _ _ _ _)
    · exact named.trans (fragLoop_frame _ _ _ _ _ _ _ _ _)

theorem cfgMcsBwCached_frame : Frame b b.cfgMcsBwCached.2 := by
  unfold cfgMcsBwCached
  dsimp only
  split
  · exact .refl b
  · rename_i missing
    have none : b.cfgCache = none := by simpa using missing
    exact ⟨Nat.le_refl _, rfl, rfl, by simp [cfgMcsBw, cfgMcsBwRefresh, none]⟩

theorem resolveMcs_frame (mcs : Byte) (b : Board) : Frame b (b.resolveMcs mcs).2 := by
  unfold resolveMcs
  split
  · exact cfgMcsBwCached_frame b
  · exact .refl b

theorem mcsBump_frame (rates : List Nat) (b : Board) : Frame b (b.mcsBump len rates).2 := by
  induction rates with
  | nil => exact .refl b
  | cons m rest ih =>
    simp only [mcsBump]
    split
    · exact (Frame.refl b).counted _
    · exact ih

theorem mcsFitLen_frame (mcs : Byte) (len : Nat) (b : Board) : Frame b (b.mcsFitLen mcs len).2 := by
  refine (cfgMcsBwCached_frame b).trans ?_
  simp only [mcsFitLen]
  split
  · exact .refl _
  · exact mcsBump_frame _ _ _

theorem halowTxP_frame (data : List Byte) (dest : Mac) (mcs tid : Byte) (b : Board) :
    Frame b (b.halowTxP data dest mcs tid).2 := by
  have rate := resolveMcs_frame mcs b
  simp only [halowTxP]
  split
  · exact .refl b
  · split
    · exact .refl b
    · split
      · exact .refl b
      · split
        · exact rate.trans (halowTxMcs10Frag_frame _ _ _ _ _)
        · have fit := rate.trans (mcsFitLen_frame (b.resolveMcs mcs).1 data.length _)
          split
          · exact fit.counted _
          · exact fit.trans (halowSendFrame_frame _ _ _ _ _)

theorem watchdog_le : b.jiffies ≤ b.halowTxVacancyWatchdog.jiffies := by
  unfold halowTxVacancyWatchdog
  split <;> exact Nat.le_add_right _ _

instance : Ack.Platform Board where
  jiffies b := b.jiffies
  elapse := advance
  osMalloc _ b := (b.fate.heap, b.advance)
  osFree := advance
  halowTxP := halowTxP
  halowGetTxVacancy b := (b.vacatedBytes, b)
  halowTxVacancyWatchdog := halowTxVacancyWatchdog
  halowConfigLoadMcs b := (b.cfg.1, b.advance)
  timeS b := (b.fate.seconds, b.advance)
  halowAckConfigSave cfg b := { b.advance with ackConfig := cfg }
  statisticsRadioRegisterTxPackage len b :=
    { b.advance with txPackages := b.txPackages + 1, txBytes := b.txBytes + len }
  undefinedShl _ := 0
  elapse_le b := b.advance_frame.jiffies
  osMalloc_le _ b := b.advance_frame.jiffies
  osFree_le b := b.advance_frame.jiffies
  halowTxP_le data dest mcs tid b := (halowTxP_frame data dest mcs tid b).jiffies
  halowGetTxVacancy_le _ := Nat.le_refl _
  halowTxVacancyWatchdog_le := watchdog_le
  halowConfigLoadMcs_le b := b.advance_frame.jiffies
  timeS_le b := b.advance_frame.jiffies
  halowAckConfigSave_le _ b := b.advance_frame.jiffies
  statisticsRadioRegisterTxPackage_le _ b := b.advance_frame.jiffies

def quietFate : Fate where
  elapsed := 0
  refund := 0
  heap := some ⟨fun _ => 0, 0, 0⟩
  skb := true
  semaDown := 1
  lmacTx := 0
  leak := false
  seconds := 0

def quiet (mcs bw : Byte) : Board where
  fates := fun _ => quietFate
  calls := 0
  jiffies := 100000
  opsReady := true
  vacatedBytes := txBufferSize
  mayBlock := false
  seq := 0
  fragUuid := 0
  dbg := {}
  cfg := (mcs, bw)
  cfgCache := none
  ackConfig := ⟨0, 0, 0, 0, 0, 0, 0, 0, 0, 0, 0⟩
  txPackages := 0
  txBytes := 0
  air := []

end Board

end RnodeHalow.Radio
