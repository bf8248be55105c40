import RnodeHalow.Ack.Config

set_option autoImplicit false

namespace RnodeHalow.Ack

open Resumption

variable {ρ : Type} [Platform ρ]

def writeAt (d : List Byte) (ofs : Nat) (bytes : List Byte) : List Byte :=
  d.take ofs ++ bytes ++ d.drop (ofs + bytes.length)

theorem writeAt_length (d : List Byte) (ofs : Nat) (bytes : List Byte)
    (fits : ofs + bytes.length ≤ d.length) : (writeAt d ofs bytes).length = d.length := by
  simp only [writeAt, List.length_append, List.length_take, List.length_drop]
  omega

def bufWrite (j : BufIx) (ofs : Nat) (bytes : List Byte) : Code ρ Unit := do
  match ← Sec.read (·.bufs j) with
  | none => emit .nullDeref
  | some buf =>
    if buf.data.length < ofs + bytes.length then emit .overrun
    else modifyBuf j fun buf => { buf with data := writeAt buf.data ofs bytes }

def frameFid (d : List Byte) : BitVec 16 :=
  let fid := (fnv1a d).setWidth 16
  if fid = 0 then 0xFFFF#16 else fid

def markSending (j : BufIx) : Code ρ Unit := do
  match ← Sec.read (·.bufs j) with
  | none => emit .nullDeref
  | some buf =>
    let t ← Sec.self
    Sec.modify fun b =>
      { b with
        inflightN := if buf.state = .staging then b.inflightN + 1 else b.inflightN
        bufs := Function.update b.bufs j (some { buf with state := .sending })
        sender := Function.update b.sender j t }

def sendOut (j : BufIx) (pmcs : Byte) : Code ρ Unit := do
  match ← Sec.read (·.bufs j) with
  | none => emit .nullDeref
  | some buf =>
    emit (.sent j)
    let _ ← halowTx ((buf.data.drop buf.ofs).take buf.len) buf.destMac pmcs
    let now ← nowJ
    Sec.modify fun b => { b with lastDataTxJiff := now }

def sendDone (j : BufIx) : Code ρ Unit := do
  match ← Sec.read (·.bufs j) with
  | none => emit .nullDeref
  | some buf =>
    Sec.when (buf.state = .sending) <|
      modifyBuf j fun buf => { buf with state := .inflight }

def bufTxSend (j : BufIx) (pmcs : Byte) : Prog (Node ρ) Unit := do
  sec (markSending j)
  unlock
  sec (sendOut j pmcs)
  lock
  sec (sendDone j)

def peerNoteTx (i : PeerIx) (wireBytes : Nat) : Code ρ Unit := do
  let s ← platform Platform.timeS
  modifyPeer i fun p =>
    { p with tx := p.tx + 1, txBytes := p.txBytes + BitVec.ofNat 32 wireBytes, lastTxS := s }

def aggClear (p : AckPeer) : AckPeer :=
  { p with aggIdx := none, aggLen := 0, aggNsub := 0, aggFirstJiff := 0 }

def releaseStaged : Option BufIx → Code ρ Unit
  | none => pure ()
  | some j => do
    let held ← Sec.read (·.bufs j)
    Sec.when (held.isSome = true) <| bufRelease j

def aggReset (i : PeerIx) : Code ρ Unit := do
  let p ← Sec.read (·.peers i)
  releaseStaged p.aggIdx
  modifyPeer i aggClear

def takeSeq (txSeq : BitVec 16) : BitVec 16 × BitVec 16 :=
  if txSeq = 0xFFFF#16 then (txSeq + 1, txSeq + 2) else (txSeq, txSeq + 1)

def bundleHdr (seq : BitVec 16) (nsub : Nat) : List Byte :=
  [ackMagic0, ackMagic1, BitVec.ofNat 8 (envVer <<< 4 ||| envTypeBundle), lo8 seq, hi8 seq,
    BitVec.ofNat 8 nsub]

inductive FlushStart where
  | nothing
  | blocked
  | sealed (j : BufIx) (pmcs : Byte)

def aggSealNow (i : PeerIx) (j : BufIx) : Code ρ FlushStart := do
  let p ← Sec.read (·.peers i)
  modifyPeer i aggClear
  let now ← nowJ
  emit (.txStamped j)
  let born ← nowJ
  emit (.born j)
  let seq := (takeSeq p.txSeq).1
  modifyPeer i fun p => { p with txSeq := (takeSeq p.txSeq).2 }
  bufWrite j 0 (bundleHdr seq p.aggNsub)
  modifyBuf j fun buf =>
    { buf with
      retriesUsed := 0
      txJiff := now
      bornJiff := born
      seq := seq
      ofs := 0
      len := p.aggLen
      fid := frameFid (buf.data.take p.aggLen) }
  peerNoteTx i p.aggLen
  modifyStats fun st => { st with envTxBundles := st.envTxBundles + 1 }
  let data ← Sec.read fun b => ((b.bufs j).elim [] (·.data)).take p.aggLen
  emit (.flushed i seq data)
  pure (.sealed j p.txMcs)

-- The part of `agg_flush_locked` before `buf_tx_send`.
def aggSeal (i : PeerIx) : Code ρ FlushStart := do
  match ← Sec.read fun b => (b.peers i).aggIdx with
  | none => pure .nothing
  | some j =>
    let vacancy ← halowGetTxVacancy
    if vacancy < ackTxVacancyLow then pure .blocked
    else if (← Sec.read (·.inflightN)) ≥ (← Sec.read effWindow) then pure .blocked
    else aggSealNow i j

def aggFlushLocked (i : PeerIx) : Prog (Node ρ) Bool := do
  match ← sec (aggSeal i) with
  | .nothing => pure true
  | .blocked => pure false
  | .sealed j pmcs =>
    bufTxSend j pmcs
    pure true

def sub32 (a b : Nat) : Nat := (a + 2 ^ 32 - b) % 2 ^ 32

def payloadSum (p : AckPeer) : Nat := sub32 (sub32 p.aggLen ackAggReserve) (2 * p.aggNsub)

def bundleFullFor (p : AckPeer) (sb : AckBuf) (len effPayload : Nat) : Bool :=
  let wireNow := p.aggLen + 2 + len
  payloadSum p + len > effPayload || wireNow > ackWireMax || wireNow > sb.cap ||
    p.aggNsub + 1 > aggMaxSub

def stagingAllocCap (effPayload : Nat) : Nat :=
  let cap := ackAggReserve + effPayload + 2 * aggMaxSub
  if cap > ackWireMax then ackWireMax else cap

def stagedFullFor (b : Body ρ) (i : PeerIx) (len effPayload : Nat) : Bool :=
  match (b.peers i).aggIdx with
  | none => false
  | some j => match b.bufs j with
    | none => false
    | some sb => bundleFullFor (b.peers i) sb len effPayload

def soloBlocked (b : Body ρ) : Bool :=
  b.cfg.agg = 0 && (b.inflightN ≥ effWindow b || ackBufN - b.usedN < 1)

def stageOpen (i : PeerIx) (len : Nat) (dest : Mac) (effPayload : Nat) : Code ρ Bool := do
  match ← Sec.read fun b => (b.peers i).aggIdx with
  | some _ => pure true
  | none =>
    let cap := stagingAllocCap effPayload
    let need := (ackAggReserve + 2 + len) % 2 ^ 16
    match ← bufAlloc .staging dest (if need > cap then need else cap) with
    | none => pure false
    | some j =>
      let now ← nowJ
      modifyPeer i fun p =>
        { p with aggIdx := some j, aggLen := ackAggReserve, aggNsub := 0, aggFirstJiff := now }
      emit (.stamped i)
      pure true

-- Append one sub-frame; the result says whether the bundle has to leave.
def stageAppend (i : PeerIx) (payload : List Byte) (effPayload : Nat) : Code ρ Bool := do
  let p ← Sec.read (·.peers i)
  match p.aggIdx with
  | none =>
    emit .nullDeref
    pure false
  | some j =>
    let len := BitVec.ofNat 16 payload.length
    bufWrite j p.aggLen [lo8 len, hi8 len]
    bufWrite j (p.aggLen + 2) payload
    modifyPeer i fun p =>
      { p with
        aggLen := (p.aggLen + 2 + payload.length) % 2 ^ 16
        aggNsub := (p.aggNsub + 1) % 2 ^ 8 }
    let t ← Sec.self
    emit (.appended t i payload)
    Sec.read fun b =>
      let p := b.peers i
      b.cfg.agg = 0 || p.aggNsub ≥ aggMaxSub ||
        p.aggLen + 2 > (b.bufs j).elim 0 (·.cap) || payloadSum p ≥ effPayload

def txBundleAppend (i : PeerIx) (payload : List Byte) (dest : Mac) (effPayload : Nat) :
    Prog (Node ρ) Int := do
  let staged ← sec (stageOpen i payload.length dest effPayload)
  if staged then
    let full ← sec (stageAppend i payload effPayload)
    Prog.when (full = true) do
      let _ ← aggFlushLocked i
    sec do
      let t ← Sec.self
      emit (.bundled t i payload)
    unlock
    pure 0
  else
    unlock
    pure txThrottle

def txBundleLocked (i : PeerIx) (payload : List Byte) (dest : Mac) (effPayload : Nat) :
    Prog (Node ρ) Int := do
  if payload.length = 0 then
    sec do
      modifyStats fun st => { st with dropped := st.dropped + 1 }
      modifyPeer i fun p => { p with dropped := p.dropped + 1 }
      emit (.rejected i)
    unlock
    pure 0
  else
    let blocked ← sec (Sec.read soloBlocked)
    if blocked then
      unlock
      pure txThrottle
    else
      let full ← sec (Sec.read fun b => stagedFullFor b i payload.length effPayload)
      if full then
        let _ ← aggFlushLocked i
        let still ← sec (Sec.read fun b => stagedFullFor b i payload.length effPayload)
        if still then
          unlock
          pure txThrottle
        else txBundleAppend i payload dest effPayload
      else txBundleAppend i payload dest effPayload

def plainClaim (i : PeerIx) (payload : List Byte) (dest : Mac) :
    Code ρ (Option BufIx) := do
  let vacancy ← halowGetTxVacancy
  if vacancy < ackTxVacancyLow then pure none
  else
    match ← bufClaimInflight dest payload.length with
    | none => pure none
    | some j =>
      let now ← nowJ
      emit (.txStamped j)
      bufWrite j 0 payload
      modifyBuf j fun buf =>
        { buf with txJiff := now, ofs := 0, len := payload.length, fid := frameFid payload }
      peerNoteTx i payload.length
      pure (some j)

def txPlainLocked (i : PeerIx) (payload : List Byte) (dest : Mac) (pmcs : Byte) :
    Prog (Node ρ) Int := do
  match ← sec (plainClaim i payload dest) with
  | none =>
    unlock
    pure txThrottle
  | some j =>
    bufTxSend j pmcs
    -- there is no `ack_unlock` on this path of the source
    pure 0

def txPlainUntracked (payload : List Byte) (dest : Mac) (mcs : Byte) : Code ρ Int := do
  let r ← halowTx payload dest mcs
  pure (if r < 0 then txThrottle else r)

def bcRepeatLoop (payload : List Byte) (dest : Mac) : Nat → Code ρ Unit
  | 0 => pure ()
  | n + 1 => do
    let vacancy ← halowGetTxVacancy
    Sec.when (¬ vacancy < payload.length + 64) do
      let r ← halowTx payload dest halowMcsDefault
      Sec.when (r ≥ 0) do
        modifyStats fun st =>
          { st with txFrames := st.txFrames + 1, bcRepeats := st.bcRepeats + 1 }
        bcRepeatLoop payload dest n

def txBroadcast (payload : List Byte) (dest : Mac) : Code ρ Int := do
  let bcRepeat ← Sec.read (·.cfg.bcRepeat)
  let copies := if isBroadcast dest && decide (bcRepeat > 1) then bcRepeat else 1
  let r ← halowTx payload dest halowMcsDefault
  if r ≥ 0 then
    bcRepeatLoop payload dest (copies - 1)
    pure 0
  else pure txThrottle

inductive Route where
  | untracked (mcs : Byte)
  | bundle (i : PeerIx) (effPayload : Nat)
  | plain (i : PeerIx) (pmcs : Byte)

-- The decision that `ack_tx_uc` takes with the mutex held.
def txRoute (len : Nat) (dest : Mac) : Code ρ Route := do
  match ← peerGet dest with
  | none => pure (.untracked halowMcsDefault)
  | some i =>
    let p ← Sec.read (·.peers i)
    if p.curRetries = 0 then pure (.untracked p.txMcs)
    else
      let effPayload ← Sec.read fun b => effAggBytes b p.txMcs
      let agg ← Sec.read (·.cfg.agg)
      if (agg ≠ 0 ∧ len ≤ effPayload) ∨ len + (envBundleHdr + 2) ≤ ackWireMax then
        modifyStats fun st => { st with dbgPathBundle := st.dbgPathBundle + 1 }
        pure (.bundle i effPayload)
      else
        modifyStats fun st => { st with dbgPathPlainl := st.dbgPathPlainl + 1 }
        pure (.plain i p.txMcs)

def noack (cfg : Config) (len : Nat) (dest : Mac) : Bool :=
  cfg.maxRetries = 0 || isBroadcast dest || len > ackWireMax

def ackTxUc (payload : List Byte) (dest : Mac) : Prog (Node ρ) Int := do
  let cfg ← sec (Sec.read (·.cfg))
  if noack cfg payload.length dest then
    sec do
      modifyStats fun st => { st with dbgPathBc := st.dbgPathBc + 1 }
      txBroadcast payload dest
  else
    lock
    match ← sec (txRoute payload.length dest) with
    | .untracked mcs =>
      unlock
      sec do
        modifyStats fun st => { st with dbgPathPlain := st.dbgPathPlain + 1 }
        txPlainUntracked payload dest mcs
    | .bundle i effPayload => txBundleLocked i payload dest effPayload
    | .plain i pmcs => txPlainLocked i payload dest pmcs

def txRegister (payload : List Byte) (dest : Mac) : Code ρ Unit := do
  modifyStats fun st => { st with dbgLastDest := dest }
  platform fun r => ((), Platform.statisticsRadioRegisterTxPackage payload.length r)

def halowAckTx (payload : List Byte) (dest : Mac) : Prog (Node ρ) Int := do
  sec (txRegister payload dest)
  let r ← ackTxUc payload dest
  sec (Sec.when (r = 0) <| modifyStats fun st => { st with txFrames := st.txFrames + 1 })
  pure r

def halowAckFlush : Prog (Node ρ) Unit := do
  lock
  forEach allPeers fun i => do
    let p ← sec (Sec.read (·.peers i))
    Prog.when (p.inUse = true ∧ p.aggIdx.isSome = true) do
      let _ ← aggFlushLocked i
  unlock

def halowAckTxReady : Prog (Node ρ) Bool := do
  let cfg ← sec (Sec.read (·.cfg))
  if cfg.maxRetries = 0 then pure true
  else
    let vacancy ← sec halowGetTxVacancy
    if vacancy < ackTxVacancyLow then pure false
    else
      lock
      let ok ← sec (Sec.read fun b =>
        decide (b.inflightN + 2 ≤ effWindow b) && decide (ackBufN - b.usedN ≥ 2))
      unlock
      pure ok

end RnodeHalow.Ack
