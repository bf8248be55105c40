import RnodeHalow.Ack.Transmit

set_option autoImplicit false

namespace RnodeHalow.Ack

open Resumption

variable {ρ : Type} [Platform ρ]

def dedupFid (p : AckPeer) (k : Nat) : BitVec 16 :=
  let fid := (p.dedup (Fin.ofNat 16 (p.dedupIdx.val + ackDedupWin - 1 - k))).setWidth 16
  if fid = 0 then 0xFFFF#16 else fid

def buildFids (cfg : Config) (p : AckPeer) : List (BitVec 16) :=
  let want := if cfg.ackFids > ackFidsMax then ackFidsMax else cfg.ackFids
  (List.range ackFidsMax).map fun k => if k < want then dedupFid p k else 0

def ackMcsFor (b : Body ρ) (dest : Mac) : Byte :=
  match peerFind b dest with
  | none => ackMcsMax
  | some i =>
    let c := (b.peers i).txMcs
    let c := if c = halowMcsDefault then dfltMcs b else c
    if c > ackMcsMax then ackMcsMax else c

def ackMcsForPeer (dest : Mac) : Prog (Node ρ) Byte := do
  lock
  let mcs ← sec (Sec.read fun b => ackMcsFor b dest)
  unlock
  pure mcs

def envAckBitmap (win : BitVec 64) : BitVec 64 :=
  (List.range seqWindow).foldl
    (fun bm k => if (win >>> (seqWindow - 1 - k)) &&& 1 ≠ 0 then bm ||| 1#64 <<< k else bm) 0

def envAckCapture (p : AckPeer) : Option (BitVec 16 × BitVec 64) :=
  if p.rxSeqSeen then
    some (p.rxSeqLast - BitVec.ofNat 16 (seqWindow - 1), envAckBitmap p.rxSeqWin)
  else none

def envAckFrame (evm : Byte) (base : BitVec 16) (bm : BitVec 64) : List Byte :=
  [ackMagic0, ackMagic1, BitVec.ofNat 8 (envVer <<< 4 ||| envTypeAck), evm, lo8 base, hi8 base]
    ++ (List.range 8).map fun k => (bm >>> (8 * k)).setWidth 8

def sendEnvAck (evm : Byte) (dest : Mac) (base : BitVec 16) (bm : BitVec 64) (ackMcs : Byte) :
    Code ρ Unit := do
  let r ← halowTxP (envAckFrame evm base bm) dest ackMcs 7#8
  modifyStats fun st =>
    if r = 0 then { st with acksSent := st.acksSent + 1, envTxAcks := st.envTxAcks + 1 }
    else { st with acksTxFail := st.acksTxFail + 1 }

def fidAckFrame (cfg : Config) (evm : Byte) (fids : List (BitVec 16)) : List Byte :=
  let nfids := if cfg.ackFids > ackFidsMax then ackFidsMax else cfg.ackFids
  let nfids := if nfids = 0 then 1 else nfids
  [ackMagic0, ackMagic1, if evm ≠ 0 then evm else 0x80#8]
    ++ (fids.take nfids).flatMap fun fid => [lo8 fid, hi8 fid]

def sendFidAck (evm : Byte) (dest : Mac) (fids : List (BitVec 16)) (ackMcs : Byte) :
    Code ρ Unit := do
  let cfg ← Sec.read (·.cfg)
  let r ← halowTxP (fidAckFrame cfg evm fids) dest ackMcs 7#8
  modifyStats fun st =>
    if r = 0 then { st with acksSent := st.acksSent + 1 }
    else { st with acksTxFail := st.acksTxFail + 1 }

def sendAck (evm : Byte) (dest : Mac) (fids : List (BitVec 16)) : Prog (Node ρ) Unit := do
  let ackMcs ← ackMcsForPeer dest
  sec (modifyStats fun st => { st with ackMcsLast := ackMcs })
  lock
  let env ← sec (Sec.read fun b => (peerFind b dest).bind fun i => envAckCapture (b.peers i))
  unlock
  match env with
  | some (base, bm) => sec (sendEnvAck evm dest base bm ackMcs)
  | none => sec (sendFidAck evm dest fids ackMcs)

def ewmaI8 (cur sample : Byte) (w : Int) : Byte :=
  BitVec.ofInt 8 ((cur.toInt * (w - 1) + sample.toInt).tdiv w)

def ackNotePeer (i : PeerIx) (ackEvm : Byte) : Code ρ Unit := do
  let maxRetries ← Sec.read (·.cfg.maxRetries)
  modifyPeer i fun p =>
    { p with
      curRetries := maxRetries
      evmEwma := ewmaI8 p.evmEwma ackEvm 8
      evmEwmaSlow := ewmaI8 p.evmEwmaSlow ackEvm 32 }
  raOnAck i

def bufAcked (j : BufIx) (buf : AckBuf) : Code ρ Unit := do
  let now ← nowJ
  let later ← nowJ
  rttRecord (now - buf.bornJiff) (later - buf.txJiff)
  Sec.when (buf.retriesUsed = 0) cwndOnCleanClear
  emit (.landed j)
  bufRelease j
  modifyStats fun st => { st with acked := st.acked + 1 }

def ackBitmap (payload : List Byte) : BitVec 64 :=
  (List.range 8).foldl
    (fun bm k => bm ||| (byteAt payload (6 + k)).setWidth 64 <<< (8 * k)) 0

def envAckCovers (base : BitVec 16) (bm : BitVec 64) (buf : AckBuf) : Bool :=
  let diff := (buf.seq - base).toNat
  buf.seq ≠ 0xFFFF#16 && decide (diff < seqWindow) && (bm >>> diff) &&& 1 ≠ 0

def rxEnvAckLocked (i : PeerIx) (payload : List Byte) : Code ρ Unit := do
  let ackEvm := byteAt payload 3
  modifyStats fun st =>
    { st with
      lastEvm := ackEvm
      acksRxFrames := st.acksRxFrames + 1
      envRxAcks := st.envRxAcks + 1 }
  ackNotePeer i ackEvm
  let base := le16 payload 4
  let bm := ackBitmap payload
  Sec.forEach allBufs fun j => do
    let p ← Sec.read (·.peers i)
    match ← Sec.read (·.bufs j) with
    | none => pure ()
    | some buf =>
      Sec.when (buf.state = .inflight ∧ macEq buf.destMac p.mac = true ∧
          envAckCovers base bm buf = true) do
        bufAcked j buf
        modifyPeer i fun p => { p with acked := p.acked + 1 }

def rxAckFid (src : Mac) (found : Option PeerIx) (ackFid : BitVec 16) : Code ρ Unit := do
  match ← Sec.read fun b => (bufMatch b src ackFid).bind fun j => (b.bufs j).map (j, ·) with
  | none => modifyStats fun st => { st with acksRxDup := st.acksRxDup + 1 }
  | some (j, buf) =>
    bufAcked j buf
    Sec.ifSome found fun i => modifyPeer i fun p => { p with acked := p.acked + 1 }

def rxAckLocked (payload : List Byte) (src : Mac) : Code ρ Unit := do
  let found ← Sec.read fun b => peerFind b src
  Sec.ifSome found fun i => ackNotePeer i (byteAt payload 2)
  let nfids := (payload.length - 3) / 2
  Sec.forEach (List.range (if nfids > ackFidsMax then ackFidsMax else nfids)) fun k =>
    Sec.when (le16 payload (3 + 2 * k) ≠ 0) <| rxAckFid src found (le16 payload (3 + 2 * k))

def rxAck (payload : List Byte) (src : Mac) : Prog (Node ρ) Unit := do
  sec (modifyStats fun st =>
    { st with lastEvm := byteAt payload 2, acksRxFrames := st.acksRxFrames + 1 })
  lock
  sec (rxAckLocked payload src)
  unlock

def walkSubs (payload : List Byte) : Nat → Nat → Option Nat
  | 0, off => some off
  | n + 1, off =>
    if off + 2 > payload.length then none
    else
      let sl := (le16 payload off).toNat
      if off + 2 + sl > payload.length then none else walkSubs payload n (off + 2 + sl)

def envBundleWalkOk (payload : List Byte) : Bool :=
  walkSubs payload (byteAt payload 5).toNat envBundleHdr = some payload.length

def isEnvAck (payload : List Byte) : Bool :=
  halowEnvVer payload = envVer && halowEnvType payload = envTypeAck && payload.length = envAckLen

def isEnvBundle (payload : List Byte) : Bool :=
  halowEnvVer payload = envVer && halowEnvType payload = envTypeBundle &&
    payload.length ≥ envBundleHdr + 2 && envBundleWalkOk payload

def seqRetrans (p : AckPeer) (seq : BitVec 16) : Bool :=
  let back := (p.rxSeqLast - seq).toNat
  p.rxSeqSeen && decide (back < seqWindow) && (p.rxSeqWin >>> back) &&& 1 ≠ 0

-- The bundle case of `rx_env`; the result says whether the frame is consumed.
def rxBundleLocked (payload : List Byte) (src : Mac) : Code ρ Bool := do
  let t ← Sec.self
  match ← Sec.read fun b => peerFind b src with
  | none =>
    emit (.heard t src none payload false)
    pure false
  | some i =>
    let seq := le16 payload 3
    let retrans ← Sec.read fun b => seqRetrans (b.peers i) seq
    modifyPeer i fun p => peerRxSeq (Platform.undefinedShl ρ) p seq
    emit (.heard t src (some i) payload retrans)
    modifyStats fun st => { st with envRxBundles := st.envRxBundles + 1 }
    Sec.when (retrans = true) <| modifyStats fun st => { st with acksRxDup := st.acksRxDup + 1 }
    pure retrans

def rxEnv (payload : List Byte) (src : Mac) : Prog (Node ρ) Bool := do
  if isEnvAck payload then
    lock
    sec do
      let found ← Sec.read fun b => peerFind b src
      Sec.ifSome found fun i => rxEnvAckLocked i payload
    unlock
    pure true
  else if isEnvBundle payload then
    lock
    let consumed ← sec (rxBundleLocked payload src)
    unlock
    pure consumed
  else
    sec (modifyStats fun st => { st with rxEnvUnk := st.rxEnvUnk + 1 })
    pure true

def ackDecideLocked (i : PeerIx) : Code ρ (Option (List (BitVec 16))) := do
  let cfg ← Sec.read (·.cfg)
  let p ← Sec.read (·.peers i)
  if cfg.ackHoldMs = 0 then
    modifyPeer i fun p => { p with rxSinceAck := 0, ackDue := false }
    pure (some (buildFids cfg p))
  else if p.rxSinceAck + 1 ≥ BitVec.ofNat 16 cfg.ackFids then
    modifyPeer i fun p => { p with rxSinceAck := 0, ackDue := false }
    pure (some (buildFids cfg p))
  else
    modifyPeer i fun p => { p with rxSinceAck := p.rxSinceAck + 1 }
    Sec.when (p.ackDue = false) do
      let now ← nowJ
      let hold ← Sec.read (·.cache.ackHoldJ)
      modifyPeer i fun p => { p with ackDue := true, ackDueJiff := now + hold }
    pure none

def rxPeer (src : Mac) (toMe : Bool) : Code ρ (Option PeerIx) :=
  if toMe then peerGet src else Sec.read fun b => peerFind b src

def rxDataLocked (hash : BitVec 32) (src : Mac) (toMe : Bool) (evm : Byte) :
    Code ρ (Bool × Option (List (BitVec 16))) := do
  match ← rxPeer src toMe with
  | none =>
    Sec.when (toMe = true) <| modifyStats fun st => { st with noackHits := st.noackHits + 1 }
    pure (true, none)
  | some i =>
    modifyPeer i fun p => { p with lastRxEvm := evm }
    if toMe then
      let deliver ← Sec.read fun b => !dedupSeen (b.peers i) hash
      Sec.when (deliver = true) <| modifyPeer i fun p => dedupRemember p hash
      let fids ← ackDecideLocked i
      pure (deliver, fids)
    else pure (true, none)

def isToMe : Option Mac → Bool
  | none => false
  | some dst => !isBroadcast dst

def noteDelivered (payload : List Byte) (src : Mac) : Code ρ Unit := do
  let t ← Sec.self
  emit (.delivered t src payload)

def rxDataNoted (payload : List Byte) (src : Mac) (dst : Option Mac) (evm : Byte) :
    Code ρ (Bool × Option (List (BitVec 16))) := do
  let r ← rxDataLocked (fnv1a payload) src (isToMe dst) evm
  Sec.when (r.1 = true) <| noteDelivered payload src
  pure r

def rxData (payload : List Byte) (src : Mac) (dst : Option Mac) (evm : Byte) :
    Prog (Node ρ) Bool := do
  lock
  let r ← sec (rxDataNoted payload src dst evm)
  unlock
  match r.2 with
  | none => pure r.1
  | some fids =>
    sendAck evm src fids
    pure r.1

def halowAckOnRx (payload : List Byte) (src : Mac) (dst : Option Mac) (evm : Byte) :
    Prog (Node ρ) Bool := do
  if isEnvFrame payload then
    let consumed ← rxEnv payload src
    if consumed then pure false else rxData payload src dst evm
  else if isAckFrame payload then
    rxAck payload src
    pure false
  else rxData payload src dst evm

end RnodeHalow.Ack
