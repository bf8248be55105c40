import RnodeHalow.Ack.Receive

set_option autoImplicit false

namespace RnodeHalow.Ack

open Resumption

variable {ρ : Type} [Platform ρ]

def bufDropDeadline (j : BufIx) (buf : AckBuf) : Code ρ Unit := do
  let found ← Sec.read fun b => peerFind b buf.destMac
  bufRelease j
  modifyStats fun st =>
    { st with dropped := st.dropped + 1, dropDeadline := st.dropDeadline + 1 }
  Sec.ifSome found fun i => do
    modifyPeer i fun p => { p with dropped := p.dropped + 1 }
    raOnDrop i

def bufBackoffJiffies (b : Body ρ) (buf : AckBuf) (timeoutJ : Jiffy) : Jiffy :=
  let ewma := b.stats.ackRttEwmaMs
  if buf.retriesUsed > 0 then
    timeoutJ <<< (if buf.retriesUsed > ackBackoffShiftMax then ackBackoffShiftMax
      else buf.retriesUsed)
  else if ewma = 0 then timeoutJ
  else
    let floorMs := ewma + ewma >>> 2 + 10
    let capMs := if b.cfg.timeoutMs * 4 < ewma * 2 then ewma * 2 else b.cfg.timeoutMs * 4
    let floorMs := if floorMs > capMs then capMs else floorMs
    if floorMs ≤ b.cfg.timeoutMs then timeoutJ
    else if msJ floorMs > timeoutJ then msJ floorMs else timeoutJ

-- `buf_retransmit_or_drop` before `buf_tx_send`: the rate to send at, if the slot is kept.
def retransmitPrep (j : BufIx) (now : Jiffy) : Code ρ (Option Byte) := do
  match ← Sec.read (·.bufs j) with
  | none =>
    emit .nullDeref
    pure none
  | some buf =>
    match ← Sec.read fun b => peerFind b buf.destMac with
    | none =>
      emit (.landed j)
      bufRelease j
      pure none
    | some i =>
      if buf.retriesUsed ≥ (← Sec.read (·.cfg.maxRetries)) then
        emit (.landed j)
        bufRelease j
        modifyStats fun st =>
          { st with dropped := st.dropped + 1, dropExhaust := st.dropExhaust + 1 }
        modifyPeer i fun p => { p with dropped := p.dropped + 1 }
        raOnDrop i
        pure none
      else
        let t ← Sec.self
        modifyBuf j fun buf => { buf with retriesUsed := buf.retriesUsed + 1, txJiff := now }
        emit (.txSampled t j)
        modifyStats fun st => { st with retransmitted := st.retransmitted + 1 }
        modifyPeer i fun p => { p with retransmitted := p.retransmitted + 1 }
        Sec.when (buf.retriesUsed = 0) cwndOnRetransTimeout
        raOnRetrans i
        let mcs ← Sec.read fun b => (b.peers i).txMcs
        pure (some mcs)

def bufRetransmitOrDrop (j : BufIx) (now : Jiffy) : Prog (Node ρ) Unit := do
  match ← sec (retransmitPrep j now) with
  | none => pure ()
  | some mcs => bufTxSend j mcs

def judgeBuf (now timeoutJ lifeJ : Jiffy) (j : BufIx) : Code ρ Bool := do
  match ← Sec.read (·.bufs j) with
  | none => pure false
  | some buf =>
    if buf.state ≠ .inflight then pure false
    else
      let t ← Sec.self
      if now - buf.bornJiff ≥ lifeJ then
        emit (.landed j)
        emit (.deadlineDropped t j lifeJ)
        bufDropDeadline j buf
        pure false
      else
        let backoff ← Sec.read fun b => bufBackoffJiffies b buf timeoutJ
        if now - buf.txJiff < backoff then pure false
        else
          let vacancy ← halowGetTxVacancy
          if vacancy < ackTxVacancyLow then pure false
          else
            emit (.retried t j backoff)
            pure true

def serviceTimes (b : Body ρ) : Jiffy × Jiffy :=
  let timeoutJ := msJ b.cfg.timeoutMs
  (if timeoutJ = 0 then 1 else timeoutJ, msJ (slotLifeMs b))

def tickServiceBufs (now : Jiffy) : Prog (Node ρ) Unit := do
  let times ← sec (Sec.read serviceTimes)
  forEach allBufs fun j => do
    let due ← sec (judgeBuf now times.1 times.2 j)
    Prog.when (due = true) <| bufRetransmitOrDrop j now

def holdDrop (now : Jiffy) (i : PeerIx) : Code ρ Unit := do
  let p ← Sec.read (·.peers i)
  Sec.when (now - p.aggFirstJiff ≥ msJ ackAggMaxHoldMs) do
    let n := BitVec.ofNat 32 p.aggNsub
    modifyStats fun st => { st with dropped := st.dropped + n, dropThrottle := st.dropThrottle + n }
    modifyPeer i fun p => { p with dropped := p.dropped + n }
    let t ← Sec.self
    let staged ← Sec.read fun b => p.aggIdx.bind b.bufs
    emit (.holdDropped t i p.aggNsub ((staged.elim [] (·.data)).take p.aggLen))
    aggReset i

def tickFlushHeldBundles (now : Jiffy) : Prog (Node ρ) Unit :=
  forEach allPeers fun i => do
    let p ← sec (Sec.read (·.peers i))
    Prog.when (p.inUse = true ∧ p.aggIdx.isSome = true) do
      let flushed ← aggFlushLocked i
      Prog.when (flushed = false) <| sec (holdDrop now i)

def reached (now due : Jiffy) : Bool := !(now - due).slt 0

def takeDeferred (now : Jiffy) (i : PeerIx) :
    Code ρ (Option (Byte × Mac × List (BitVec 16))) := do
  let cfg ← Sec.read (·.cfg)
  let p ← Sec.read (·.peers i)
  if p.inUse && p.ackDue && reached now p.ackDueJiff then
    modifyPeer i fun p => { p with ackDue := false, rxSinceAck := 0 }
    pure (some (p.lastRxEvm, p.mac, buildFids cfg p))
  else pure none

def flushDeferredAck (now : Jiffy) (i : PeerIx) : Prog (Node ρ) Unit := do
  match ← sec (takeDeferred now i) with
  | none => pure ()
  | some (evm, mac, fids) =>
    unlock
    sendAck evm mac fids
    lock

def tickFlushDeferredAcks (now : Jiffy) : Prog (Node ρ) Unit := do
  let cfg ← sec (Sec.read (·.cfg))
  Prog.when (cfg.ackHoldMs ≠ 0) <| forEach allPeers (flushDeferredAck now)

def sampleNow : Code ρ Jiffy := do
  let now ← nowJ
  let t ← Sec.self
  emit (.sampled t)
  pure now

def checkStalePeers : Code ρ Unit :=
  Sec.forEach allPeers fun i => do
    let p ← Sec.read (·.peers i)
    Sec.when (p.inUse = true) <| raCheckStale i

def halowAckTick : Prog (Node ρ) Unit := do
  sec (platform fun r => ((), Platform.halowTxVacancyWatchdog r))
  let cfg ← sec (Sec.read (·.cfg))
  Prog.when (cfg.maxRetries ≠ 0) do
    -- the time is sampled before the mutex is taken
    let now ← sec sampleNow
    sec dfltMcsRefresh
    lock
    tickServiceBufs now
    tickFlushHeldBundles now
    tickFlushDeferredAcks now
    sec checkStalePeers
    unlock

-- The static variables before `halow_ack_init` runs for the first time.
def blank (r : ρ) : Body ρ where
  cfg := ⟨0, 0, 0, 0, 0, 0, 0, 0, 0, 0, 0⟩
  stats := {}
  bufs := fun _ => none
  window := 0
  cwnd := 0
  peers := fun _ => AckPeer.zero
  usedN := 0
  inflightN := 0
  peersN := 0
  heapBytes := 0
  lastDataTxJiff := 0
  cache := ⟨0, 0, 0, 0, 0, 0, 0, 0⟩
  dfltMcsCache := 0xFF#8
  dfltMcsJiff := 0
  plat := r
  sender := fun _ => 0
  trace := []
  loaded := []
  downshifts := []
  looks := []

def halowAckInit (stored : Config) : Code ρ Unit := do
  Sec.modify fun b => { b with dfltMcsCache := 0xFF#8 }
  dfltMcsRefresh
  Sec.forEach allBufs fun j => do
    let held ← Sec.read (·.bufs j)
    Sec.when (held.isSome = true) <| bufRelease j
  let cfg := configClamp stored
  Sec.modify fun b =>
    { b with
      cfg := cfg
      bufs := fun _ => none
      peers := fun _ => AckPeer.zero
      stats := {}
      usedN := 0
      inflightN := 0
      peersN := 0
      heapBytes := 0
      window := cfg.window
      cwnd := if cfg.window > 4 then 4 else cfg.window }
  configCache
  let now ← nowJ
  Sec.modify fun b => { b with lastDataTxJiff := now - b.cache.busyJ }
  emit (.windowed cfg.window)

def boot (stored : Config) (r : ρ) : Node ρ where
  owner := none
  nested := 0
  misuse := 0
  active := 0
  body := (halowAckInit stored 0 (blank r)).2

-- The public entry points. A null `dst_mac` of `halow_ack_on_rx` is `none`.
inductive Call where
  | tx (payload : List Byte) (dest : Mac)
  | flush
  | onRx (payload : List Byte) (src : Mac) (dst : Option Mac) (evm : Byte)
  | tick
  | txReady
  | configApply (cfg : Config)

inductive Result where
  | code (r : Int)
  | flag (r : Bool)
  | void

def Call.prog : Call → Prog (Node ρ) Result
  | .tx payload dest => do
    let r ← halowAckTx payload dest
    pure (.code r)
  | .flush => do
    halowAckFlush
    pure .void
  | .onRx payload src dst evm => do
    let r ← halowAckOnRx payload src dst evm
    pure (.flag r)
  | .tick => do
    halowAckTick
    pure .void
  | .txReady => do
    let r ← halowAckTxReady
    pure (.flag r)
  | .configApply cfg => do
    halowAckConfigApply cfg
    pure .void

-- Time passes and the radio works while no thread of the layer runs.
def drift (b b' : Body ρ) : Prop :=
  ∃ r, Platform.jiffies b.plat ≤ Platform.jiffies r ∧ b' = { b with plat := r }

def allowed (t : Nat) (p : Prog (Node ρ) Result) : Prop :=
  ∃ call : Call, p = call.prog ∧ (call = .tick → t = 0)

abbrev Threads (ρ : Type) := Pool (Node ρ) Result

abbrev Threads.body {ρ : Type} (c : Threads ρ) : Body ρ := c.shared.body

def Reachable (c : Threads ρ) : Prop :=
  Pool.Reachable (lockedMachine drift) allowed (fun s => ∃ stored r, s = boot stored r) c

end RnodeHalow.Ack
