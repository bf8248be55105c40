import RnodeHalow.Ack.Tables

set_option autoImplicit false

namespace RnodeHalow.Ack

open Resumption

variable {ρ : Type} [Platform ρ]

def raFloor (b : Body ρ) : Byte := dfltMcs b

def raKickInflight (i : PeerIx) : Code ρ Unit := do
  let now ← nowJ
  let timeoutMs ← Sec.read (·.cfg.timeoutMs)
  let mac ← Sec.read fun b => (b.peers i).mac
  let due := now - msJ timeoutMs - 1
  Sec.forEach allBufs fun j => do
    match ← Sec.read (·.bufs j) with
    | none => pure ()
    | some buf =>
      Sec.when (buf.state = .inflight ∧ macEq buf.destMac mac = true) do
        modifyBuf j fun buf => { buf with txJiff := due }
        emit (.kicked j)

def raNoteCollapse (i : PeerIx) : Code ρ Unit := do
  let now ← nowJ
  modifyPeer i fun p =>
    let sameEpisode :=
      p.lastCollapseJiff ≠ 0 ∧ now - p.lastCollapseJiff < msJ raProbeCooldownMs
    let abandoned := p.txMcs + 1
    { p with
      failedTop := if ¬ sameEpisode ∨ abandoned > p.failedTop then abandoned else p.failedTop
      lastCollapseJiff := now }
  raKickInflight i

def raProbeCapped (i : PeerIx) (ceilMcs : Byte) : Code ρ Byte := do
  let p ← Sec.read (·.peers i)
  if p.failedTop = 0 ∨ p.lastCollapseJiff = 0 then pure ceilMcs
  else
    let now ← nowJ
    if now - p.lastCollapseJiff ≥ msJ raProbeCooldownMs then pure ceilMcs
    else
      let cap := p.failedTop - 1
      if ceilMcs > cap then
        modifyStats fun st => { st with raBlkProbe := st.raBlkProbe + 1 }
        pure cap
      else pure ceilMcs

-- What `halow_config_load` would return here.
def configuredMcs (b : Body ρ) : Byte := (Platform.halowConfigLoadMcs b.plat).1

def raDownStep (i : PeerIx) : Code ρ Unit := do
  let floorD ← Sec.read raFloor
  let p ← Sec.read (·.peers i)
  let configured ← Sec.read configuredMcs
  Sec.when (p.txMcs > floorD) do
    let now ← nowJ
    Sec.when (now ≥ p.nextStepAllowed) do
      let gap ← Sec.read (·.cache.stepGapJ)
      let later ← nowJ
      modifyPeer i fun p => { p with txMcs := p.txMcs - 1, nextStepAllowed := later + gap }
      Sec.modify fun b => { b with downshifts := ⟨i, p.txMcs, floorD, configured⟩ :: b.downshifts }
      modifyStats fun st => { st with raDownshifts := st.raDownshifts + 1 }
      raNoteCollapse i

def raUpStep (i : PeerIx) : Code ρ Unit := do
  let ceilMcs ← raProbeCapped i raMaxMcs
  let p ← Sec.read (·.peers i)
  let cache ← Sec.read (·.cache)
  let ready :=
    if p.txMcs + 1 ≥ ceilMcs then p.lossQ8 ≤ cache.raUpQ8 else p.lossQ8 ≤ cache.raDownQ8
  if ¬ ready then modifyStats fun st => { st with raBlockedLoss := st.raBlockedLoss + 1 }
  else if p.txMcs ≥ ceilMcs then
    modifyStats fun st => { st with raBlockedMax := st.raBlockedMax + 1 }
  else
    let now ← nowJ
    if now < p.nextStepAllowed then
      modifyStats fun st => { st with raBlockedGap := st.raBlockedGap + 1 }
    else
      let later ← nowJ
      modifyPeer i fun p =>
        { p with
          txMcs := p.txMcs + 1
          acksSinceStep := 0
          nextStepAllowed := later + cache.stepGapJ }
      modifyStats fun st => { st with raUpshifts := st.raUpshifts + 1 }

def raOnAck (i : PeerIx) : Code ρ Unit := do
  let now ← nowJ
  modifyPeer i fun p =>
    { p with lastAckJiff := now, lossQ8 := (p.lossQ8 * (raEwmaW - 1)) >>> 3 }
  let p ← Sec.read (·.peers i)
  let b ← Sec.read id
  Sec.when (b.cfg.rateAdapt ≠ 0 ∧ p.txMcs ≠ halowMcsDefault) do
    modifyStats fun st => { st with raAckCalls := st.raAckCalls + 1 }
    modifyPeer i fun p =>
      { p with acksSinceStep :=
          if p.acksSinceStep ≠ 0xFFFF#16 then p.acksSinceStep + 1 else p.acksSinceStep }
    if p.lossQ8 ≥ b.cache.raDownQ8 then raDownStep i else raUpStep i

def raInGrace (i : PeerIx) : Code ρ Bool := do
  let p ← Sec.read (·.peers i)
  if p.createdJiff = 0 then pure false
  else
    let now ← nowJ
    pure (decide (now - p.createdJiff < msJ raGraceMs))

def raOnRetrans (i : PeerIx) : Code ρ Unit := do
  let grace ← raInGrace i
  Sec.when (grace = false) <| modifyPeer i fun p =>
    let q := p.lossQ8 + raRetransStepQ8
    { p with lossQ8 := if q > 255 then 255 else q }

def raOnDrop (i : PeerIx) : Code ρ Unit := do
  let grace ← raInGrace i
  Sec.when (grace = false) do
    modifyPeer i fun p =>
      { p with
        lossQ8 := ((p.lossQ8 * (raEwmaW - 1)) >>> 3) + 256 / raEwmaW
        acksSinceStep := 0 }
    let p ← Sec.read (·.peers i)
    let b ← Sec.read id
    Sec.when (b.cfg.rateAdapt ≠ 0 ∧ p.txMcs ≠ halowMcsDefault ∧ p.lossQ8 ≥ b.cache.raDownQ8) <|
      raDownStep i

def raCheckStale (i : PeerIx) : Code ρ Unit := do
  let stale ← peerRateStale i
  Sec.when (stale = true) do
    let initMcs ← peerInitMcs
    let now ← nowJ
    modifyPeer i fun p =>
      { p with
        txMcs := initMcs
        lossQ8 := 0
        acksSinceStep := 0
        nextStepAllowed := now + msJ raCooldownMs
        failedTop := 0
        lastCollapseJiff := 0 }

def rttRecord (bornRtt lasttxRtt : Jiffy) : Code ρ Unit :=
  modifyStats fun st =>
    let st := if st.ackRttHits ≥ 1000000#32 then
      { st with ackRttSumMs := st.ackRttSumMs / 2, ackRttHits := st.ackRttHits / 2 } else st
    let born := if bornRtt > 10000#32 then 10000#32 else bornRtt
    let lasttx := if lasttxRtt > 1000#32 then 1000 else lasttxRtt.toNat
    { st with
      ackRttHits := st.ackRttHits + 1
      ackRttSumMs := st.ackRttSumMs + born
      ackRttEwmaMs :=
        if st.ackRttEwmaMs = 0 then lasttx else (st.ackRttEwmaMs * 3 + lasttx) / 4 }

end RnodeHalow.Ack
