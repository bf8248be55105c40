import RnodeHalow.Ack.State

set_option autoImplicit false

namespace RnodeHalow.Ack

open Resumption
open Function (update)

variable {ρ : Type} [Platform ρ]

def emit (e : Event) : Code ρ Unit :=
  Sec.modify fun b => { b with trace := (Platform.jiffies b.plat, e) :: b.trace }

-- The history grew by events with `P`.
def Grown (P : Event → Prop) (older trace : History) : Prop :=
  ∃ new, trace = new ++ older ∧ ∀ e ∈ new, P e.2

namespace Grown

variable {P Q : Event → Prop} {a b c : History} {e : Event}

theorem refl (a : History) : Grown P a a := ⟨[], rfl, by simp⟩

theorem trans (first : Grown P a b) (second : Grown P b c) : Grown P a c := by
  obtain ⟨early, rfl, kept⟩ := first
  obtain ⟨late, rfl, kept'⟩ := second
  refine ⟨late ++ early, (List.append_assoc ..).symm, fun e new => ?_⟩
  exact (List.mem_append.mp new).elim (kept' e) (kept e)

theorem one (ok : P e) (τ : Nat) (a : History) : Grown P a ((τ, e) :: a) :=
  ⟨[(τ, e)], rfl, by simpa using ok⟩

theorem cons {τ : Nat} (ok : P e) (grown : Grown P a b) : Grown P a ((τ, e) :: b) :=
  grown.trans (.one ok τ b)

theorem mono (weaker : ∀ e, P e → Q e) (grown : Grown P a b) : Grown Q a b := by
  obtain ⟨new, eq, all⟩ := grown
  exact ⟨new, eq, fun e member => weaker e.2 (all e member)⟩

end Grown

def modifyStats (f : Stats → Stats) : Code ρ Unit :=
  Sec.modify fun b => { b with stats := f b.stats }

def modifyPeer (i : PeerIx) (f : AckPeer → AckPeer) : Code ρ Unit :=
  Sec.modify fun b => { b with peers := update b.peers i (f (b.peers i)) }

theorem entry_rel {R : AckPeer → AckPeer → Prop} (refl : ∀ p, R p p) {peers : PeerIx → AckPeer}
    {i : PeerIx} {p : AckPeer} (own : R (peers i) p) (k : PeerIx) :
    R (peers k) (update peers i p k) :=
  (Function.forall_update_iff peers fun k q => R (peers k) q).mpr ⟨own, fun _ _ => refl _⟩ k

def modifyBuf (j : BufIx) (f : AckBuf → AckBuf) : Code ρ Unit :=
  Sec.modify fun b => { b with bufs := update b.bufs j ((b.bufs j).map f) }

def platform {α : Type} (op : ρ → α × ρ) : Code ρ α :=
  fun _ b => ((op b.plat).1, { b with plat := (op b.plat).2 })

def nowJ : Code ρ Jiffy :=
  platform fun r => (BitVec.ofNat 32 (Platform.jiffies (Platform.elapse r)), Platform.elapse r)

def halowGetTxVacancy : Code ρ Nat := platform Platform.halowGetTxVacancy

def halowTxP (data : List Byte) (dest : Mac) (mcs tid : Byte) : Code ρ Int := do
  emit (.txP data dest mcs tid)
  platform (Platform.halowTxP data dest mcs tid)

def halowTx (data : List Byte) (dest : Mac) (mcs : Byte) : Code ρ Int :=
  halowTxP data dest mcs 0#8

def allBufs : List BufIx := List.finRange 16

def allPeers : List PeerIx := List.finRange 16

def sizeofAckBuf : Nat := 28

def bufAllocSz (cap : Nat) : Nat := sizeofAckBuf + cap

def freeSlot (b : Body ρ) : Option BufIx := allBufs.find? fun j => (b.bufs j).isNone

def freshBuf (blk : HeapBlock) (state : BufState) (j : BufIx) (mac : Mac) (cap : Nat)
    (now : Jiffy) : AckBuf where
  state := state
  retriesUsed := 0
  ofs := 0
  idx := j
  len := 0
  cap := cap
  fid := blk.fid
  seq := 0xFFFF#16
  destMac := mac
  bornJiff := now
  txJiff := blk.txJiff
  data := (List.range cap).map blk.data

def bufAlloc (state : BufState) (mac : Mac) (cap : Nat) : Code ρ (Option BufIx) := do
  match ← Sec.read freeSlot with
  | none => pure none
  | some j =>
    match ← platform (Platform.osMalloc (bufAllocSz cap)) with
    | none =>
      modifyStats fun st => { st with heapFail := st.heapFail + 1 }
      pure none
    | some blk =>
      let now ← nowJ
      Sec.modify fun b =>
        { b with
          bufs := update b.bufs j (some (freshBuf blk state j mac cap now))
          usedN := b.usedN + 1
          heapBytes := b.heapBytes + bufAllocSz cap
          inflightN := if state = .inflight then b.inflightN + 1 else b.inflightN }
      emit (.born j)
      pure (some j)

def bufRelease (j : BufIx) : Code ρ Unit := do
  match ← Sec.read (·.bufs j) with
  | none => emit .nullDeref
  | some buf =>
    Sec.modify fun b =>
      { b with
        inflightN := if buf.state = .staging then b.inflightN else b.inflightN - 1
        heapBytes := b.heapBytes - bufAllocSz buf.cap
        bufs := update b.bufs buf.idx none
        usedN := b.usedN - 1 }
    platform fun r => ((), Platform.osFree r)

def effWindow (b : Body ρ) : Nat := if b.cwnd < b.window then b.cwnd else b.window

def bufClaimInflight (mac : Mac) (wireLen : Nat) : Code ρ (Option BufIx) := do
  if (← Sec.read (·.inflightN)) ≥ (← Sec.read effWindow) then pure none
  else bufAlloc .inflight mac wireLen

def cwndOnCleanClear : Code ρ Unit :=
  Sec.modify fun b => { b with cwnd := if b.cwnd < b.window then b.cwnd + 1 else b.cwnd }

def cwndShed (window cwnd : Nat) : Nat :=
  let floorW := if window ≥ 2 then 2 else 1
  if cwnd > floorW then
    let shed := cwnd * 3 / 4
    if shed < floorW then floorW else shed
  else cwnd

def cwndOnRetransTimeout : Code ρ Unit :=
  Sec.modify fun b => { b with cwnd := cwndShed b.cfg.window b.cwnd }

def bufMatch (b : Body ρ) (mac : Mac) (fid : BitVec 16) : Option BufIx :=
  allBufs.find? fun j => match b.bufs j with
    | none => false
    | some buf => buf.state = .inflight && buf.fid = fid && macEq buf.destMac mac

def bufForPeer (b : Body ρ) (mac : Mac) : Option BufIx :=
  allBufs.find? fun j => match b.bufs j with
    | none => false
    | some buf => macEq buf.destMac mac

def dfltMcsRefresh : Code ρ Unit := do
  let now ← nowJ
  let b ← Sec.read id
  if b.dfltMcsCache ≠ 0xFF#8 ∧ now - b.dfltMcsJiff < b.cache.dfltTtlJ then pure ()
  else
    let mcs ← platform Platform.halowConfigLoadMcs
    Sec.modify fun b =>
      { b with dfltMcsCache := mcs, dfltMcsJiff := now, loaded := mcs :: b.loaded }

def dfltMcs (b : Body ρ) : Byte := if b.dfltMcsCache ≠ 0xFF#8 then b.dfltMcsCache else 7#8

def peerFind (b : Body ρ) (mac : Mac) : Option PeerIx :=
  allPeers.find? fun i => (b.peers i).inUse && macEq (b.peers i).mac mac

def peerInitMcs : Code ρ Byte := do
  if (← Sec.read (·.cfg.rateAdapt)) = 0 then pure halowMcsDefault
  else
    dfltMcsRefresh
    Sec.read dfltMcs

def peerIsStale (i : PeerIx) : Code ρ Bool := do
  let p ← Sec.read (·.peers i)
  if p.lastAckJiff = 0 then pure false
  else
    let now ← nowJ
    let stale ← Sec.read (·.cache.staleJ)
    pure (decide (now - p.lastAckJiff > stale))

def peerRateStale (i : PeerIx) : Code ρ Bool := do
  let rateAdapt ← Sec.read (·.cfg.rateAdapt)
  let p ← Sec.read (·.peers i)
  if rateAdapt ≠ 0 ∧ p.txMcs ≠ halowMcsDefault then peerIsStale i else pure false

-- The first free entry, else the one with the least `last_seen` among those that own no buffer.
def peerEvictScan (b : Body ρ) : List PeerIx → Option PeerIx → Jiffy → Option PeerIx
  | [], victim, _ => victim
  | i :: rest, victim, oldest =>
    if !(b.peers i).inUse then some i
    else if (bufForPeer b (b.peers i).mac).isSome then peerEvictScan b rest victim oldest
    else if (b.peers i).lastSeen < oldest then peerEvictScan b rest (some i) (b.peers i).lastSeen
    else peerEvictScan b rest victim oldest

def peerEvictPick (b : Body ρ) : Option PeerIx := peerEvictScan b allPeers none (-1#32)

def peerCreate (mac : Mac) (initMcs : Byte) : Code ρ (Option PeerIx) := do
  match ← Sec.read peerEvictPick with
  | none => pure none
  | some i =>
    let created ← nowJ
    let seen ← nowJ
    Sec.modify fun b =>
      { b with
        peersN := if (b.peers i).inUse then b.peersN else b.peersN + 1
        peers := update b.peers i
          { AckPeer.zero with
            inUse := true
            mac := mac
            curRetries := b.cfg.maxRetries
            txMcs := initMcs
            createdJiff := created
            lastSeen := seen } }
    emit (.opened i mac)
    pure (some i)

def noteLook (i : PeerIx) (judged : Body ρ) : Code ρ Unit :=
  Sec.modify fun b =>
    { b with looks := ⟨Platform.jiffies judged.plat, i, judged.cfg.rateAdapt, judged.peers i,
        b.peers i⟩ :: b.looks }

def peerGet (mac : Mac) : Code ρ (Option PeerIx) := do
  let found ← Sec.read fun b => peerFind b mac
  let initMcs ← peerInitMcs
  match found with
  | some i =>
    let stale ← peerRateStale i
    let judged ← Sec.read id
    Sec.when (stale = true) do
      modifyPeer i fun p =>
        { p with
          txMcs := initMcs
          lossQ8 := 0
          acksSinceStep := 0
          nextStepAllowed := 0
          rxSeqSeen := false
          rxSeqWin := 0
          failedTop := 0
          lastCollapseJiff := 0 }
      emit (.forgot i mac)
    let now ← nowJ
    modifyPeer i fun p => { p with lastSeen := now }
    noteLook i judged
    pure (some i)
  | none => peerCreate mac initMcs

def dedupSeen (p : AckPeer) (hash : BitVec 32) : Bool :=
  (List.finRange 16).any fun k => p.dedup k = hash

def dedupRemember (p : AckPeer) (hash : BitVec 32) : AckPeer :=
  { p with dedup := update p.dedup p.dedupIdx hash, dedupIdx := p.dedupIdx + 1 }

-- `1u << n` on a 32-bit unsigned operand.
def shl32 (undefinedShl : Nat → BitVec 32) (n : Nat) : BitVec 32 :=
  if n < 32 then 1#32 <<< n else undefinedShl n

def peerRxSeq (undefinedShl : Nat → BitVec 32) (p : AckPeer) (seq : BitVec 16) : AckPeer :=
  if !p.rxSeqSeen then { p with rxSeqSeen := true, rxSeqLast := seq, rxSeqWin := 1 }
  else
    let fwd := (seq - p.rxSeqLast).toNat
    let back := (p.rxSeqLast - seq).toNat
    if fwd = 0 then p
    else if fwd < seqWindow then
      { p with rxSeqWin := p.rxSeqWin <<< fwd ||| 1, rxSeqLast := seq }
    else if back < seqWindow then
      { p with rxSeqWin := p.rxSeqWin ||| (shl32 undefinedShl back).setWidth 64 }
    else { p with rxSeqLast := seq, rxSeqWin := 1 }

def maxPayloadMcs (mcs : Byte) : Nat :=
  match mcs.toNat with
  | 0 => 700
  | 1 => 1450
  | 2 => 2200
  | 3 => 3000
  | 4 => 4500
  | 5 => 6050
  | 6 => 6800
  | 7 => 7600
  | 10 => 500
  | _ => 700

def effAggBytes (b : Body ρ) (pmcs : Byte) : Nat :=
  let effMcs := if pmcs = halowMcsDefault then dfltMcs b else pmcs
  if maxPayloadMcs effMcs < b.cfg.aggBytes then maxPayloadMcs effMcs else b.cfg.aggBytes

def slotLifeLoop (tmo : Nat) : Nat → Nat → Nat → Nat
  | 0, _, life => life
  | n + 1, i, life =>
    let life := life + tmo <<< (if i < 3 then i else 3)
    if life ≥ ackSlotLifeMaxMs then ackSlotLifeMaxMs else slotLifeLoop tmo n (i + 1) life

def slotLifeMs (b : Body ρ) : Nat :=
  let tmo := b.cfg.timeoutMs
  let firstCap := if tmo * 4 < b.stats.ackRttEwmaMs * 2 then b.stats.ackRttEwmaMs * 2 else tmo * 4
  slotLifeLoop tmo b.cfg.maxRetries 0 (150 + firstCap)

end RnodeHalow.Ack
