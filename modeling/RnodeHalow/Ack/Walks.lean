import RnodeHalow.Ack.Core

set_option autoImplicit false

namespace RnodeHalow.Ack

open Resumption

variable {ρ : Type} [Platform ρ] {α : Type}

structure Rating where
  inUse : Bool
  mac : Mac
  curRetries : Nat
  txMcs : Byte
  lossQ8 : Nat
  nextStepAllowed : Jiffy
  failedTop : Byte
  lastCollapseJiff : Jiffy
  lastAckJiff : Jiffy

def AckPeer.rating (p : AckPeer) : Rating :=
  ⟨p.inUse, p.mac, p.curRetries, p.txMcs, p.lossQ8, p.nextStepAllowed, p.failedTop,
    p.lastCollapseJiff, p.lastAckJiff⟩

def Event.plain : Event → Bool
  | .txP _ _ _ _ => false
  | .born _ => false
  | .txStamped _ => false
  | .sent _ => false
  | .txSampled _ _ => false
  | .forgot _ _ => false
  | _ => true

-- `F` permits the vacancy query, plain events, counters and entries with rating and debt kept.
structure Mild (F : Frame (Body ρ)) : Prop where
  vacancy : F.Around halowGetTxVacancy
  note : ∀ {e : Event}, e.plain = true → F.Around (emit e)
  count : ∀ {f : Stats → Stats}, (∀ st, (f st).ackRttEwmaMs = st.ackRttEwmaMs) →
    F.Around (modifyStats f)
  entry : ∀ i {f : AckPeer → AckPeer}, (∀ p, (f p).rating = p.rating ∧ (f p).debt = p.debt) →
    F.Around (modifyPeer i f)

-- It also permits the clocks, the heap, and any change of the slots and their counts.
structure Lax (F : Frame (Body ρ)) : Prop extends Mild F where
  clock : F.Around nowJ
  timeS : F.Around (platform Platform.timeS)
  malloc : ∀ size, F.Around (platform (Platform.osMalloc size))
  store : ∀ {f : Body ρ → Body ρ}, (∀ b, f b = { b with
    bufs := (f b).bufs
    usedN := (f b).usedN
    inflightN := (f b).inflightN
    heapBytes := (f b).heapBytes
    lastDataTxJiff := (f b).lastDataTxJiff
    sender := (f b).sender }) → F.Around (Sec.modify f)

theorem Mild.mono {F G : Frame (Body ρ)} (mild : Mild F)
    (finer : ∀ {b b'}, F.rel b b' → G.rel b b') : Mild G where
  vacancy t b := finer (mild.vacancy t b)
  note plain t b := finer (mild.note plain t b)
  count same t b := finer (mild.count same t b)
  entry i _ same t b := finer (mild.entry i same t b)

theorem Lax.mono {F G : Frame (Body ρ)} (lax : Lax F)
    (finer : ∀ {b b'}, F.rel b b' → G.rel b b') : Lax G where
  toMild := lax.toMild.mono finer
  clock t b := finer (lax.clock t b)
  timeS t b := finer (lax.timeS t b)
  malloc size t b := finer (lax.malloc size t b)
  store same t b := finer (lax.store same t b)

theorem peerRxSeq_rating (undefinedShl : Nat → BitVec 32) (p : AckPeer) (seq : BitVec 16) :
    (peerRxSeq undefinedShl p seq).rating = p.rating ∧
      (peerRxSeq undefinedShl p seq).debt = p.debt := by
  unfold peerRxSeq
  dsimp only
  repeat' split
  all_goals exact ⟨rfl, rfl⟩

variable {F : Frame (Body ρ)} (i : PeerIx) (j : BufIx) (payload : List Byte) (src dest : Mac)

section Rate

variable (clock : F.Around nowJ)
include clock

theorem raInGrace_around : F.Around (raInGrace i) :=
  .bind (.read _) fun _ => .ite (.pure _) (.bind clock fun _ => .pure _)

theorem raProbeCapped_around (count : ∀ {f : Stats → Stats}, (∀ st, (f st).counts = st.counts) →
    F.Around (modifyStats f)) (ceilMcs : Byte) : F.Around (raProbeCapped i ceilMcs) := by
  refine .bind (.read _) fun p => .ite (.pure _) (.bind clock fun now => .ite (.pure _) ?_)
  exact .ite (.bind (count fun _ => rfl) fun _ => .pure _) (.pure _)

theorem peerRateStale_around : F.Around (peerRateStale i) := by
  refine .bind (.read _) fun rateAdapt => .bind (.read _) fun p => .ite ?_ (.pure _)
  refine .bind (.read _) fun p => .ite (.pure _) (.bind clock fun now => ?_)
  exact .bind (.read _) fun stale => .pure _

end Rate

def AckPeer.untuned (p : AckPeer) : AckPeer :=
  { p with curRetries := 0, txMcs := 0, lossQ8 := 0, acksSinceStep := 0, nextStepAllowed := 0 }

-- `F` permits what rate adaptation writes: rate, loss, step time, and the record of steps down.
structure Tunes (F : Frame (Body ρ)) : Prop where
  clock : F.Around nowJ
  count : ∀ {f : Stats → Stats}, (∀ st, (f st).counts = st.counts) → F.Around (modifyStats f)
  tune : ∀ i {f : AckPeer → AckPeer}, (∀ p, (f p).untuned = p.untuned) → F.Around (modifyPeer i f)
  log : ∀ d : DownStep, F.Around (Sec.modify fun b => { b with downshifts := d :: b.downshifts })

namespace Tunes

variable (tunes : Tunes F)
include tunes

theorem raUpStep : F.Around (raUpStep i) := by
  refine .bind (raProbeCapped_around i tunes.clock tunes.count _) fun ceilMcs => ?_
  refine .bind (.read _) fun p => .bind (.read _) fun cache => .ite (tunes.count fun _ => rfl) ?_
  refine .ite (tunes.count fun _ => rfl) (.bind tunes.clock fun now => ?_)
  refine .ite (tunes.count fun _ => rfl) (.bind tunes.clock fun later => ?_)
  exact .bind (tunes.tune i fun _ => rfl) fun _ => tunes.count fun _ => rfl

theorem raOnRetrans : F.Around (raOnRetrans i) :=
  .bind (raInGrace_around i tunes.clock) fun _ => .when (tunes.tune i fun _ => rfl)

theorem configApplyPeer (initial : F.Around peerInitMcs) (c : Config) :
    F.Around (configApplyPeer c i) := by
  refine .bind (.read _) fun p => .when (.bind (.when (tunes.tune i fun _ => rfl)) fun _ => ?_)
  refine .bind (.ite (tunes.tune i fun _ => rfl) (.when ?_)) fun _ => tunes.tune i fun _ => rfl
  exact .bind initial fun mcs => tunes.tune i fun _ => rfl

theorem configInstall (initial : F.Around peerInitMcs) (note : ∀ n, F.Around (emit (.windowed n)))
    (install : ∀ c b, F.rel b { b with
      cfg := c, window := c.window, cwnd := if b.cwnd > c.window then c.window else b.cwnd })
    (c : Config) : F.Around (configInstall c) := by
  refine .bind (fun _ => install c) fun _ => .bind (note _) fun _ => ?_
  exact .forEach (fun i => tunes.configApplyPeer i initial c) _

theorem raDownStep (collapse : F.Around (raNoteCollapse i)) : F.Around (raDownStep i) := by
  refine .bind (.read _) fun floorD => .bind (.read _) fun p => .bind (.read _) fun configured => ?_
  refine .when (.bind tunes.clock fun now => .when (.bind (.read _) fun gap => ?_))
  refine .bind tunes.clock fun later => .bind (tunes.tune i fun _ => rfl) fun _ => ?_
  refine .bind (tunes.log _) fun _ => ?_
  exact .bind (tunes.count fun _ => rfl) fun _ => collapse

theorem raOnDrop (down : F.Around (Ack.raDownStep i)) : F.Around (raOnDrop i) := by
  refine .bind (raInGrace_around i tunes.clock) fun grace => .when ?_
  refine .bind (tunes.tune i fun _ => rfl) fun _ => ?_
  exact .bind (.read _) fun p => .bind (.read _) fun b => .when down

theorem raOnAck (acked : ∀ now, F.Around (modifyPeer i fun p =>
      { p with lastAckJiff := now, lossQ8 := (p.lossQ8 * (raEwmaW - 1)) >>> 3 }))
    (down : F.Around (Ack.raDownStep i)) (up : F.Around (Ack.raUpStep i)) :
    F.Around (raOnAck i) := by
  refine .bind tunes.clock fun now => .bind (acked now) fun _ => .bind (.read _) fun p => ?_
  refine .bind (.read _) fun b => .when (.bind (tunes.count fun _ => rfl) fun _ => ?_)
  exact .bind (tunes.tune i fun _ => rfl) fun _ => .ite down up

end Tunes

namespace Mild

variable (mild : Mild F)
include mild

theorem reject : F.Around (do
    modifyStats fun st => { st with dropped := st.dropped + 1 }
    modifyPeer i fun p => { p with dropped := p.dropped + 1 }
    emit (.rejected i)) := by
  refine .bind (mild.count fun _ => rfl) fun _ => ?_
  exact .bind (mild.entry i fun _ => ⟨rfl, rfl⟩) fun _ => mild.note rfl

theorem rxBundleLocked : F.Around (rxBundleLocked payload src) := by
  refine .bind .self fun t => .bind (.read _) fun found => ?_
  cases found with
  | none => exact .bind (mild.note rfl) fun _ => .pure _
  | some i =>
    refine .bind (.read _) fun retrans => ?_
    refine .bind (mild.entry i fun p => peerRxSeq_rating _ p _) fun _ => ?_
    refine .bind (mild.note rfl) fun _ => .bind (mild.count fun _ => rfl) fun _ => ?_
    exact .bind (.when (mild.count fun _ => rfl)) fun _ => .pure _

theorem txRoute (get : F.Around (peerGet dest)) (len : Nat) : F.Around (txRoute len dest) := by
  refine .bind get fun found => ?_
  cases found with
  | none => exact .pure _
  | some i =>
    refine .bind (.read _) fun p => .ite (.pure _) ?_
    refine .bind (.read _) fun effPayload => .bind (.read _) fun agg => .ite ?_ ?_
    · exact .bind (mild.count fun _ => rfl) fun _ => .pure _
    · exact .bind (mild.count fun _ => rfl) fun _ => .pure _

section Radio

variable (air : ∀ data dest mcs tid, F.Around (halowTxP data dest mcs tid))
include air

theorem bcRepeatLoop (n : Nat) : F.Around (bcRepeatLoop payload dest n) := by
  induction n with
  | zero => exact .pure ()
  | succ n ih =>
    refine .bind mild.vacancy fun vacancy => .when ?_
    refine .bind (air _ dest _ _) fun r => .when ?_
    exact .bind (mild.count fun _ => rfl) fun _ => ih

theorem txBroadcast : F.Around (txBroadcast payload dest) := by
  refine .bind (.read _) fun bcRepeat => .bind (air _ dest _ _) fun r => ?_
  exact .ite (.bind (mild.bcRepeatLoop payload dest air _) fun _ => .pure _) (.pure _)

theorem sendEnvAck (evm : Byte) (base : BitVec 16) (bm : BitVec 64) (ackMcs : Byte) :
    F.Around (sendEnvAck evm dest base bm ackMcs) := by
  refine .bind (air _ dest _ _) fun r => mild.count fun st => ?_
  split <;> rfl

theorem sendFidAck (evm : Byte) (fids : List (BitVec 16)) (ackMcs : Byte) :
    F.Around (sendFidAck evm dest fids ackMcs) := by
  refine .bind (.read _) fun cfg => .bind (air _ dest _ _) fun r => ?_
  refine mild.count fun st => ?_
  split <;> rfl

end Radio

section Due

variable (clock : F.Around nowJ)
  (due : ∀ i {f : AckPeer → AckPeer}, (∀ p, (f p).rating = p.rating) → F.Around (modifyPeer i f))
include clock due

omit mild in
theorem ackDecideLocked : F.Around (ackDecideLocked i) := by
  refine .bind (.read _) fun cfg => .bind (.read _) fun p => .ite ?_ (.ite ?_ ?_)
  · exact .bind (due i fun _ => rfl) fun _ => .pure _
  · exact .bind (due i fun _ => rfl) fun _ => .pure _
  refine .bind (due i fun _ => rfl) fun _ => .bind (.when ?_) fun _ => .pure _
  exact .bind clock fun now => .bind (.read _) fun hold => due i fun _ => rfl

theorem rxDataNoted (get : F.Around (peerGet src)) (dst : Option Mac) (evm : Byte) :
    F.Around (rxDataNoted payload src dst evm) := by
  refine .bind (.bind (.ite get (.read _)) fun found => ?_) fun r => .bind (.when ?_) fun _ => .pure r
  · cases found with
    | none => exact .bind (.when (mild.count fun _ => rfl)) fun _ => .pure _
    | some i =>
      refine .bind (due i fun _ => rfl) fun _ => .ite (.bind (.read _) fun deliver => ?_) (.pure _)
      refine .bind (.when (due i fun _ => rfl)) fun _ => ?_
      exact .bind (ackDecideLocked i clock due) fun fids => .pure _
  · exact .bind .self fun t => mild.note rfl

end Due

section Acks

variable (acked : ∀ j buf, F.Around (bufAcked j buf))
include acked

theorem envAckScan (base : BitVec 16) (bm : BitVec 64) :
    F.Around (Sec.forEach allBufs fun j => do
      let p ← Sec.read (·.peers i)
      match ← Sec.read (·.bufs j) with
      | none => pure ()
      | some buf =>
        Sec.when (buf.state = .inflight ∧ macEq buf.destMac p.mac = true ∧
            envAckCovers base bm buf = true) do
          bufAcked j buf
          modifyPeer i fun p => { p with acked := p.acked + 1 }) := by
  refine .forEach (fun j => .bind (.read _) fun p => .bind (.read _) fun held => ?_) _
  cases held with
  | none => exact .pure ()
  | some buf => exact .when (.bind (acked j buf) fun _ => mild.entry i fun _ => ⟨rfl, rfl⟩)

theorem rxAckFid (found : Option PeerIx) (fid : BitVec 16) : F.Around (rxAckFid src found fid) := by
  refine .bind (.read _) fun hit => ?_
  cases hit with
  | none => exact mild.count fun _ => rfl
  | some hit =>
    refine .bind (acked hit.1 hit.2) fun _ => .ifSome fun i => ?_
    exact mild.entry i fun _ => ⟨rfl, rfl⟩

variable (noted : ∀ i evm, F.Around (ackNotePeer i evm))
include noted

theorem rxEnvAckLocked : F.Around (rxEnvAckLocked i payload) := by
  refine .bind (mild.count fun _ => rfl) fun _ => .bind (noted i _) fun _ => ?_
  exact mild.envAckScan i acked _ _

theorem rxAckLocked : F.Around (rxAckLocked payload src) := by
  refine .bind (.read _) fun found => .bind (.ifSome fun i => noted i _) fun _ => ?_
  exact .forEach (fun k => .when (mild.rxAckFid src acked found _)) _

end Acks

section Drops

variable (free : ∀ j, F.Around (bufRelease j)) (now : Jiffy)
include free

theorem holdDrop : F.Around (holdDrop now i) := by
  refine .bind (.read _) fun p => .when (.bind (mild.count fun _ => rfl) fun _ => ?_)
  refine .bind (mild.entry i fun _ => ⟨rfl, rfl⟩) fun _ => .bind .self fun t => ?_
  refine .bind (.read _) fun staged => .bind (mild.note rfl) fun _ => .bind (.read _) fun p => ?_
  refine .bind ?_ fun _ => mild.entry i fun _ => ⟨rfl, rfl⟩
  cases p.aggIdx with
  | none => exact .pure ()
  | some j => exact .bind (.read _) fun held => .when (free j)

variable (drop : ∀ i, F.Around (raOnDrop i))
include drop

theorem bufDropDeadline (buf : AckBuf) : F.Around (bufDropDeadline j buf) := by
  refine .bind (.read _) fun found => .bind (free j) fun _ => ?_
  refine .bind (mild.count fun _ => rfl) fun _ => .ifSome fun i => ?_
  exact .bind (mild.entry i fun _ => ⟨rfl, rfl⟩) fun _ => drop i

theorem judgeBuf (timeoutJ lifeJ : Jiffy) : F.Around (judgeBuf now timeoutJ lifeJ j) := by
  refine .bind (.read _) fun held => ?_
  cases held with
  | none => exact .pure _
  | some buf =>
    refine .ite (.pure _) (.bind .self fun t => .ite ?_ ?_)
    · refine .bind (mild.note rfl) fun _ => .bind (mild.note rfl) fun _ => ?_
      exact .bind (mild.bufDropDeadline j free drop buf) fun _ => .pure _
    · refine .bind (.read _) fun backoff => .ite (.pure _) ?_
      refine .bind mild.vacancy fun vacancy => .ite (.pure _) ?_
      exact .bind (mild.note rfl) fun _ => .pure _

theorem retransmitPrep (sampled : ∀ t, F.Around (emit (.txSampled t j)))
    (again : F.Around (modifyBuf j fun buf =>
      { buf with retriesUsed := buf.retriesUsed + 1, txJiff := now }))
    (shed : F.Around cwndOnRetransTimeout) (retrans : ∀ i, F.Around (raOnRetrans i)) :
    F.Around (retransmitPrep j now) := by
  refine .bind (.read _) fun held => ?_
  cases held with
  | none => exact .bind (mild.note rfl) fun _ => .pure _
  | some buf =>
    refine .bind (.read _) fun found => ?_
    cases found with
    | none => exact .bind (mild.note rfl) fun _ => .bind (free j) fun _ => .pure _
    | some i =>
      refine .bind (.read _) fun maxRetries => .ite ?_ ?_
      · refine .bind (mild.note rfl) fun _ => .bind (free j) fun _ => ?_
        refine .bind (mild.count fun _ => rfl) fun _ => ?_
        exact .bind (mild.entry i fun _ => ⟨rfl, rfl⟩) fun _ => .bind (drop i) fun _ => .pure _
      · refine .bind .self fun t => .bind again fun _ => .bind (sampled t) fun _ => ?_
        refine .bind (mild.count fun _ => rfl) fun _ => ?_
        refine .bind (mild.entry i fun _ => ⟨rfl, rfl⟩) fun _ => .bind (.when shed) fun _ => ?_
        exact .bind (retrans i) fun _ => .bind (.read _) fun mcs => .pure _

end Drops

end Mild

namespace Lax

variable (lax : Lax F)
include lax

theorem modifyBuf (f : AckBuf → AckBuf) : F.Around (modifyBuf j f) := lax.store fun _ => rfl

theorem bufWrite (ofs : Nat) (bytes : List Byte) : F.Around (bufWrite j ofs bytes) := by
  refine .bind (.read _) fun held => ?_
  cases held with
  | none => exact lax.note rfl
  | some buf => exact .ite (lax.note rfl) (lax.modifyBuf j _)

theorem bufRelease (free : F.Around (platform fun r : ρ => ((), Platform.osFree r))) :
    F.Around (bufRelease j) := by
  refine .bind (.read _) fun held => ?_
  cases held with
  | none => exact lax.note rfl
  | some buf => exact .bind (lax.store fun _ => rfl) fun _ => free

theorem markSending : F.Around (markSending j) := by
  refine .bind (.read _) fun held => ?_
  cases held with
  | none => exact lax.note rfl
  | some buf => exact .bind .self fun t => lax.store fun _ => rfl

theorem sendOut (sent : F.Around (emit (.sent j)))
    (air : ∀ data dest mcs tid, F.Around (halowTxP data dest mcs tid))
    (pmcs : Byte) : F.Around (sendOut j pmcs) := by
  refine .bind (.read _) fun held => ?_
  cases held with
  | none => exact lax.note rfl
  | some buf =>
    refine .bind sent fun _ => .bind (air _ _ _ _) fun _ => ?_
    exact .bind lax.clock fun now => lax.store fun _ => rfl

theorem sendDone : F.Around (sendDone j) := by
  refine .bind (.read _) fun held => ?_
  cases held with
  | none => exact lax.note rfl
  | some buf => exact .when (lax.modifyBuf j _)

theorem peerNoteTx (wireBytes : Nat) : F.Around (peerNoteTx i wireBytes) :=
  .bind lax.timeS fun _ => lax.entry i fun _ => ⟨rfl, rfl⟩

theorem stageAppend (effPayload : Nat) : F.Around (stageAppend i payload effPayload) := by
  refine .bind (.read _) fun p => ?_
  cases p.aggIdx with
  | none => exact .bind (lax.note rfl) fun _ => .pure _
  | some j =>
    refine .bind (lax.bufWrite j _ _) fun _ => .bind (lax.bufWrite j _ _) fun _ => ?_
    refine .bind (lax.entry i fun _ => ⟨rfl, rfl⟩) fun _ => .bind .self fun t => ?_
    exact .bind (lax.note rfl) fun _ => .read _

theorem raKickInflight : F.Around (raKickInflight i) := by
  refine .bind lax.clock fun now => .bind (.read _) fun timeoutMs => .bind (.read _) fun mac => ?_
  refine .forEach (fun j => .bind (.read _) fun held => ?_) _
  cases held with
  | none => exact .pure ()
  | some buf => exact .when (.bind (lax.modifyBuf j _) fun _ => lax.note rfl)

theorem raInGrace : F.Around (raInGrace i) := raInGrace_around i lax.clock

theorem raProbeCapped (ceilMcs : Byte) : F.Around (raProbeCapped i ceilMcs) :=
  raProbeCapped_around i lax.clock (fun same => lax.count fun st => congrArg (·.ackRttEwmaMs) (same st))
    ceilMcs

theorem peerRateStale : F.Around (peerRateStale i) := peerRateStale_around i lax.clock

theorem bufAcked (rtt : ∀ born last, F.Around (rttRecord born last))
    (grow : F.Around cwndOnCleanClear) (free : F.Around (Ack.bufRelease j)) (buf : AckBuf) :
    F.Around (bufAcked j buf) := by
  refine .bind lax.clock fun now => .bind lax.clock fun later => .bind (rtt _ _) fun _ => ?_
  refine .bind (.when grow) fun _ => .bind (lax.note rfl) fun _ => .bind free fun _ => ?_
  exact lax.count fun _ => rfl

section Dated

variable (born : ∀ j, F.Around (emit (.born j))) (stamped : ∀ j, F.Around (emit (.txStamped j)))

section

include born

theorem bufAlloc (state : BufState) (mac : Mac) (cap : Nat) :
    F.Around (bufAlloc state mac cap) := by
  refine .bind (.read _) fun slot => ?_
  cases slot with
  | none => exact .pure _
  | some j =>
    refine .bind (lax.malloc _) fun block => ?_
    cases block with
    | none => exact .bind (lax.count fun _ => rfl) fun _ => .pure _
    | some blk =>
      refine .bind lax.clock fun now => .bind (lax.store fun _ => rfl) fun _ => ?_
      exact .bind (born j) fun _ => .pure _

theorem stageOpen (len effPayload : Nat) : F.Around (stageOpen i len dest effPayload) := by
  refine .bind (.read _) fun agg => ?_
  cases agg with
  | some j => exact .pure _
  | none =>
    refine .bind (lax.bufAlloc born _ _ _) fun slot => ?_
    cases slot with
    | none => exact .pure _
    | some j =>
      refine .bind lax.clock fun now => .bind (lax.entry i fun _ => ⟨rfl, rfl⟩) fun _ => ?_
      exact .bind (lax.note rfl) fun _ => .pure _

end

include born stamped

theorem aggSealNow : F.Around (aggSealNow i j) := by
  refine .bind (.read _) fun p => .bind (lax.entry i fun _ => ⟨rfl, rfl⟩) fun _ => ?_
  refine .bind lax.clock fun now => .bind (stamped j) fun _ => ?_
  refine .bind lax.clock fun bornJ => .bind (born j) fun _ => ?_
  refine .bind (lax.entry i fun _ => ⟨rfl, rfl⟩) fun _ => .bind (lax.bufWrite j _ _) fun _ => ?_
  refine .bind (lax.modifyBuf j _) fun _ => .bind (lax.peerNoteTx i _) fun _ => ?_
  refine .bind (lax.count fun _ => rfl) fun _ => .bind (.read _) fun data => ?_
  exact .bind (lax.note rfl) fun _ => .pure _

theorem aggSeal : F.Around (aggSeal i) := by
  refine .bind (.read _) fun agg => ?_
  cases agg with
  | none => exact .pure _
  | some j =>
    refine .bind lax.vacancy fun vacancy => .ite (.pure _) ?_
    refine .bind (.read _) fun inflight => .bind (.read _) fun window => .ite (.pure _) ?_
    exact lax.aggSealNow i j born stamped

theorem plainClaim : F.Around (plainClaim i payload dest) := by
  refine .bind lax.vacancy fun vacancy => .ite (.pure _) (.bind ?_ fun slot => ?_)
  · refine .bind (.read _) fun inflight => .bind (.read _) fun window => .ite (.pure _) ?_
    exact lax.bufAlloc born _ _ _
  · cases slot with
    | none => exact .pure _
    | some j =>
      refine .bind lax.clock fun now => .bind (stamped j) fun _ => ?_
      refine .bind (lax.bufWrite j 0 payload) fun _ => .bind (lax.modifyBuf j _) fun _ => ?_
      exact .bind (lax.peerNoteTx i _) fun _ => .pure _

end Dated

section Stored

variable (load : F.Around (platform Platform.halowConfigLoadMcs))
  (stored : ∀ {f : Body ρ → Body ρ}, (∀ b, (f b).plat = b.plat ∧ (f b).trace = b.trace) →
    F.Around (Sec.modify f))
include load stored

theorem peerInitMcs : F.Around peerInitMcs := by
  refine .bind (.read _) fun rateAdapt => .ite (.pure _) (.bind ?_ fun _ => .read _)
  refine .bind lax.clock fun now => .bind (.read _) fun b => .ite (.pure _) ?_
  exact .bind load fun mcs => stored fun _ => ⟨rfl, rfl⟩

omit load in
theorem peerCreate (mac : Mac) (initMcs : Byte) : F.Around (peerCreate mac initMcs) := by
  refine .bind (.read _) fun picked => ?_
  cases picked with
  | none => exact .pure _
  | some i =>
    refine .bind lax.clock fun created => .bind lax.clock fun seen => ?_
    exact .bind (stored fun _ => ⟨rfl, rfl⟩) fun _ => .bind (lax.note rfl) fun _ => .pure _

theorem peerGet (mac : Mac) (forgot : ∀ i, F.Around (emit (.forgot i mac))) :
    F.Around (peerGet mac) := by
  refine .bind (.read _) fun found => .bind (lax.peerInitMcs load stored) fun initMcs => ?_
  cases found with
  | none => exact lax.peerCreate stored mac initMcs
  | some i =>
    refine .bind (lax.peerRateStale i) fun stale => .bind (.read _) fun judged => ?_
    refine .bind (.when (.bind (stored fun _ => ⟨rfl, rfl⟩) fun _ => forgot i)) fun _ => ?_
    refine .bind lax.clock fun now => .bind (stored fun _ => ⟨rfl, rfl⟩) fun _ => ?_
    exact .bind (stored fun _ => ⟨rfl, rfl⟩) fun _ => .pure _

end Stored

end Lax

end RnodeHalow.Ack
