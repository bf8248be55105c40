import RnodeHalow.Ack.Walks
import RnodeHalow.Shared.Phases

set_option autoImplicit false

namespace RnodeHalow.Ack

open Resumption

variable {ρ : Type} [Platform ρ] {α φ : Type}

def rxEnvAckSection (payload : List Byte) (src : Mac) : Code ρ Unit := do
  let found ← Sec.read fun b => peerFind b src
  Sec.ifSome found fun i => rxEnvAckLocked i payload

def Route.fits (len : Nat) : Route → Prop
  | .plain _ _ => ackWireMax < len + (envBundleHdr + 2)
  | _ => True

theorem txRoute_fits (len : Nat) (dest : Mac) (t : Nat) (b : Body ρ) :
    (txRoute len dest t b).1.fits len := by
  rw [txRoute, Sec.bind_apply]
  cases (peerGet dest t b).1 with
  | none => exact trivial
  | some i =>
    dsimp only
    rw [Sec.bind_apply, Sec.ite_apply]
    split
    · exact trivial
    rw [Sec.bind_apply, Sec.bind_apply, Sec.ite_apply]
    split
    · exact trivial
    next large =>
      rw [not_or] at large
      exact Nat.lt_of_not_le large.2

-- An allowed call that gets as far as `tx_plain_locked`.
structure PlainTx (ok : Call → Prop) (payload : List Byte) (dest : Mac) : Prop where
  allowed : ok (.tx payload dest)
  unicast : isBroadcast dest = false
  small : payload.length ≤ ackWireMax
  large : ackWireMax < payload.length + (envBundleHdr + 2)

-- The sections of the calls that do more than the moves of `Lax`.
structure Handlers (F : Frame (Body ρ)) : Prop where
  get : ∀ mac, F.Around (peerGet mac)
  envAck : ∀ payload src, isEnvFrame payload = true → isEnvAck payload = true →
    F.Around (rxEnvAckSection payload src)
  fidAck : ∀ payload src, isEnvFrame payload = false → isAckFrame payload = true →
    F.Around (rxAckLocked payload src)
  bundle : ∀ payload src, isEnvFrame payload = true → isEnvBundle payload = true →
    F.Around (rxBundleLocked payload src)
  data : ∀ payload src dst evm, F.Around (rxDataNoted payload src dst evm)
  drop : ∀ i, F.Around (raOnDrop i)
  stale : ∀ i, F.Around (raCheckStale i)
  cache : F.Around configCache

theorem Handlers.mono {F G : Frame (Body ρ)} (handlers : Handlers F)
    (finer : ∀ {b b'}, F.rel b b' → G.rel b b') : Handlers G where
  get mac t b := finer (handlers.get mac t b)
  envAck payload src env ack t b := finer (handlers.envAck payload src env ack t b)
  fidAck payload src env ack t b := finer (handlers.fidAck payload src env ack t b)
  bundle payload src env bundle t b := finer (handlers.bundle payload src env bundle t b)
  data payload src dst evm t b := finer (handlers.data payload src dst evm t b)
  drop i t b := finer (handlers.drop i t b)
  stale i t b := finer (handlers.stale i t b)
  cache t b := finer (handlers.cache t b)

-- `aims j` is the phase of a thread that is about to hand slot `j` to the radio.
structure Bundles (R : Phases φ (Body ρ)) (aims : BufIx → φ) : Prop where
  lax : ∀ t, Lax (R.quiet t)
  stage : ∀ t i len dest effPayload, (R.quiet t).Around (stageOpen i len dest effPayload)
  blocked : ∀ t i (b : Body ρ), (∀ j pmcs, (aggSeal i t b).1 ≠ .sealed j pmcs) →
    R.rel t R.idle b R.idle (aggSeal i t b).2
  launch : ∀ t i (b : Body ρ) j pmcs, (aggSeal i t b).1 = .sealed j pmcs →
    R.rel t R.idle b (aims j) (markSending j t (aggSeal i t b).2).2
  fire : ∀ t j pmcs (b : Body ρ), R.rel t (aims j) b R.idle (sendOut j pmcs t b).2

-- `ok` says which calls are made.
structure Blocks (ok : Call → Prop) (R : Phases φ (Body ρ)) (aims : BufIx → φ) : Prop
    extends Bundles R aims where
  platform : ∀ t {α : Type} {op : ρ → α × ρ},
    (∀ r, Platform.jiffies r ≤ Platform.jiffies (op r).2) → (R.quiet t).Around (platform op)
  air : ∀ t data dest mcs tid, (R.quiet t).Around (halowTxP data dest mcs tid)
  due : ∀ t i {f : AckPeer → AckPeer}, (∀ p, (f p).rating = p.rating) →
    (R.quiet t).Around (modifyPeer i f)
  refresh : ∀ t, (R.quiet t).Around dfltMcsRefresh
  handlers : ∀ t, Handlers (R.quiet t)
  refused : ∀ t i payload dest (b : Body ρ), PlainTx ok payload dest →
    (plainClaim i payload dest t b).1 = none →
    R.rel t R.idle b R.idle (plainClaim i payload dest t b).2
  install : ∀ t cfg, ok (.configApply cfg) → (R.quiet t).Around (configInstall (configClamp cfg))
  claim : ∀ t i payload dest (b : Body ρ) j, PlainTx ok payload dest →
    (plainClaim i payload dest t b).1 = some j →
    R.rel t R.idle b (aims j) (markSending j t (plainClaim i payload dest t b).2).2
  again : ∀ t j now (b : Body ρ) mcs, (retransmitPrep j now t b).1 = some mcs →
    R.rel t R.idle b (aims j) (markSending j t (retransmitPrep j now t b).2).2
  spent : ∀ t j now (b : Body ρ), (retransmitPrep j now t b).1 = none →
    R.rel t R.idle b R.idle (retransmitPrep j now t b).2

namespace Bundles

variable {R : Phases φ (Body ρ)} {aims : BufIx → φ} (bundles : Bundles R aims)
include bundles

theorem bufTxSend {s0 : Node ρ} (s : Node ρ) (j : BufIx) (pmcs : Byte) (same : s.active = s0.active)
    (marked : R.rel s0.active R.idle s0.body (aims j) (markSending j s.active s.body).2) :
    (bufTxSend j pmcs s).Follows R R.idle s0 := by
  refine ⟨aims j, ?_, ?_, fun s' _ => ⟨R.idle, rfl, bundles.fire s'.active j pmcs s'.body, ?_⟩⟩
  · rw [Locked.release_active]
    exact same
  · rw [Locked.release_body]
    exact marked
  · intro s'' _
    refine ⟨rfl, Locked.acquire_active s'', ?_⟩
    have done := (bundles.lax s''.active).sendDone j s''.acquire.active s''.acquire.body
    rwa [Locked.acquire_body] at done ⊢

variable (i : PeerIx) (payload : List Byte) (dest : Mac)

theorem aggFlushLocked : R.Governs (aggFlushLocked i) := by
  refine .sec_bind fun s => ?_
  have quiet := bundles.blocked s.active i s.body
  cases start : (aggSeal i s.active s.body).1 with
  | nothing => exact ⟨rfl, rfl, quiet (by simp [start])⟩
  | blocked => exact ⟨rfl, rfl, quiet (by simp [start])⟩
  | sealed j pmcs =>
    refine Res.Follows.bind (fun _ => Phases.Governs.pure true) (bundles.bufTxSend _ j pmcs rfl ?_)
    exact bundles.launch s.active i s.body j pmcs start

theorem txBundleAppend (effPayload : Nat) :
    R.Governs (txBundleAppend i payload dest effPayload) := by
  refine .bind (.sec fun t => bundles.stage t i _ dest effPayload) fun staged => .ite ?_ ?_
  · refine .bind (.sec fun t => (bundles.lax t).stageAppend i payload effPayload) fun full => ?_
    refine .bind (.when (.bind (bundles.aggFlushLocked i) fun _ => .pure _)) fun _ => ?_
    refine .bind (.sec fun t => .bind .self fun _ => (bundles.lax t).note rfl) fun _ => ?_
    exact .bind .unlock fun _ => .pure _
  · exact .bind .unlock fun _ => .pure _

theorem txBundleLocked (effPayload : Nat) :
    R.Governs (txBundleLocked i payload dest effPayload) := by
  have throttle : R.Governs (do unlock; pure txThrottle : Prog (Node ρ) Int) :=
    .bind .unlock fun _ => .pure _
  have append := bundles.txBundleAppend i payload dest effPayload
  refine .ite ?_ (.bind (.sec fun _ => .read _) fun blocked => .ite throttle ?_)
  · exact .bind (.sec fun t => (bundles.lax t).reject i) fun _ => .bind .unlock fun _ => .pure _
  · refine .bind (.sec fun _ => .read _) fun full => .ite ?_ append
    refine .bind (bundles.aggFlushLocked i) fun _ => .bind (.sec fun _ => .read _) fun still => ?_
    exact .ite throttle append

end Bundles

namespace Blocks

variable {ok : Call → Prop} {R : Phases φ (Body ρ)} {aims : BufIx → φ} (blocks : Blocks ok R aims)
include blocks

theorem free (t : Nat) (j : BufIx) : (R.quiet t).Around (bufRelease j) :=
  (blocks.lax t).bufRelease j (blocks.platform t Platform.osFree_le)

variable (i : PeerIx) (now : Jiffy) (payload : List Byte) (src dest : Mac)

theorem txPlainLocked (pmcs : Byte) (plain : PlainTx ok payload dest) :
    R.Governs (txPlainLocked i payload dest pmcs) := by
  refine .sec_bind fun s => ?_
  cases slot : (plainClaim i payload dest s.active s.body).1 with
  | none =>
    have leave : R.Governs (do unlock; pure txThrottle : Prog (Node ρ) Int) :=
      .bind .unlock fun _ => .pure _
    let s' : Node ρ := { s with body := (plainClaim i payload dest s.active s.body).2 }
    exact Res.Follows.prepend (s := s') rfl
      (blocks.refused s.active i payload dest s.body plain slot) (leave s')
  | some j =>
    refine Res.Follows.bind (fun _ => Phases.Governs.pure 0) (blocks.bufTxSend _ j pmcs rfl ?_)
    exact blocks.claim s.active i payload dest s.body j plain slot

theorem bufRetransmitOrDrop (j : BufIx) : R.Governs (bufRetransmitOrDrop j now) := by
  refine .sec_bind fun s => ?_
  cases mcs : (retransmitPrep j now s.active s.body).1 with
  | none => exact ⟨rfl, rfl, blocks.spent s.active j now s.body mcs⟩
  | some pmcs => exact blocks.bufTxSend _ j pmcs rfl (blocks.again s.active j now s.body pmcs mcs)

theorem sendAck (evm : Byte) (fids : List (BitVec 16)) : R.Governs (sendAck evm dest fids) := by
  refine .bind ?_ fun mcs => .bind (.sec fun t => (blocks.lax t).count fun _ => rfl) fun _ => ?_
  · refine .bind .lock fun _ => .bind (.sec fun _ => .read _) fun mcs => ?_
    exact .bind .unlock fun _ => .pure mcs
  refine .bind .lock fun _ => .bind (.sec fun _ => .read _) fun env => .bind .unlock fun _ => ?_
  cases env with
  | some window => exact .sec fun t => (blocks.lax t).sendEnvAck dest (blocks.air t) _ _ _ _
  | none => exact .sec fun t => (blocks.lax t).sendFidAck dest (blocks.air t) _ _ _

theorem ackTxUc (allowed : ok (.tx payload dest)) : R.Governs (ackTxUc payload dest) := by
  refine .bind (.sec fun _ => .read _) fun cfg => ?_
  split
  · refine .sec fun t => .bind ((blocks.lax t).count fun _ => rfl) fun _ => ?_
    exact (blocks.lax t).txBroadcast payload dest (blocks.air t)
  next direct =>
    simp only [noack, Bool.or_eq_true, decide_eq_true_eq, not_or, not_lt,
      Bool.not_eq_true] at direct
    refine .bind .lock fun _ => .sec_bind fun s => ?_
    have fits := txRoute_fits payload.length dest s.active s.body
    have quiet := (blocks.lax s.active).txRoute dest ((blocks.handlers s.active).get dest) payload.length
      s.active s.body
    refine Res.Follows.prepend
      (s := { s with body := (txRoute payload.length dest s.active s.body).2 }) rfl quiet ?_
    generalize (txRoute payload.length dest s.active s.body).1 = route at fits
    generalize { s with body := (txRoute payload.length dest s.active s.body).2 } = s'
    cases route with
    | untracked mcs =>
      refine Phases.Governs.bind .unlock (fun _ => .sec fun t => ?_) s'
      refine .bind ((blocks.lax t).count fun _ => rfl) fun _ => ?_
      exact .bind (blocks.air t _ dest _ _) fun r => .pure _
    | bundle i effPayload => exact blocks.txBundleLocked i payload dest effPayload s'
    | plain i pmcs =>
      exact blocks.txPlainLocked i payload dest pmcs ⟨allowed, direct.1.2, direct.2, fits⟩ s'

theorem halowAckTx (allowed : ok (.tx payload dest)) : R.Governs (halowAckTx payload dest) := by
  refine .bind (.sec fun t => .bind ((blocks.lax t).count fun _ => rfl) fun _ => ?_) fun _ => ?_
  · exact blocks.platform t (Platform.statisticsRadioRegisterTxPackage_le _)
  refine .bind (blocks.ackTxUc payload dest allowed) fun r => ?_
  exact .bind (.sec fun t => .when ((blocks.lax t).count fun _ => rfl)) fun _ => .pure _

theorem halowAckFlush : R.Governs halowAckFlush := by
  refine .bind .lock fun _ => .bind (.forEach (fun i => ?_) _) fun _ => .unlock
  refine .bind (.sec fun _ => .read _) fun p => .when ?_
  exact .bind (blocks.aggFlushLocked i) fun _ => .pure _

theorem halowAckTxReady : R.Governs halowAckTxReady := by
  refine .bind (.sec fun _ => .read _) fun cfg => .ite (.pure _) ?_
  refine .bind (.sec fun t => (blocks.lax t).vacancy) fun vacancy => .ite (.pure _) ?_
  refine .bind .lock fun _ => .bind (.sec fun _ => .read _) fun ok => ?_
  exact .bind .unlock fun _ => .pure _

theorem rxData (dst : Option Mac) (evm : Byte) : R.Governs (rxData payload src dst evm) := by
  refine .bind .lock fun _ => .bind (.sec fun t => (blocks.handlers t).data payload src dst evm) fun r => ?_
  refine .bind .unlock fun _ => ?_
  cases r.2 with
  | none => exact .pure _
  | some fids => exact .bind (blocks.sendAck src evm fids) fun _ => .pure _

theorem rxEnv (env : isEnvFrame payload = true) : R.Governs (rxEnv payload src) := by
  unfold Ack.rxEnv
  split
  next ack =>
    refine .bind .lock fun _ => .bind (.sec fun t => (blocks.handlers t).envAck payload src env ack) fun _ => ?_
    exact .bind .unlock fun _ => .pure _
  next =>
    split
    next bundle =>
      refine .bind .lock fun _ => ?_
      refine .bind (.sec fun t => (blocks.handlers t).bundle payload src env bundle) fun consumed => ?_
      exact .bind .unlock fun _ => .pure _
    next => exact .bind (.sec fun t => (blocks.lax t).count fun _ => rfl) fun _ => .pure _

theorem halowAckOnRx (dst : Option Mac) (evm : Byte) :
    R.Governs (halowAckOnRx payload src dst evm) := by
  unfold Ack.halowAckOnRx
  split
  next env =>
    refine .bind (blocks.rxEnv payload src env) fun consumed => ?_
    exact .ite (.pure _) (blocks.rxData payload src dst evm)
  next plain =>
    split
    next ack =>
      have other : isEnvFrame payload = false := Bool.eq_false_iff.mpr plain
      refine .bind (.bind (.sec fun t => (blocks.lax t).count fun _ => rfl) fun _ => ?_) fun _ =>
        .pure _
      refine .bind .lock fun _ => ?_
      exact .bind (.sec fun t => (blocks.handlers t).fidAck payload src other ack) fun _ => .unlock
    next => exact blocks.rxData payload src dst evm

theorem tickServiceBufs : R.Governs (tickServiceBufs now) := by
  refine .bind (.sec fun _ => .read _) fun times => .forEach (fun j => ?_) _
  refine .bind (.sec fun t => ?_) fun due => .when (blocks.bufRetransmitOrDrop now j)
  exact (blocks.lax t).judgeBuf j (blocks.free t) now (blocks.handlers t).drop times.1 times.2

theorem tickFlushHeldBundles : R.Governs (tickFlushHeldBundles now) := by
  refine .forEach (fun i => .bind (.sec fun _ => .read _) fun p => .when ?_) _
  refine .bind (blocks.aggFlushLocked i) fun flushed => ?_
  exact .when (.sec fun t => (blocks.lax t).holdDrop i (blocks.free t) now)

theorem tickFlushDeferredAcks : R.Governs (tickFlushDeferredAcks now) := by
  refine .bind (.sec fun _ => .read _) fun cfg => .when (.forEach (fun i => ?_) _)
  refine .bind (.sec fun t => .bind (.read _) fun cfg => .bind (.read _) fun p => ?_) fun taken => ?_
  · exact .ite (.bind (blocks.due t i fun _ => rfl) fun _ => .pure _) (.pure _)
  cases taken with
  | none => exact .pure ()
  | some due => exact .bind .unlock fun _ => .bind (blocks.sendAck _ _ _) fun _ => .lock

theorem halowAckTick : R.Governs (halowAckTick : Prog (Node ρ) Unit) := by
  refine .bind (.sec fun t => ?_) fun _ => .bind (.sec fun _ => .read _) fun cfg => .when ?_
  · exact blocks.platform t Platform.halowTxVacancyWatchdog_le
  refine .bind (.sec fun t => .bind (blocks.lax t).clock fun now => ?_) fun now => ?_
  · exact .bind .self fun _ => .bind ((blocks.lax t).note rfl) fun _ => .pure _
  refine .bind (.sec blocks.refresh) fun _ => .bind .lock fun _ => ?_
  refine .bind (blocks.tickServiceBufs now) fun _ => ?_
  refine .bind (blocks.tickFlushHeldBundles now) fun _ => ?_
  refine .bind (blocks.tickFlushDeferredAcks now) fun _ => .bind (.sec fun t => ?_) fun _ => .unlock
  exact .forEach (fun i => .bind (.read _) fun p => .when ((blocks.handlers t).stale i)) _

theorem halowAckConfigApply (cfg : Config) (allowed : ok (.configApply cfg)) :
    R.Governs (halowAckConfigApply cfg) := by
  refine .bind (.sec blocks.refresh) fun _ => .bind .lock fun _ => ?_
  refine .bind (.sec fun t => blocks.install t cfg allowed) fun _ => .bind .unlock fun _ => ?_
  refine .bind .lock fun _ => .bind (.sec fun t => (blocks.handlers t).cache) fun _ => .bind .unlock fun _ => ?_
  refine .sec fun t => .bind (.read _) fun live => ?_
  exact blocks.platform t (Platform.halowAckConfigSave_le live)

theorem call (call : Call) (allowed : ok call) : R.Governs call.prog := by
  cases call with
  | tx payload dest => exact .bind (blocks.halowAckTx payload dest allowed) fun _ => .pure _
  | flush => exact .bind blocks.halowAckFlush fun _ => .pure _
  | onRx payload src dst evm =>
    exact .bind (blocks.halowAckOnRx payload src dst evm) fun _ => .pure _
  | tick => exact .bind blocks.halowAckTick fun _ => .pure _
  | txReady => exact .bind blocks.halowAckTxReady fun _ => .pure _
  | configApply cfg => exact .bind (blocks.halowAckConfigApply cfg allowed) fun _ => .pure _

end Blocks

end RnodeHalow.Ack
