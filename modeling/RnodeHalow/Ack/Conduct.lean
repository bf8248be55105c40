import RnodeHalow.Ack.Blocks
import RnodeHalow.Ack.Service

set_option autoImplicit false

namespace RnodeHalow.Ack

open Resumption
open Platform (jiffies)

variable {ρ : Type} [Platform ρ] {α β φ : Type}

structure Memory where
  inUse : Bool
  mac : Mac
  txMcs : Byte
  failedTop : Byte
  lastCollapseJiff : Jiffy
  lastAckJiff : Jiffy

def AckPeer.memory (p : AckPeer) : Memory :=
  ⟨p.inUse, p.mac, p.txMcs, p.failedTop, p.lastCollapseJiff, p.lastAckJiff⟩

def Event.forgets : Event → Bool
  | .forgot _ _ => true
  | _ => false

-- Neither rates nor ACK stamps change, and no peer is looked up or forgotten.
structure Beside (b b' : Body ρ) : Prop where
  memory : ∀ i, (b'.peers i).memory = (b.peers i).memory
  staleJ : b'.cache.staleJ = b.cache.staleJ
  looks : b'.looks = b.looks
  clock : jiffies b.plat ≤ jiffies b'.plat
  news : Grown (·.forgets = false) b.trace b'.trace

namespace Beside

theorem refl (b : Body ρ) : Beside b b := ⟨fun _ => rfl, rfl, rfl, Nat.le_refl _, .refl _⟩

theorem trans {a b c : Body ρ} (first : Beside a b) (second : Beside b c) : Beside a c where
  memory i := (second.memory i).trans (first.memory i)
  staleJ := second.staleJ.trans first.staleJ
  looks := second.looks.trans first.looks
  clock := Nat.le_trans first.clock second.clock
  news := first.news.trans second.news

section Fields

variable {b b' : Body ρ} (beside : Beside b b') (i : PeerIx)
include beside

theorem txMcs : (b'.peers i).txMcs = (b.peers i).txMcs := congrArg Memory.txMcs (beside.memory i)
theorem failedTop : (b'.peers i).failedTop = (b.peers i).failedTop :=
  congrArg Memory.failedTop (beside.memory i)
theorem lastCollapseJiff : (b'.peers i).lastCollapseJiff = (b.peers i).lastCollapseJiff :=
  congrArg Memory.lastCollapseJiff (beside.memory i)
theorem lastAckJiff : (b'.peers i).lastAckJiff = (b.peers i).lastAckJiff :=
  congrArg Memory.lastAckJiff (beside.memory i)

end Fields

end Beside

def besides : Frame (Body ρ) := ⟨Beside, Beside.refl, Beside.trans⟩

def Event.fires : Event → Bool
  | .sent _ => true
  | .txSampled _ _ => true
  | _ => false

-- Moreover no frame is sent or sent again.
structure Hushed (b b' : Body ρ) : Prop extends Beside b b' where
  silent : Grown (·.fires = false) b.trace b'.trace

theorem Hushed.refl (b : Body ρ) : Hushed b b := ⟨Beside.refl b, .refl _⟩

theorem Hushed.trans {a b c : Body ρ} (first : Hushed a b) (second : Hushed b c) : Hushed a c :=
  ⟨first.toBeside.trans second.toBeside, first.silent.trans second.silent⟩

def hushes : Frame (Body ρ) := ⟨Hushed, Hushed.refl, Hushed.trans⟩

theorem modify_hushed {f : Body ρ → Body ρ} (same : ∀ b, Hushed b (f b)) :
    hushes.Around (Sec.modify f) := fun _ => same

theorem platform_hushed {op : ρ → α × ρ}
    (later : ∀ r, jiffies r ≤ jiffies (op r).2) :
    hushes.Around (platform op) := fun _ b => { Hushed.refl b with clock := later b.plat }

theorem emit_hushed (e : Event) (kept : e.forgets = false) (silent : e.fires = false) :
    hushes.Around (emit e : Code ρ Unit) :=
  modify_hushed fun b =>
    { Hushed.refl b with
      news := .one kept _ _
      silent := .one silent _ _ }

theorem hushed_beside {m : Code ρ α} (around : hushes.Around m) : besides.Around m :=
  fun t b => (around t b).toBeside

theorem emit_beside (e : Event) (kept : e.forgets = false) :
    besides.Around (emit e : Code ρ Unit) :=
  fun _ b => { Beside.refl b with news := .one kept _ _ }

theorem modifyStats_hushed (f : Stats → Stats) : hushes.Around (modifyStats f : Code ρ Unit) :=
  modify_hushed fun b => { Hushed.refl b with staleJ := rfl }

theorem modifyPeer_hushed (i : PeerIx) {f : AckPeer → AckPeer}
    (same : ∀ p, (f p).memory = p.memory) :
    hushes.Around (modifyPeer i f : Code ρ Unit) := by
  refine modify_hushed fun b => { Hushed.refl b with memory := ?_ }
  exact entry_rel (R := fun p q => q.memory = p.memory) (fun _ => rfl) (same (b.peers i))

theorem rating_memory {p q : AckPeer} (same : q.rating = p.rating) : q.memory = p.memory :=
  congrArg (fun a : Rating => Memory.mk a.inUse a.mac a.txMcs a.failedTop a.lastCollapseJiff
    a.lastAckJiff) same

theorem hushes_lax : Lax (hushes : Frame (Body ρ)) where
  vacancy := platform_hushed Platform.halowGetTxVacancy_le
  note {e} plain := emit_hushed e (by cases e <;> trivial) (by cases e <;> trivial)
  count _ := modifyStats_hushed _
  entry i _ same := modifyPeer_hushed i fun p => rating_memory (same p).1
  clock := platform_hushed Platform.elapse_le
  timeS := platform_hushed Platform.timeS_le
  malloc _ := platform_hushed (Platform.osMalloc_le _)
  store same := modify_hushed fun b => by
    rw [same b]
    exact { Hushed.refl b with staleJ := rfl }

variable (i : PeerIx) (j : BufIx)

theorem bufRelease_hushed : hushes.Around (bufRelease j : Code ρ Unit) :=
  hushes_lax.bufRelease j (platform_hushed Platform.osFree_le)

theorem born_hushed : hushes.Around (emit (.born j) : Code ρ Unit) := emit_hushed _ rfl rfl

theorem stamped_hushed : hushes.Around (emit (.txStamped j) : Code ρ Unit) :=
  emit_hushed _ rfl rfl

theorem halowTxP_hushed (data : List Byte) (dest : Mac) (mcs tid : Byte) :
    hushes.Around (halowTxP data dest mcs tid : Code ρ Int) :=
  .bind (emit_hushed _ rfl rfl) fun _ => platform_hushed (Platform.halowTxP_le data dest mcs tid)

theorem sendOut_beside (pmcs : Byte) : besides.Around (sendOut j pmcs : Code ρ Unit) := by
  have lax : Lax (besides : Frame (Body ρ)) := hushes_lax.mono Hushed.toBeside
  refine lax.sendOut j (emit_beside _ rfl) (fun data dest mcs tid => ?_) pmcs
  exact hushed_beside (halowTxP_hushed data dest mcs tid)

theorem nowJ_hushed : hushes.Around (nowJ : Code ρ Jiffy) :=
  platform_hushed Platform.elapse_le

theorem dfltMcsRefresh_hushed : hushes.Around (dfltMcsRefresh : Code ρ Unit) := by
  refine .bind nowJ_hushed fun now => .bind (.read _) fun _ => .ite (.pure _) ?_
  refine .bind (platform_hushed Platform.halowConfigLoadMcs_le) fun mcs => ?_
  exact modify_hushed fun b => { Hushed.refl b with staleJ := rfl }

theorem peerInitMcs_hushed : hushes.Around (peerInitMcs : Code ρ Byte) :=
  .bind (.read _) fun _ => .ite (.pure _) (.bind dfltMcsRefresh_hushed fun _ => .read _)

theorem cwndOnRetransTimeout_hushed : hushes.Around (cwndOnRetransTimeout : Code ρ Unit) :=
  modify_hushed fun b => { Hushed.refl b with staleJ := rfl }

theorem bufAcked_hushed (buf : AckBuf) : hushes.Around (bufAcked j buf : Code ρ Unit) :=
  hushes_lax.bufAcked j (fun _ _ => modifyStats_hushed _)
    (modify_hushed fun b => { Hushed.refl b with staleJ := rfl }) (bufRelease_hushed j) buf

theorem raOnRetrans_hushed : hushes.Around (raOnRetrans i : Code ρ Unit) :=
  .bind (hushes_lax.raInGrace i) fun _ => .when (modifyPeer_hushed i fun _ => rfl)

theorem owed_hushed (i : PeerIx) {f : AckPeer → AckPeer} (same : ∀ p, (f p).rating = p.rating) :
    hushes.Around (modifyPeer i f : Code ρ Unit) :=
  modifyPeer_hushed i fun p => rating_memory (same p)

section Frames

variable {F : Frame (Body ρ)} (hushed : ∀ {b b' : Body ρ}, Hushed b b' → F.rel b b')
  (payload : List Byte) (src : Mac)
include hushed

theorem rxDataNoted_around (get : ∀ mac, F.Around (peerGet mac)) (dst : Option Mac) (evm : Byte) :
    F.Around (rxDataNoted payload src dst evm) := by
  have lax : Lax F := hushes_lax.mono hushed
  refine lax.rxDataNoted payload src lax.clock ?_ (get src) dst evm
  exact fun i _ same t b => hushed (owed_hushed i same t b)

variable (noted : ∀ i evm, F.Around (ackNotePeer i evm))
include noted

theorem rxEnvAckSection_around : F.Around (rxEnvAckSection payload src) :=
  .bind (.read _) fun _ => .ifSome fun i => (hushes_lax.mono hushed).rxEnvAckLocked i payload
    (fun j buf t b => hushed (bufAcked_hushed j buf t b)) noted

theorem rxAckLocked_around : F.Around (rxAckLocked payload src) :=
  (hushes_lax.mono hushed).rxAckLocked payload src
    (fun j buf t b => hushed (bufAcked_hushed j buf t b)) noted

end Frames

section Growth

variable {P : Event → Prop} (calm : ∀ e : Event, e.calm = true → P e)
  (plain : ∀ e : Event, e.plain = true → P e)
include calm plain

theorem growth_handlers : Handlers (growth P : Frame (Body ρ)) := by
  have lax : Lax (growth P : Frame (Body ρ)) := growth_lax plain
  have get (mac : Mac) : (growth P).Around (peerGet mac : Code ρ (Option PeerIx)) :=
    (peerGet_calm mac).growth calm
  have noted (i : PeerIx) (evm : Byte) : (growth P).Around (ackNotePeer i evm : Code ρ Unit) :=
    (ackNotePeer_calm i evm).growth calm
  have acked (j : BufIx) : ∀ buf, (growth P).Around (bufAcked j buf : Code ρ Unit) :=
    lax.bufAcked j (fun _ _ => growth_modify fun _ => rfl) (growth_modify fun _ => rfl)
      (lax.bufRelease j (growth_platform _))
  exact {
    get := get
    envAck := fun payload src _ _ => .bind (.read _) fun _ => .ifSome fun i =>
      lax.rxEnvAckLocked i payload acked noted
    fidAck := fun payload src _ _ => lax.rxAckLocked payload src acked noted
    bundle := fun payload src _ _ => lax.rxBundleLocked payload src
    data := fun payload src => lax.rxDataNoted payload src lax.clock
      (fun i _ _ => growth_modifyPeer i _) (get src)
    drop := fun i => (raOnDrop_calm i).growth calm
    stale := fun i => (raCheckStale_still i).calm.growth calm
    cache := growth_modify fun _ => rfl }

theorem growth_install (cfg : Config) : (growth P).Around (configInstall cfg : Code ρ Unit) := by
  refine .bind (growth_modify fun _ => rfl) fun _ => .bind (growth_emit (plain _ rfl)) fun _ => ?_
  exact .forEach (fun i => (configApplyPeer_still cfg i).calm.growth calm) _

end Growth

structure Conduct (R : Phases φ (Body ρ)) (aims : BufIx → φ) : Prop where
  hushed : ∀ {t : Nat} {b b' : Body ρ}, Hushed b b' → R.rel t R.idle b R.idle b'
  handlers : ∀ t, Handlers (R.quiet t)
  install : ∀ t c, (R.quiet t).Around (configInstall c : Code ρ Unit)
  launch : ∀ t i (b : Body ρ) j pmcs, (aggSeal i t b).1 = .sealed j pmcs →
    R.rel t R.idle b (aims j) (markSending j t (aggSeal i t b).2).2
  claim : ∀ t i payload dest (b : Body ρ) j, (plainClaim i payload dest t b).1 = some j →
    R.rel t R.idle b (aims j) (markSending j t (plainClaim i payload dest t b).2).2
  again : ∀ t j now (b : Body ρ) mcs, (retransmitPrep j now t b).1 = some mcs →
    R.rel t R.idle b (aims j) (markSending j t (retransmitPrep j now t b).2).2
  spent : ∀ t j now (b : Body ρ), (retransmitPrep j now t b).1 = none →
    R.rel t R.idle b R.idle (retransmitPrep j now t b).2
  fire : ∀ t j pmcs (b : Body ρ), R.rel t (aims j) b R.idle (sendOut j pmcs t b).2

namespace Conduct

variable {R : Phases φ (Body ρ)} {aims : BufIx → φ} (conduct : Conduct R aims)
include conduct

theorem sec {m : Code ρ α} (around : hushes.Around m) (t : Nat) : (R.quiet t).Around m :=
  fun u b => conduct.hushed (around u b)

theorem blocks : Blocks (fun _ => True) R aims where
  lax _ := hushes_lax.mono conduct.hushed
  platform t _ _ later := conduct.sec (platform_hushed later) t
  air t data dest mcs tid := conduct.sec (halowTxP_hushed data dest mcs tid) t
  due t i _ same := conduct.sec (owed_hushed i same) t
  refresh := conduct.sec dfltMcsRefresh_hushed
  handlers := conduct.handlers
  stage t i len dest effPayload :=
    conduct.sec (hushes_lax.stageOpen i dest born_hushed len effPayload) t
  blocked t i b _ := conduct.sec (hushes_lax.aggSeal i born_hushed stamped_hushed) t t b
  refused t i payload dest b _ _ :=
    conduct.sec (hushes_lax.plainClaim i payload dest born_hushed stamped_hushed) t t b
  install t _ _ := conduct.install t _
  launch := conduct.launch
  claim t i payload dest b j _ slot := conduct.claim t i payload dest b j slot
  again := conduct.again
  spent := conduct.spent
  fire := conduct.fire

theorem call (call : Call) : R.Governs call.prog := conduct.blocks.call call trivial

end Conduct

structure Recollects (F : Frame (Body ρ)) : Prop extends Handlers F where
  beside : ∀ {b b' : Body ρ}, Beside b b' → F.rel b b'
  install : ∀ c, F.Around (configInstall c)

namespace Recollects

variable {F : Frame (Body ρ)} (rec : Recollects F)
include rec

theorem sec {m : Code ρ α} (around : hushes.Around m) : F.Around m :=
  fun t b => rec.beside (around t b).toBeside

theorem retransmitPrep (j : BufIx) (now : Jiffy) : F.Around (retransmitPrep j now) := by
  have lax : Lax F := hushes_lax.mono fun moved => rec.beside moved.toBeside
  refine lax.retransmitPrep j (fun j => rec.sec (bufRelease_hushed j)) now rec.drop (fun u t b => ?_)
    (lax.modifyBuf j _) (rec.sec cwndOnRetransTimeout_hushed) fun i => rec.sec (raOnRetrans_hushed i)
  exact rec.beside (emit_beside _ rfl t b)

theorem mark {m : Code ρ α} (around : F.Around m) (j : BufIx) (t : Nat) (b : Body ρ) :
    F.rel b (markSending j t (m t b).2).2 :=
  F.trans (around t b) (rec.sec (hushes_lax.markSending j) t _)

theorem conduct : Conduct F.phases fun _ => () where
  hushed moved := rec.beside moved.toBeside
  handlers _ := rec.toHandlers
  install _ := rec.install
  launch t i b j _ _ := rec.mark (rec.sec (hushes_lax.aggSeal i born_hushed stamped_hushed)) j t b
  claim t i payload dest b j _ :=
    rec.mark (rec.sec (hushes_lax.plainClaim i payload dest born_hushed stamped_hushed)) j t b
  again t j now b _ _ := rec.mark (rec.retransmitPrep j now) j t b
  spent t j now b _ := rec.retransmitPrep j now t b
  fire t j pmcs b := rec.beside (sendOut_beside j pmcs t b)

theorem step {c c' : Threads ρ} (h : Reachable c)
    (step : Pool.Step (lockedMachine drift) allowed c c') :
    F.rel c.body c'.body := by
  refine Pool.Reachable.step_along ?_ ?_ h step
  · rintro t p ⟨call, rfl, -⟩
    exact rec.conduct.call call
  · rintro b _ ⟨r, later, rfl⟩
    exact rec.beside { Beside.refl b with clock := later }

end Recollects

end RnodeHalow.Ack
