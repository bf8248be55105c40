import RnodeHalow.Ack.Eviction
import RnodeHalow.Ack.Conduct
import RnodeHalow.Ack.Obligation

set_option autoImplicit false

namespace RnodeHalow.Ack

open Resumption
open Platform (jiffies)
open Function (update update_of_ne)

variable {ρ : Type} [Platform ρ] {b b' : Body ρ} {i : PeerIx} {now : Nat} {mac : Mac}

-- Only the platform may have moved.
structure Quiet (b b' : Body ρ) : Prop where
  peers : b'.peers = b.peers
  cfg : b'.cfg = b.cfg
  cache : b'.cache = b.cache
  trace : b'.trace = b.trace
  looks : b'.looks = b.looks
  clock : jiffies b.plat ≤ jiffies b'.plat

theorem Quiet.refl (b : Body ρ) : Quiet b b := ⟨rfl, rfl, rfl, rfl, rfl, Nat.le_refl _⟩

def quiets : Frame (Body ρ) where
  rel := Quiet
  refl := .refl
  trans first second := {
    peers := second.peers.trans first.peers
    cfg := second.cfg.trans first.cfg
    cache := second.cache.trans first.cache
    trace := second.trace.trans first.trace
    looks := second.looks.trans first.looks
    clock := Nat.le_trans first.clock second.clock }

theorem nowJ_quiet : quiets.Around (nowJ : Code ρ Jiffy) :=
  fun _ b => { Quiet.refl b with clock := Platform.elapse_le b.plat }

theorem peerInitMcs_quiet : quiets.Around (peerInitMcs : Code ρ Byte) := by
  refine .bind (.read _) fun rateAdapt => .ite (.pure _) (.bind ?_ fun _ => .read _)
  refine .bind nowJ_quiet fun now => .bind (.read _) fun _ => .ite (.pure _) fun _ b => ?_
  exact { Quiet.refl b with clock := Platform.halowConfigLoadMcs_le b.plat }

def AckTooOld (b : Body ρ) (i : PeerIx) (now : Nat) : Prop :=
  b.cfg.rateAdapt ≠ 0 ∧ (b.peers i).txMcs ≠ halowMcsDefault ∧ (b.peers i).lastAckJiff ≠ 0#32 ∧
    b.cache.staleJ < BitVec.ofNat 32 now - (b.peers i).lastAckJiff

omit [Platform ρ] in
theorem AckTooOld.congr (peers : b'.peers = b.peers) (cfg : b'.cfg = b.cfg)
    (cache : b'.cache = b.cache) : AckTooOld b' i now ↔ AckTooOld b i now := by
  simp only [AckTooOld, peers, cfg, cache]

theorem peerRateStale_iff (i : PeerIx) (t : Nat) (b : Body ρ) :
    quiets.rel b (peerRateStale i t b).2 ∧ ((peerRateStale i t b).1 = true ↔
      AckTooOld b i (jiffies (peerRateStale i t b).2.plat)) := by
  by_cases own : b.cfg.rateAdapt ≠ 0 ∧ (b.peers i).txMcs ≠ halowMcsDefault
  · by_cases never : (b.peers i).lastAckJiff = 0#32
    · have ran : peerRateStale i t b = (false, b) := by simp [peerRateStale, peerIsStale, own, never]
      rw [ran]
      exact ⟨.refl b, by simp [AckTooOld, never]⟩
    · have judged : peerRateStale i t b = peerIsStale i t b :=
        (Sec.ite_apply _ _ _ t b).trans (if_pos own)
      have late : peerIsStale i t b = (decide (b.cache.staleJ <
          BitVec.ofNat 32 (jiffies (Platform.elapse b.plat)) - (b.peers i).lastAckJiff),
          (nowJ t b).2) := (Sec.ite_apply _ _ _ t b).trans (if_neg never)
      rw [judged, late, decide_eq_true_iff]
      exact ⟨nowJ_quiet t b, fun late => ⟨own.1, own.2, never, late⟩, fun tooOld => tooOld.2.2.2⟩
  · have ran : peerRateStale i t b = (false, b) := by simp [peerRateStale, own]
    rw [ran]
    refine ⟨.refl b, by simp, fun tooOld => absurd ⟨tooOld.1, tooOld.2.1⟩ own⟩

structure Looked (b b' : Body ρ) (i : PeerIx) (mac : Mac) (l : Look) : Prop where
  looks : b'.looks = l :: b.looks
  taken : l.peer = i ∧ l.rateAdapt = b.cfg.rateAdapt ∧ l.before = b.peers i ∧ l.after = b'.peers i
  after : jiffies b.plat ≤ l.time
  before : l.time ≤ jiffies b'.plat
  cache : b'.cache = b.cache
  cleared : AckTooOld b i l.time → b'.trace = (l.time, .forgot i mac) :: b.trace ∧
    (b'.peers i).rxSeqSeen = false ∧ (b'.peers i).rxSeqWin = 0
  kept : ¬ AckTooOld b i l.time → b'.trace = b.trace ∧
    (b'.peers i).rxSeqSeen = (b.peers i).rxSeqSeen ∧ (b'.peers i).rxSeqWin = (b.peers i).rxSeqWin ∧
    (b'.peers i).rxSeqLast = (b.peers i).rxSeqLast

theorem peerGet_found (found : peerFind b mac = some i) (t : Nat) :
    ∃ l, Looked b (peerGet mac t b).2 i mac l := by
  have first : quiets.rel b (peerInitMcs t b).2 := peerInitMcs_quiet t b
  obtain ⟨second, judged⟩ := peerRateStale_iff i t (peerInitMcs t b).2
  have quiet : quiets.rel b (peerRateStale i t (peerInitMcs t b).2).2 := quiets.trans first second
  rw [AckTooOld.congr first.peers first.cfg first.cache] at judged
  simp only [peerGet, Sec.bind_apply, Sec.read_apply, found]
  generalize (peerInitMcs t b).1 = mcs
  generalize (peerRateStale i t (peerInitMcs t b).2).1 = stale at judged ⊢
  generalize (peerRateStale i t (peerInitMcs t b).2).2 = mid at judged quiet ⊢
  have later := Platform.elapse_le mid.plat
  have rateAdapt : mid.cfg.rateAdapt = b.cfg.rateAdapt := congrArg Config.rateAdapt quiet.cfg
  have before : mid.peers i = b.peers i := congrFun quiet.peers i
  cases stale with
  | true =>
    have tooOld := judged.mp rfl
    refine ⟨_, congrArg (List.cons _) quiet.looks, ⟨rfl, rateAdapt, before, rfl⟩, quiet.clock, later,
      quiet.cache, fun _ => ?_, fun fresh => absurd tooOld fresh⟩
    simp [modifyPeer, emit, nowJ, noteLook, platform, quiet.trace]
  | false =>
    have fresh : ¬ AckTooOld b i (jiffies mid.plat) := fun tooOld => by
      cases judged.mpr tooOld
    refine ⟨_, congrArg (List.cons _) quiet.looks, ⟨rfl, rateAdapt, before, rfl⟩, quiet.clock, later,
      quiet.cache, fun tooOld => absurd tooOld fresh, fun _ => ?_⟩
    simp [modifyPeer, nowJ, noteLook, platform, quiet.trace, quiet.peers]

-- What `peer_get` finds of a peer whose receive window it keeps.
def Look.Fresh (l : Look) : Prop :=
  l.rateAdapt = 0 ∨ l.before.txMcs = halowMcsDefault ∨ l.before.lastAckJiff = 0#32 ∨
    BitVec.ofNat 32 l.time - l.before.lastAckJiff ≤ msJ raStaleMs

instance (l : Look) : Decidable l.Fresh := inferInstanceAs (Decidable (_ ∨ _ ∨ _ ∨ _))

structure Look.Judged (l : Look) : Prop where
  kept : l.Fresh → l.after.rxSeqSeen = l.before.rxSeqSeen ∧
    l.after.rxSeqWin = l.before.rxSeqWin ∧ l.after.rxSeqLast = l.before.rxSeqLast
  cleared : ¬ l.Fresh → l.after.rxSeqSeen = false ∧ l.after.rxSeqWin = 0

def forgotten (looks : List Look) : History :=
  (looks.filter fun l => ¬ l.Fresh).map fun l => (l.time, .forgot l.peer l.before.mac)

section Looked

variable {l : Look} (looked : Looked b b' i mac l)
include looked

theorem Looked.fresh_iff (set : b.cache.staleJ = msJ raStaleMs) :
    l.Fresh ↔ ¬ AckTooOld b i l.time := by
  obtain ⟨-, rateAdapt, before, -⟩ := looked.taken
  rw [Look.Fresh, AckTooOld, rateAdapt, before, set, ← BitVec.not_lt]
  tauto

theorem Looked.judged (set : b.cache.staleJ = msJ raStaleMs) : l.Judged := by
  obtain ⟨-, -, before, after⟩ := looked.taken
  have fresh := looked.fresh_iff set
  refine ⟨fun kept => ?_, fun late => ?_⟩
  · rw [before, after]
    exact (looked.kept (fresh.mp kept)).2
  · rw [after]
    exact (looked.cleared (not_not.mp (mt fresh.mpr late))).2

end Looked

-- No ACK is noted, no peer is looked up, and none is forgotten.
structure Abides (b b' : Body ρ) : Prop where
  stamps : ∀ k, (b'.peers k).lastAckJiff = (b.peers k).lastAckJiff
  staleJ : b'.cache.staleJ = b.cache.staleJ
  looks : b'.looks = b.looks
  clock : jiffies b.plat ≤ jiffies b'.plat
  news : Grown (·.forgets = false) b.trace b'.trace

theorem Beside.abides (beside : Beside b b') : Abides b b' :=
  ⟨beside.lastAckJiff, beside.staleJ, beside.looks, beside.clock, beside.news⟩

def abide : Frame (Body ρ) where
  rel := Abides
  refl b := (Beside.refl b).abides
  trans first second := {
    stamps := fun k => (second.stamps k).trans (first.stamps k)
    staleJ := second.staleJ.trans first.staleJ
    looks := second.looks.trans first.looks
    clock := Nat.le_trans first.clock second.clock
    news := first.news.trans second.news }

theorem hushed_abide {α : Type} {m : Code ρ α} (around : hushes.Around m) :
    abide.Around m := fun t b => (around t b).toBeside.abides

theorem modifyPeer_abide (i : PeerIx) {f : AckPeer → AckPeer}
    (same : ∀ p, (f p).lastAckJiff = p.lastAckJiff) :
    abide.Around (modifyPeer i f : Code ρ Unit) := fun _ b =>
  { abide.refl b with
    stamps := entry_rel (R := fun p q => q.lastAckJiff = p.lastAckJiff) (fun _ => rfl)
      (same (b.peers i)) }

theorem abide_tunes : Tunes (abide : Frame (Body ρ)) where
  clock := hushed_abide nowJ_hushed
  count _ := hushed_abide (modifyStats_hushed _)
  tune i _ same := modifyPeer_abide i fun p => (congrArg AckPeer.lastAckJiff (same p) :)
  log _ _ b := { abide.refl b with staleJ := rfl }

theorem raDownStep_abide (i : PeerIx) : abide.Around (raDownStep i : Code ρ Unit) := by
  refine abide_tunes.raDownStep i (.bind abide_tunes.clock fun now => ?_)
  refine .bind (modifyPeer_abide i fun _ => rfl) fun _ => ?_
  exact hushed_abide (hushes_lax.raKickInflight i)

-- An ACK of the peer in entry `i` dates the entry.
structure AckDated (b b' : Body ρ) (i : PeerIx) : Prop where
  others : ∀ k, k ≠ i → (b'.peers k).lastAckJiff = (b.peers k).lastAckJiff
  stamp : ∃ τ, jiffies b.plat ≤ τ ∧ τ ≤ jiffies b'.plat ∧
    (b'.peers i).lastAckJiff = BitVec.ofNat 32 τ
  staleJ : b'.cache.staleJ = b.cache.staleJ
  looks : b'.looks = b.looks
  news : Grown (·.forgets = false) b.trace b'.trace

theorem AckDated.abides {b b' b'' : Body ρ} (dated : AckDated b b' i) (abides : Abides b' b'') :
    AckDated b b'' i where
  others k ne := (abides.stamps k).trans (dated.others k ne)
  stamp := by
    obtain ⟨τ, after, before, eq⟩ := dated.stamp
    exact ⟨τ, after, Nat.le_trans before abides.clock, (abides.stamps i).trans eq⟩
  staleJ := abides.staleJ.trans dated.staleJ
  looks := abides.looks.trans dated.looks
  news := dated.news.trans abides.news

theorem Abides.dated {b b' b'' : Body ρ} (abides : Abides b b') (dated : AckDated b' b'' i) :
    AckDated b b'' i where
  others k ne := (dated.others k ne).trans (abides.stamps k)
  stamp := by
    obtain ⟨τ, after, before, eq⟩ := dated.stamp
    exact ⟨τ, Nat.le_trans abides.clock after, before, eq⟩
  staleJ := dated.staleJ.trans abides.staleJ
  looks := dated.looks.trans abides.looks
  news := abides.news.trans dated.news

theorem raOnAck_dated (i : PeerIx) (t : Nat) (b : Body ρ) : AckDated b (raOnAck i t b).2 i := by
  have rest (q : Body ρ → Prop) [∀ b, Decidable (q b)] (down : Body ρ → Prop)
      [∀ b, Decidable (down b)] : abide.Around (do
        let b ← Sec.read id
        Sec.when (q b) do
          modifyStats fun st => { st with raAckCalls := st.raAckCalls + 1 }
          modifyPeer i fun p =>
            { p with acksSinceStep :=
                if p.acksSinceStep ≠ 0xFFFF#16 then p.acksSinceStep + 1 else p.acksSinceStep }
          if down b then raDownStep i else raUpStep i : Code ρ Unit) := by
    refine .bind (.read _) fun b => .when (.bind (hushed_abide (modifyStats_hushed _)) fun _ => ?_)
    refine .bind (modifyPeer_abide i fun _ => rfl) fun _ => ?_
    exact .ite (raDownStep_abide i) (abide_tunes.raUpStep i)
  let now := jiffies (Platform.elapse b.plat)
  let after : Body ρ := { b with
    plat := Platform.elapse b.plat
    peers := update b.peers i { b.peers i with
      lastAckJiff := BitVec.ofNat 32 now
      lossQ8 := ((b.peers i).lossQ8 * (raEwmaW - 1)) >>> 3 } }
  have dated : AckDated b after i := by
    refine ⟨fun k ne => ?_, ⟨now, Platform.elapse_le _, Nat.le_refl _, ?_⟩, rfl, rfl, .refl _⟩
    · simp [after, update_of_ne ne]
    · simp [after]
  exact dated.abides (rest
    (fun b => b.cfg.rateAdapt ≠ 0 ∧ (after.peers i).txMcs ≠ halowMcsDefault)
    (fun b => (after.peers i).lossQ8 ≥ b.cache.raDownQ8) t after)

theorem ackNotePeer_dated (i : PeerIx) (evm : Byte) (t : Nat) (b : Body ρ) :
    AckDated b (ackNotePeer i evm t b).2 i := by
  have first : abide.Around (modifyPeer i (fun p =>
      { p with
        curRetries := b.cfg.maxRetries
        evmEwma := ewmaI8 p.evmEwma evm 8
        evmEwmaSlow := ewmaI8 p.evmEwmaSlow evm 32 }) : Code ρ Unit) :=
    modifyPeer_abide i fun _ => rfl
  exact (first t b).dated (raOnAck_dated i t _)

def AckNoted (b b' : Body ρ) (src : Mac) : Prop :=
  (∃ i, peerFind b src = some i ∧ AckDated b b' i) ∨ (peerFind b src = none ∧ Abides b b')

theorem rxEnvAckSection_noted (payload : List Byte) (src : Mac) (t : Nat) (b : Body ρ) :
    AckNoted b (rxEnvAckSection payload src t b).2 src := by
  cases found : peerFind b src with
  | none =>
    have ran : rxEnvAckSection payload src t b = ((), b) := by
      simp [rxEnvAckSection, found, Sec.ifSome]
    rw [ran]
    exact .inr ⟨found, abide.refl b⟩
  | some i =>
    have ran : rxEnvAckSection payload src t b = rxEnvAckLocked i payload t b := by
      simp [rxEnvAckSection, found, Sec.ifSome]
    rw [ran]
    refine .inl ⟨i, found, ?_⟩
    have counted : abide.Around (modifyStats _ : Code ρ Unit) :=
      hushed_abide (modifyStats_hushed fun st =>
        { st with
          lastEvm := byteAt payload 3
          acksRxFrames := st.acksRxFrames + 1
          envRxAcks := st.envRxAcks + 1 })
    have scan := hushed_abide ((hushes_lax (ρ := ρ)).envAckScan i bufAcked_hushed (le16 payload 4)
      (ackBitmap payload))
    exact ((counted t b).dated (ackNotePeer_dated i _ t _)).abides (scan t _)

theorem rxAckLocked_noted (payload : List Byte) (src : Mac) (t : Nat) (b : Body ρ) :
    AckNoted b (rxAckLocked payload src t b).2 src := by
  have scan (found : Option PeerIx) (l : List Nat) : abide.Around (Sec.forEach l fun k =>
      Sec.when (le16 payload (3 + 2 * k) ≠ 0) <| rxAckFid src found (le16 payload (3 + 2 * k)) :
      Code ρ Unit) :=
    hushed_abide (.forEach (fun k => .when (hushes_lax.rxAckFid src bufAcked_hushed found _)) l)
  cases found : peerFind b src with
  | none =>
    refine .inr ⟨found, ?_⟩
    simp only [rxAckLocked, Sec.bind_apply, Sec.read_apply, found]
    exact scan none _ t b
  | some i =>
    refine .inl ⟨i, found, ?_⟩
    simp only [rxAckLocked, Sec.bind_apply, Sec.read_apply, found]
    exact (ackNotePeer_dated i _ t b).abides (scan (some i) _ t _)

structure AckRecord (b : Body ρ) : Prop where
  staleJ : b.cache.staleJ = msJ raStaleMs
  looks : ∀ l ∈ b.looks, l.Judged
  clears : b.trace.filter (fun e => e.2.forgets) = forgotten b.looks

omit [Platform ρ] in
theorem AckRecord.kept (h : AckRecord b) (staleJ : b'.cache.staleJ = b.cache.staleJ)
    (looks : b'.looks = b.looks) (news : Grown (·.forgets = false) b.trace b'.trace) :
    AckRecord b' := by
  refine ⟨staleJ.trans h.staleJ, looks ▸ h.looks, ?_⟩
  obtain ⟨new, grown, kept⟩ := news
  have none : new.filter (fun e => e.2.forgets) = [] :=
    List.filter_eq_nil_iff.mpr fun e mem => by simp [kept e mem]
  rw [looks, grown, List.filter_append, none, List.nil_append, h.clears]

theorem Abides.ackRecord (abides : Abides b b') (h : AckRecord b) : AckRecord b' :=
  h.kept abides.staleJ abides.looks abides.news

def ackRecords : Frame (Body ρ) where
  rel b b' := AckRecord b → AckRecord b'
  refl _ := id
  trans first second h := second (first h)

theorem abide_ackRecord {α : Type} {m : Code ρ α} (around : abide.Around m) :
    ackRecords.Around m := fun t b => (around t b).ackRecord

theorem hushed_ackRecord {α : Type} {m : Code ρ α} (around : hushes.Around m) :
    ackRecords.Around m := abide_ackRecord (hushed_abide around)

theorem AckNoted.ackRecord {src : Mac} (noted : AckNoted b b' src) : ackRecords.rel b b' := by
  obtain ⟨i, -, dated⟩ | ⟨-, abides⟩ := noted
  · exact fun h => h.kept dated.staleJ dated.looks dated.news
  · exact abides.ackRecord

theorem peerCreate_ackRecord (mac : Mac) (mcs : Byte) :
    ackRecords.Around (peerCreate mac mcs : Code ρ (Option PeerIx)) := by
  refine .bind (.read _) fun pick => ?_
  cases pick with
  | none => exact .pure none
  | some i =>
    refine .bind (hushed_ackRecord nowJ_hushed) fun created => ?_
    refine .bind (hushed_ackRecord nowJ_hushed) fun seen => .bind (fun _ _ h => { h with }) fun _ => ?_
    exact .bind (hushed_ackRecord (emit_hushed (.opened i mac) rfl rfl)) fun _ => .pure _

theorem Looked.ackRecord {l : Look} (looked : Looked b b' i mac l)
    (found : peerFind b mac = some i) (h : AckRecord b) : AckRecord b' := by
  have fresh := looked.fresh_iff h.staleJ
  obtain ⟨rfl, -, before, -⟩ := looked.taken
  refine ⟨(congrArg Cache.staleJ looked.cache).trans h.staleJ, ?_, ?_⟩
  · rw [looked.looks]
    exact List.forall_mem_cons.mpr ⟨looked.judged h.staleJ, h.looks⟩
  · rw [looked.looks]
    by_cases tooOld : AckTooOld b l.peer l.time
    · have late : ¬ l.Fresh := fun kept => fresh.mp kept tooOld
      have grown : forgotten (l :: b.looks) = (l.time, .forgot l.peer mac) :: forgotten b.looks := by
        simp [forgotten, late, before, (peerFind_some found).2]
      rw [(looked.cleared tooOld).1, List.filter_cons_of_pos rfl, h.clears, grown]
    · have kept := fresh.mpr tooOld
      rw [(looked.kept tooOld).1, h.clears]
      simp [forgotten, kept]

theorem peerGet_ackRecord (mac : Mac) :
    ackRecords.Around (peerGet mac : Code ρ (Option PeerIx)) := by
  intro t b h
  cases found : peerFind b mac with
  | some i =>
    obtain ⟨l, looked⟩ := peerGet_found found t
    exact looked.ackRecord found h
  | none =>
    have ran : peerGet mac t b = peerCreate mac (peerInitMcs t b).1 t (peerInitMcs t b).2 := by
      simp [peerGet, found]
    rw [ran]
    exact peerCreate_ackRecord mac _ t _ (hushed_ackRecord peerInitMcs_hushed t b h)

theorem ackRecords_recollects : Recollects (ackRecords : Frame (Body ρ)) where
  beside moved := moved.abides.ackRecord
  get := peerGet_ackRecord
  envAck payload src _ _ t b := (rxEnvAckSection_noted payload src t b).ackRecord
  fidAck payload src _ _ t b := (rxAckLocked_noted payload src t b).ackRecord
  bundle payload src _ _ := hushed_ackRecord (hushes_lax.rxBundleLocked payload src)
  data payload src :=
    rxDataNoted_around (fun moved => moved.toBeside.abides.ackRecord) payload src peerGet_ackRecord
  drop i := abide_ackRecord (abide_tunes.raOnDrop i (raDownStep_abide i))
  stale i := by
    refine abide_ackRecord (.bind (hushed_abide (hushes_lax.peerRateStale i)) fun _ => .when ?_)
    refine .bind (hushed_abide peerInitMcs_hushed) fun mcs => ?_
    refine .bind (hushed_abide nowJ_hushed) fun now => ?_
    exact modifyPeer_abide i fun _ => rfl
  install c := abide_ackRecord (abide_tunes.configInstall (hushed_abide peerInitMcs_hushed)
    (fun _ => hushed_abide (emit_hushed _ rfl rfl)) (fun _ b => { abide.refl b with staleJ := rfl }) c)
  cache t b h := { h with staleJ := rfl }

theorem boot_ackRecord (stored : Config) (r : ρ) : AckRecord (boot stored r).body := by
  obtain ⟨n, started⟩ := boot_core stored r
  obtain ⟨-, -, noLook⟩ := boot_record stored r
  have begun : (boot stored r).body.trace = [(n, .windowed (configClamp stored).window)] :=
    congrArg Core.trace started
  refine ⟨rfl, by simp [noLook], ?_⟩
  rw [begun, noLook]
  rfl

theorem Reachable.ackRecord {c : Threads ρ} (h : Reachable c) : AckRecord c.body := by
  induction h with
  | start s first =>
    obtain ⟨stored, r, rfl⟩ := first
    exact boot_ackRecord stored r
  | step before move ih => exact ackRecords_recollects.step before move ih

theorem forgot_mem_iff {trace : History} {looks : List Look}
    (clears : trace.filter (fun e => e.2.forgets) = forgotten looks) :
    (now, .forgot i mac) ∈ trace ↔
      ∃ l ∈ looks, ¬ l.Fresh ∧ l.time = now ∧ l.peer = i ∧ l.before.mac = mac := by
  have kept : (now, .forgot i mac) ∈ trace ↔
      (now, .forgot i mac) ∈ trace.filter (fun e => e.2.forgets) := by simp [Event.forgets]
  rw [kept, clears]
  simp [forgotten, and_assoc]

-- The record of the run has every look-up with what it found.
theorem window_kept_iff_fresh :
    (∀ (b : Body ρ) (t : Nat) (mac : Mac) (i : PeerIx), peerFind b mac = some i →
      ∃ l, Looked b (peerGet mac t b).2 i mac l) ∧
    (∀ (b : Body ρ) (t : Nat) (payload : List Byte) (src : Mac),
      AckNoted b (rxEnvAckSection payload src t b).2 src ∧
      AckNoted b (rxAckLocked payload src t b).2 src) ∧
    ∀ c : Threads ρ, Reachable c →
      (∀ l ∈ c.body.looks, l.Judged) ∧
      ∀ mac, (∀ now i, (now, .forgot i mac) ∉ c.body.trace) ↔
        ∀ l ∈ c.body.looks, l.before.mac = mac → l.Fresh := by
  refine ⟨fun b t mac i found => peerGet_found found t, fun b t payload src =>
    ⟨rxEnvAckSection_noted payload src t b, rxAckLocked_noted payload src t b⟩, fun c reach => ?_⟩
  have h := reach.ackRecord
  refine ⟨h.looks, fun mac => ⟨fun never l mem named => ?_, fun fresh now i forgot => ?_⟩⟩
  · by_contra late
    exact never l.time l.peer ((forgot_mem_iff h.clears).mpr ⟨l, mem, late, rfl, rfl, named⟩)
  · obtain ⟨l, mem, late, -, -, named⟩ := (forgot_mem_iff h.clears).mp forgot
    exact late (fresh l mem named)

def bundleArrives (seq : BitVec 16) (blocks : Nat) : List (Move Board) :=
  .start 1 (.onRx (bundleOf seq) remoteMac (some ownMac) 0) :: List.replicate blocks (.resume 1)

def ackArrives : List (Move Board) :=
  .start 1 (.onRx [0xA5, 0x5A, 0x80, 0xFF, 0xFF] remoteMac (some ownMac) 0) ::
    List.replicate 3 (.resume 1)

def tickAnswers : List (Move Board) := .start 0 .tick :: List.replicate 9 (.resume 0)

def ackedEveryMinute : List (Move Board) :=
  bundleArrives 0 5 ++ pause 10 :: tickAnswers ++ pause 10 :: ackArrives ++
    ((List.range 3).flatMap fun k =>
      pause 50000 :: bundleArrives (BitVec.ofNat 16 (k + 1)) 5 ++ pause 10 :: ackArrives ++
        pause 10 :: tickAnswers)

def bundlesKeepArriving : List (Move Board) :=
  bundleArrives 0 5 ++ pause 10 :: tickAnswers ++ pause 10 :: ackArrives ++
    ((List.range 5).flatMap fun k =>
      pause 10000 :: bundleArrives (BitVec.ofNat 16 (k + 1)) 5 ++ pause 10 :: tickAnswers) ++
    pause 10000 :: bundleArrives 6 3

def answersByBitmap (now : Nat) : History → Bool
  | (time, .txP data dest _ tid) :: _ =>
    decide (time = now ∧ dest = remoteMac ∧ tid = 7#8) && (isEnvFrame data && isEnvAck data)
  | _ => false

def windowCleared (seq : BitVec 16) (now : Nat) : History :=
  [(now, .delivered 1 remoteMac (bundleOf seq)), (now, .forgot 0 remoteMac)]

def answersByFid (now : Nat) : History → Bool
  | (time, .txP data dest _ tid) :: _ =>
    decide (time = now ∧ dest = remoteMac ∧ tid = 7#8) && isAckFrame data
  | _ => false

theorem window_kept_iff_fresh_acked : ∃ c : Threads Board,
    playAll ackedEveryMinute quietNode = some c ∧
    (c.body.looks.length = 3 ∧ (∀ l ∈ c.body.looks, l.before.mac = remoteMac → l.Fresh) ∧
      (c.body.peers 0).rxSeqSeen = true ∧ answersByBitmap 250080 c.body.trace = true ∧
      ∃ c' ∈ playAll (pause 60001 :: bundleArrives 4 4) c,
        (310081, .forgot 0 remoteMac) ∈ c'.body.trace ∧ (c'.body.peers 0).rxSeqSeen = false) ∧
    ∀ now i, (now, .forgot i remoteMac) ∉ c.body.trace := by
  refine played_then (by decide +kernel) fun c reach ⟨_, fresh, _⟩ => ?_
  exact ((window_kept_iff_fresh.2.2 c reach).2 remoteMac).mpr fresh

theorem window_cleared_bundlesKeepArriving : ∃ c : Threads Board,
    playAll bundlesKeepArriving quietNode = some c ∧ Reachable c ∧
    (c.body.peers 0).rxSeqSeen = true ∧
    (150060, .delivered 1 remoteMac (bundleOf 5)) ∈ c.body.trace ∧
    ¬ 150060 + raStaleMs < 160070 ∧
    ∃ c' ∈ playAll [.resume 1] c,
      c'.body.trace = windowCleared 6 160070 ++ c.body.trace ∧
      (c'.body.peers 0).rxSeqSeen = false ∧
      ∃ c'' ∈ playAll (.resume 1 :: pause 10 :: tickAnswers) c',
        answersByFid 160080 c''.body.trace = true :=
  played (by decide +kernel)

end RnodeHalow.Ack
