import RnodeHalow.Ack.Blocks
import RnodeHalow.Ack.Strokes

set_option autoImplicit false

namespace RnodeHalow.Ack

open Resumption

variable {ρ : Type} [Platform ρ] {α : Type} {ok : Call → Prop}

def LastIs (e : Event) (b b' : Body ρ) : Prop :=
  ∃ n, b'.trace = (n, e) :: b.trace ∧ Aside { b with trace := (n, e) :: b.trace } b'

theorem emit_lastIs (e : Event) (t : Nat) (b : Body ρ) : LastIs e b (emit e t b).2 :=
  ⟨Platform.jiffies b.plat, rfl, .refl _⟩

theorem LastIs.twice {b b1 b2 b3 : Body ρ} {e1 e2 : Event} (first : LastIs e1 b b1)
    (between : Aside b1 b2) (still : b2.trace = b1.trace) (second : LastIs e2 b2 b3) :
    ∃ n1 n2, b3.trace = (n2, e2) :: (n1, e1) :: b.trace ∧
      Aside { b with trace := (n2, e2) :: (n1, e1) :: b.trace } b3 := by
  obtain ⟨n1, trace1, aside1⟩ := first
  obtain ⟨n2, trace2, aside2⟩ := second
  rw [still, trace1] at trace2 aside2
  exact ⟨n1, n2, trace2, (aside1.trans between).retraced aside2⟩

theorem LastIs.strokes {b b1 b2 b3 : Body ρ} {e1 e2 : Event} (dated : Dated ok [e2, e1])
    (first : LastIs e1 b b1) (between : Aside b1 b2) (still : b2.trace = b1.trace)
    (second : LastIs e2 b2 b3) : (strokes ok).rel b b3 := by
  obtain ⟨n1, n2, -, aside⟩ := first.twice between still second
  exact Stroke.single (.dated [(n2, e2), (n1, e1)] dated aside)

theorem bufAlloc_lastIs (state : BufState) (mac : Mac) (cap : Nat) (t : Nat) (b : Body ρ) :
    match (bufAlloc state mac cap t b).1 with
    | none => Aside b (bufAlloc state mac cap t b).2
    | some j => LastIs (.born j) b (bufAlloc state mac cap t b).2 := by
  have later := Platform.osMalloc_le (bufAllocSz cap) b.plat
  cases slot : freeSlot b with
  | none =>
    simp only [bufAlloc, Sec.bind_apply, Sec.read_apply, slot, Sec.pure_apply]
    exact .refl b
  | some j =>
    cases block : (Platform.osMalloc (bufAllocSz cap) b.plat).1 with
    | none =>
      simp only [bufAlloc, Sec.bind_apply, Sec.read_apply, slot, platform, block, Sec.pure_apply]
      exact ⟨rfl, rfl, rfl, rfl, rfl, rfl, rfl, fun _ => rfl, ⟨[], rfl, by simp⟩, later⟩
    | some blk =>
      simp only [bufAlloc, Sec.bind_apply, Sec.read_apply, slot, platform, block, Sec.pure_apply,
        nowJ, emit, Sec.modify_apply]
      exact ⟨_, rfl, rfl, rfl, rfl, rfl, rfl, rfl, rfl, fun _ => rfl, ⟨[], rfl, by simp⟩,
        later.trans (Platform.elapse_le _)⟩

theorem bufAlloc_strokes {state : BufState} {mac : Mac} {cap : Nat}
    {f : Option BufIx → Code ρ α} (none : (strokes ok).Around (f none))
    (some : ∀ j t b b1, LastIs (.born j) b b1 → (strokes ok).rel b (f (some j) t b1).2) :
    (strokes ok).Around (bufAlloc state mac cap >>= f) := by
  intro t b
  rw [Sec.bind_apply]
  have born := bufAlloc_lastIs state mac cap t b
  generalize bufAlloc state mac cap t b = r at born
  obtain ⟨slot, b1⟩ := r
  cases slot with
  | none => exact (strokes ok).trans (Aside.strokes born) (none t b1)
  | some j => exact some j t b b1 born

theorem flushed_strokes {b b3 b4 : Body ρ} {i : PeerIx} {j : BufIx} {n1 n2 : Nat}
    {seq : BitVec 16} {data : List Byte}
    (trace : b3.trace = (n2, .born j) :: (n1, .txStamped j) :: b.trace)
    (dated : Aside { b with trace := (n2, .born j) :: (n1, .txStamped j) :: b.trace } b3)
    (sealed : Aside b3 b4) (t : Nat) : (strokes ok).rel b (emit (.flushed i seq data) t b4).2 := by
  obtain ⟨between, eq, undated⟩ := sealed.trace
  rw [trace] at eq
  refine Stroke.single (.dated ((Platform.jiffies b4.plat, .flushed i seq data) ::
    between ++ [(n2, .born j), (n1, .txStamped j)]) ?_ (dated.retraced ?_))
  · rw [List.cons_append, List.map_cons, List.map_append]
    refine .sealed i j seq data (between.map Prod.snd) fun e member => ?_
    obtain ⟨x, old, rfl⟩ := List.mem_map.mp member
    exact undated x old
  · refine { sealed with trace := ⟨[], ?_, by simp⟩ }
    simp [emit, eq]

theorem strokes_lax : Lax (strokes ok : Frame (Body ρ)) := asides_lax.mono Aside.strokes

theorem halowTxP_strokes (data : List Byte) (dest : Mac) (mcs tid : Byte) :
    (strokes ok).Around (halowTxP data dest mcs tid : Code ρ Int) :=
  asides_strokes (.bind (emit_aside rfl) fun _ =>
    platform_aside (Platform.halowTxP_le data dest mcs tid))

theorem bufRelease_strokes (j : BufIx) : (strokes ok).Around (bufRelease j : Code ρ Unit) :=
  strokes_lax.bufRelease j (asides_strokes (platform_aside Platform.osFree_le))

theorem aggSealNow_strokes (i : PeerIx) (j : BufIx) :
    (strokes ok).Around (aggSealNow i j : Code ρ FlushStart) := by
  refine .bind (.read _) fun p => .bind (strokes_lax.entry i fun _ => ⟨rfl, rfl⟩) fun _ => ?_
  refine .bind strokes_lax.clock fun now => ?_
  have sealing (born : Jiffy) : asides.Around (do
      modifyPeer i fun p => { p with txSeq := (takeSeq p.txSeq).2 }
      bufWrite j 0 (bundleHdr (takeSeq p.txSeq).1 p.aggNsub)
      modifyBuf j fun buf =>
        { buf with
          retriesUsed := 0
          txJiff := now
          bornJiff := born
          seq := (takeSeq p.txSeq).1
          ofs := 0
          len := p.aggLen
          fid := frameFid (buf.data.take p.aggLen) }
      peerNoteTx i p.aggLen
      modifyStats fun st => { st with envTxBundles := st.envTxBundles + 1 } :
      Code ρ Unit) := by
    refine .bind (modifyPeer_aside i fun _ => rfl) fun _ => ?_
    refine .bind (asides_lax.bufWrite j _ _) fun _ => .bind (asides_lax.modifyBuf j _) fun _ => ?_
    exact .bind (asides_lax.peerNoteTx i _) fun _ => modifyStats_aside _
  intro t b
  have stamped := emit_lastIs (.txStamped j) t b
  have born := emit_lastIs (.born j) t (nowJ t (emit (.txStamped j) t b).2).2
  obtain ⟨n1, n2, trace, dated⟩ := stamped.twice (nowJ_aside t _) rfl born
  exact flushed_strokes trace dated (sealing (nowJ t (emit (.txStamped j) t b).2).1 t _) t

theorem aggSeal_strokes (i : PeerIx) : (strokes ok).Around (aggSeal i : Code ρ FlushStart) := by
  refine .bind (.read _) fun agg => ?_
  cases agg with
  | none => exact .pure _
  | some j =>
    refine .bind strokes_lax.vacancy fun vacancy => .ite (.pure _) ?_
    refine .bind (.read _) fun inflight => .bind (.read _) fun window => .ite (.pure _) ?_
    exact aggSealNow_strokes i j

theorem stageOpen_strokes (i : PeerIx) (len : Nat) (dest : Mac) (effPayload : Nat) :
    (strokes ok).Around (stageOpen i len dest effPayload : Code ρ Bool) := by
  refine .bind (.read _) fun agg => ?_
  cases agg with
  | some j => exact .pure _
  | none =>
    refine bufAlloc_strokes (.pure _) fun j t b b1 born => ?_
    have opened : asides.Around (do
        let now ← nowJ
        modifyPeer i fun p =>
          { p with aggIdx := some j, aggLen := ackAggReserve, aggNsub := 0, aggFirstJiff := now } :
        Code ρ Unit) := .bind nowJ_aside fun _ => modifyPeer_aside i fun _ => rfl
    exact born.strokes (.staged i j) (opened t b1) rfl (emit_lastIs (.stamped i) t _)

theorem plainClaim_strokes (i : PeerIx) (payload : List Byte) (dest : Mac)
    (plain : PlainTx ok payload dest) :
    (strokes ok).Around (plainClaim i payload dest : Code ρ (Option BufIx)) := by
  refine .bind strokes_lax.vacancy fun vacancy => .ite (.pure _) ?_
  have alloc : (strokes ok).Around (bufAlloc .inflight dest payload.length >>= fun slot =>
      match slot with
      | none => pure none
      | some j => do
        let now ← nowJ
        emit (.txStamped j)
        bufWrite j 0 payload
        modifyBuf j fun buf =>
          { buf with txJiff := now, ofs := 0, len := payload.length, fid := frameFid payload }
        peerNoteTx i payload.length
        pure (some j) : Code ρ (Option BufIx)) := by
    refine bufAlloc_strokes (.pure _) fun j t b b1 born => ?_
    have dated := Dated.plain j payload dest plain.allowed plain.unicast plain.small plain.large
    have stamped := born.strokes dated (nowJ_aside t b1) rfl (emit_lastIs (.txStamped j) t _)
    exact (strokes ok).trans stamped (asides_strokes (.bind (asides_lax.bufWrite j 0 payload) fun _ =>
      .bind (asides_lax.modifyBuf j _) fun _ => .bind (asides_lax.peerNoteTx i _) fun _ => .pure _) t _)
  intro t b
  rw [Sec.bind_apply, bufClaimInflight, Sec.bind_apply, Sec.bind_apply, Sec.ite_apply]
  split
  · exact .refl
  · exact alloc t b

theorem ackNotePeer_strokes (i : PeerIx) (ackEvm : Byte) :
    (strokes ok).Around (ackNotePeer i ackEvm : Code ρ Unit) := by
  have granted (t : Nat) (b : Body ρ) : (strokes ok).rel b
      { b with peers := Function.update b.peers i { b.peers i with
        curRetries := b.cfg.maxRetries
        evmEwma := ewmaI8 (b.peers i).evmEwma ackEvm 8
        evmEwmaSlow := ewmaI8 (b.peers i).evmEwmaSlow ackEvm 32 } } := tuned_strokes i _ .granted
  exact fun t b => (strokes ok).trans (granted t b) (raOnAck_strokes i t _)

theorem bufAcked_strokes (j : BufIx) (buf : AckBuf) :
    (strokes ok).Around (bufAcked j buf : Code ρ Unit) :=
  strokes_lax.bufAcked j (fun _ _ => asides_strokes (modifyStats_aside _))
    (fun _ _ => Stroke.grown.single) (bufRelease_strokes j) buf

theorem owed_strokes (i : PeerIx) {f : AckPeer → AckPeer} (same : ∀ p, (f p).rating = p.rating) :
    (strokes ok).Around (modifyPeer i f : Code ρ Unit) :=
  asides_strokes (modifyPeer_aside i fun p => rating_dial (same p))

theorem retransmitPrep_strokes (j : BufIx) (now : Jiffy) :
    (strokes ok).Around (retransmitPrep j now : Code ρ (Option Byte)) :=
  strokes_lax.retransmitPrep j bufRelease_strokes now raOnDrop_strokes
    (fun _ => asides_strokes (emit_aside rfl)) (strokes_lax.modifyBuf j _)
    (fun _ _ => Stroke.shed.single) raOnRetrans_strokes

theorem strokes_handlers : Handlers (strokes ok : Frame (Body ρ)) where
  get := peerGet_strokes
  envAck payload _ _ _ := .bind (.read _) fun _ => .ifSome fun i =>
    strokes_lax.rxEnvAckLocked i payload bufAcked_strokes ackNotePeer_strokes
  fidAck payload src _ _ :=
    strokes_lax.rxAckLocked payload src bufAcked_strokes ackNotePeer_strokes
  bundle payload src _ _ := strokes_lax.rxBundleLocked payload src
  data payload src :=
    strokes_lax.rxDataNoted payload src strokes_lax.clock owed_strokes (peerGet_strokes src)
  drop := raOnDrop_strokes
  stale := raCheckStale_strokes
  cache _ _ := Stroke.cached.single

theorem strokes_blocks :
    Blocks ok (strokes ok : Frame (Body ρ)).phases fun _ => () where
  lax _ := strokes_lax
  platform _ _ _ later := asides_strokes (platform_aside later)
  air _ := halowTxP_strokes
  due _ i _ same := owed_strokes i same
  refresh _ := dfltMcsRefresh_strokes
  handlers _ := strokes_handlers
  stage _ := stageOpen_strokes
  blocked t i b _ := aggSeal_strokes i t b
  refused t i payload dest b plain _ := plainClaim_strokes i payload dest plain t b
  install _ := configInstall_strokes
  launch t i b j _ _ := (strokes ok).trans (aggSeal_strokes i t b) (strokes_lax.markSending j t _)
  claim t i payload dest b j plain _ :=
    (strokes ok).trans (plainClaim_strokes i payload dest plain t b) (strokes_lax.markSending j t _)
  again t j now b _ _ :=
    (strokes ok).trans (retransmitPrep_strokes j now t b) (strokes_lax.markSending j t _)
  spent t j now b _ := retransmitPrep_strokes j now t b
  fire t j pmcs b :=
    strokes_lax.sendOut j (asides_strokes (emit_aside rfl)) halowTxP_strokes pmcs t b

theorem Call.strokes (call : Call) (allowed : ok call) :
    (strokes ok).phases.Governs (call.prog : Prog (Node ρ) Result) :=
  strokes_blocks.call call allowed

section Boot

variable (stored : Config) (r : ρ)

@[simp] theorem boot_cfg : (boot stored r).body.cfg = configClamp stored := rfl

@[simp] theorem boot_window : (boot stored r).body.window = (configClamp stored).window := rfl

@[simp] theorem boot_cwnd : (boot stored r).body.cwnd =
    if (configClamp stored).window > 4 then 4 else (configClamp stored).window := rfl

@[simp] theorem boot_cache : (boot stored r).body.cache = cacheOf (configClamp stored) := rfl

@[simp] theorem boot_bufs (j : BufIx) : (boot stored r).body.bufs j = none := rfl

@[simp] theorem boot_peers (i : PeerIx) : (boot stored r).body.peers i = AckPeer.zero := rfl

end Boot

def allowedBy (ok : Call → Prop) (t : Nat) (p : Prog (Node ρ) Result) : Prop :=
  ∃ call : Call, ok call ∧ p = call.prog ∧ (call = .tick → t = 0)

def ReachableBy (ok : Call → Prop) (c : Threads ρ) : Prop :=
  Pool.Reachable (lockedMachine drift) (allowedBy ok)
    (fun s => ∃ stored r, ok (.configApply stored) ∧ s = boot stored r) c

theorem allowedBy.allowed {t : Nat} {p : Prog (Node ρ) Result} (may : allowedBy ok t p) :
    allowed t p := by
  obtain ⟨call, -, eq, ticks⟩ := may
  exact ⟨call, eq, ticks⟩

theorem ReachableBy.reachable {c : Threads ρ} (h : ReachableBy ok c) : Reachable c := by
  refine Pool.Reachable.mono (fun _ _ => allowedBy.allowed) ?_ h
  · rintro s ⟨stored, r, -, eq⟩
    exact ⟨stored, r, eq⟩

theorem Reachable.by_any {c : Threads ρ} (h : Reachable c) : ReachableBy (fun _ => True) c := by
  refine Pool.Reachable.mono ?_ ?_ h
  · rintro t p ⟨call, eq, ticks⟩
    exact ⟨call, trivial, eq, ticks⟩
  · rintro s ⟨stored, r, eq⟩
    exact ⟨stored, r, trivial, eq⟩

def Passed (ok : Call → Prop) (b : Body ρ) : Prop :=
  ∃ stored r, ok (.configApply stored) ∧ (strokes ok).rel (boot stored r).body b

theorem Passed.next {b b' : Body ρ} (passed : Passed ok b) (moved : (strokes ok).rel b b') :
    Passed ok b' := by
  obtain ⟨stored, r, allowed, before⟩ := passed
  exact ⟨stored, r, allowed, (Ack.strokes ok).trans before moved⟩

theorem Passed.keeps {J : Body ρ → Prop} {b : Body ρ} (passed : Passed ok b)
    (first : ∀ stored r, ok (.configApply stored) → J (boot stored r).body)
    (step : ∀ b b', Stroke ok b b' → J b → J b') : J b := by
  obtain ⟨stored, r, allowed, moved⟩ := passed
  have begun := first stored r allowed
  induction moved with
  | refl => exact begun
  | tail _ stroke ih => exact step _ _ stroke ih

theorem ReachableBy.passed {c : Threads ρ} (h : ReachableBy ok c) : Passed ok c.body := by
  have along := Pool.Reachable.along (F := Ack.strokes ok) ?_ ?_ h
  · obtain ⟨_, ⟨stored, r, allowed, rfl⟩, moved⟩ := along
    exact ⟨stored, r, allowed, moved⟩
  · rintro t p ⟨call, allowed, rfl, -⟩
    exact call.strokes allowed
  · rintro b _ ⟨r, later, rfl⟩
    exact Aside.strokes { Aside.refl b with clock := later }

theorem ReachableBy.keeps {J : Body ρ → Prop} {c : Threads ρ} (h : ReachableBy ok c)
    (first : ∀ stored r, ok (.configApply stored) → J (boot stored r).body)
    (step : ∀ b b', Stroke ok b b' → J b → J b') : J c.body := h.passed.keeps first step

end RnodeHalow.Ack
