import RnodeHalow.Ack.Walks

set_option autoImplicit false

namespace RnodeHalow.Ack

open Resumption
open Function (update update_of_ne update_self)
open Platform (jiffies elapse)

variable {ρ : Type} [Platform ρ] {α β : Type}

structure Dial where
  inUse : Bool
  mac : Mac
  curRetries : Nat
  txMcs : Byte
  lossQ8 : Nat
  nextStepAllowed : Jiffy

def AckPeer.dial (p : AckPeer) : Dial :=
  ⟨p.inUse, p.mac, p.curRetries, p.txMcs, p.lossQ8, p.nextStepAllowed⟩

def Event.dates : Event → Bool
  | .born _ => true
  | .txStamped _ => true
  | _ => false

def initMcs (b : Body ρ) : Byte := if b.cfg.rateAdapt = 0 then halowMcsDefault else dfltMcs b

-- Configuration, window and dials stay; slots and platform may change.
structure Aside (b b' : Body ρ) : Prop where
  cfg : b'.cfg = b.cfg
  window : b'.window = b.window
  cwnd : b'.cwnd = b.cwnd
  cache : b'.cache = b.cache
  dfltMcsCache : b'.dfltMcsCache = b.dfltMcsCache
  loaded : b'.loaded = b.loaded
  downshifts : b'.downshifts = b.downshifts
  dials : ∀ i, (b'.peers i).dial = (b.peers i).dial
  trace : Grown (·.dates = false) b.trace b'.trace
  clock : jiffies b.plat ≤ jiffies b'.plat

namespace Aside

theorem refl (b : Body ρ) : Aside b b :=
  ⟨rfl, rfl, rfl, rfl, rfl, rfl, rfl, fun _ => rfl, ⟨[], rfl, by simp⟩, Nat.le_refl _⟩

theorem trans {a b c : Body ρ} (first : Aside a b) (second : Aside b c) : Aside a c where
  cfg := second.cfg.trans first.cfg
  window := second.window.trans first.window
  cwnd := second.cwnd.trans first.cwnd
  cache := second.cache.trans first.cache
  dfltMcsCache := second.dfltMcsCache.trans first.dfltMcsCache
  loaded := second.loaded.trans first.loaded
  downshifts := second.downshifts.trans first.downshifts
  dials i := (second.dials i).trans (first.dials i)
  trace := first.trace.trans second.trace
  clock := first.clock.trans second.clock

theorem retraced {a b c : Body ρ} {older newer : History}
    (first : Aside { a with trace := older } b) (second : Aside { b with trace := newer } c) :
    Aside { a with trace := newer } c := by
  have stays : Aside { a with trace := newer } { b with trace := newer } :=
    { first with trace := ⟨[], rfl, by simp⟩ }
  exact stays.trans second

theorem initMcs {b b' : Body ρ} (aside : Aside b b') : initMcs b' = initMcs b := by
  simp only [Ack.initMcs, dfltMcs, aside.cfg, aside.dfltMcsCache]

end Aside

def asides : Frame (Body ρ) := ⟨Aside, Aside.refl, Aside.trans⟩

inductive Stepped (b : Body ρ) (τ n : Nat) (d : Dial) : Dial → Prop
  | down : d.txMcs ≠ halowMcsDefault → raFloor b < d.txMcs →
      d.nextStepAllowed ≤ BitVec.ofNat 32 τ →
      Stepped b τ n d { d with
        txMcs := d.txMcs - 1
        nextStepAllowed := BitVec.ofNat 32 n + b.cache.stepGapJ }
  | up : d.txMcs < raMaxMcs → d.nextStepAllowed ≤ BitVec.ofNat 32 τ →
      Stepped b τ n d { d with
        txMcs := d.txMcs + 1
        nextStepAllowed := BitVec.ofNat 32 n + b.cache.stepGapJ }

inductive Restarted (b : Body ρ) (d : Dial) : Dial → Prop
  | opened (mac : Mac) : Restarted b d ⟨true, mac, b.cfg.maxRetries, initMcs b, 0, 0⟩
  | reset (next : Jiffy) : Restarted b d
      { d with txMcs := initMcs b, lossQ8 := 0, nextStepAllowed := next }
  | rearmed : Restarted b d { d with nextStepAllowed := 0 }

inductive Tuned (b : Body ρ) (d : Dial) : Dial → Prop
  | restarted {d' : Dial} : Restarted b d d' → Tuned b d d'
  | granted : Tuned b d { d with curRetries := b.cfg.maxRetries }
  | measured (q : Nat) : (d.lossQ8 ≤ 255 → q ≤ 255) → Tuned b d { d with lossQ8 := q }

def downshifted (i : PeerIx) (b : Body ρ) (mcs : Byte) : List DownStep :=
  if mcs < (b.peers i).txMcs then
    ⟨i, (b.peers i).txMcs, raFloor b, configuredMcs b⟩ :: b.downshifts
  else b.downshifts

-- The dated events one section adds, newest first.
inductive Dated (ok : Call → Prop) : List Event → Prop
  | staged (i : PeerIx) (j : BufIx) : Dated ok [.stamped i, .born j]
  | sealed (i : PeerIx) (j : BufIx) (seq : BitVec 16) (data : List Byte) (between : List Event) :
      (∀ e ∈ between, e.dates = false) →
      Dated ok (.flushed i seq data :: between ++ [.born j, .txStamped j])
  | plain (j : BufIx) (payload : List Byte) (dest : Mac) : ok (.tx payload dest) →
      isBroadcast dest = false → payload.length ≤ ackWireMax →
      ackWireMax < payload.length + (envBundleHdr + 2) → Dated ok [.txStamped j, .born j]

-- One move of configuration, window, cached rate, a dial or the dated events.
inductive Stroke (ok : Call → Prop) (b : Body ρ) : Body ρ → Prop
  | aside {b' : Body ρ} : Aside b b' → Stroke ok b b'
  | grown : Stroke ok b { b with cwnd := if b.cwnd < b.window then b.cwnd + 1 else b.cwnd }
  | shed : Stroke ok b { b with cwnd := cwndShed b.cfg.window b.cwnd }
  | installed (cfg : Config) : ok (.configApply cfg) → Stroke ok b { b with
      cfg := configClamp cfg
      window := (configClamp cfg).window
      cwnd := if b.cwnd > (configClamp cfg).window then (configClamp cfg).window else b.cwnd }
  | cached : Stroke ok b { b with cache := cacheOf b.cfg }
  | refreshed {b' : Body ρ} : Aside { b with
      dfltMcsCache := configuredMcs b
      loaded := configuredMcs b :: b.loaded } b' → Stroke ok b b'
  | tuned (i : PeerIx) (p : AckPeer) {b' : Body ρ} : Tuned b (b.peers i).dial p.dial →
      Aside { b with peers := update b.peers i p } b' → Stroke ok b b'
  | stepped (i : PeerIx) (p : AckPeer) (τ : Nat) {b' : Body ρ} : jiffies b.plat ≤ τ →
      τ ≤ jiffies b'.plat →
      Stepped b τ (jiffies b'.plat) (b.peers i).dial p.dial →
      Aside { b with
        peers := update b.peers i p
        downshifts := downshifted i b p.txMcs } b' → Stroke ok b b'
  | dated (news : History) {b' : Body ρ} : Dated ok (news.map Prod.snd) →
      Aside { b with trace := news ++ b.trace } b' → Stroke ok b b'

def strokes (ok : Call → Prop) : Frame (Body ρ) :=
  ⟨Relation.ReflTransGen (Stroke ok), fun _ => .refl, .trans⟩

variable {ok : Call → Prop}

variable {b b' : Body ρ} {f : AckPeer → AckPeer}

theorem Stroke.single (stroke : Stroke ok b b') : (strokes ok).rel b b' :=
  .single stroke

theorem Aside.strokes (aside : Aside b b') : (strokes ok).rel b b' :=
  (Stroke.aside aside).single

theorem asides_strokes {m : Code ρ α} (around : asides.Around m) :
    (strokes ok).Around m := fun t b => (around t b).strokes

theorem Stroke.dial (stroke : Stroke ok b b') (i : PeerIx) :
    (b'.peers i).dial = (b.peers i).dial ∨ Tuned b (b.peers i).dial (b'.peers i).dial ∨
      ∃ τ, Stepped b τ (jiffies b'.plat) (b.peers i).dial (b'.peers i).dial := by
  cases stroke with
  | aside aside | refreshed aside | dated _ _ aside => exact .inl (aside.dials i)
  | grown | shed | installed _ _ | cached => exact .inl rfl
  | tuned k p tuned aside =>
    rw [aside.dials i]
    dsimp only
    by_cases here : i = k
    · subst here
      rw [update_self]
      exact .inr (.inl tuned)
    · rw [update_of_ne here]
      exact .inl rfl
  | stepped k p τ _ _ steps aside =>
    rw [aside.dials i]
    dsimp only
    by_cases here : i = k
    · subst here
      rw [update_self]
      exact .inr (.inr ⟨τ, steps⟩)
    · rw [update_of_ne here]
      exact .inl rfl

theorem Stroke.cfg (stroke : Stroke ok b b') :
    b'.cfg = b.cfg ∨ ∃ cfg, ok (.configApply cfg) ∧ b'.cfg = configClamp cfg := by
  cases stroke with
  | aside aside | refreshed aside | tuned _ _ _ aside | stepped _ _ _ _ _ _ aside
  | dated _ _ aside => exact .inl aside.cfg
  | grown | shed | cached => exact .inl rfl
  | installed cfg allowed => exact .inr ⟨cfg, allowed, rfl⟩

theorem modify_aside {f : Body ρ → Body ρ} (same : ∀ b, Aside b (f b)) :
    asides.Around (Sec.modify f) := fun _ => same

theorem platform_aside {op : ρ → α × ρ}
    (later : ∀ r, jiffies r ≤ jiffies (op r).2) :
    asides.Around (platform op) := fun _ b => { Aside.refl b with clock := later b.plat }

theorem emit_aside {e : Event} (undated : e.dates = false) :
    asides.Around (emit e : Code ρ Unit) := by
  intro t b
  refine { Aside.refl b with trace := ⟨[(jiffies b.plat, e)], rfl, ?_⟩ }
  intro e' member
  rw [List.mem_singleton.mp member]
  exact undated

theorem modifyStats_aside (f : Stats → Stats) :
    asides.Around (modifyStats f : Code ρ Unit) := fun _ b => { Aside.refl b with cfg := rfl }

variable (i : PeerIx)

theorem setPeer_aside {i : PeerIx} {p : AckPeer} (same : p.dial = (b.peers i).dial) :
    Aside b { b with peers := update b.peers i p } := by
  refine { Aside.refl b with dials := ?_ }
  exact entry_rel (R := fun p q => q.dial = p.dial) (fun _ => rfl) same

theorem modifyPeer_aside (same : ∀ p, (f p).dial = p.dial) :
    asides.Around (modifyPeer i f : Code ρ Unit) :=
  fun _ b => setPeer_aside (same (b.peers i))

theorem rating_dial {p q : AckPeer} (same : q.rating = p.rating) : q.dial = p.dial :=
  congrArg (fun a : Rating => Dial.mk a.inUse a.mac a.curRetries a.txMcs a.lossQ8
    a.nextStepAllowed) same

theorem asides_lax : Lax (asides : Frame (Body ρ)) where
  vacancy := platform_aside Platform.halowGetTxVacancy_le
  note {e} plain := emit_aside (by cases e <;> trivial)
  count _ := modifyStats_aside _
  entry i _ same := modifyPeer_aside i fun p => rating_dial (same p).1
  clock := platform_aside Platform.elapse_le
  timeS := platform_aside Platform.timeS_le
  malloc _ := platform_aside (Platform.osMalloc_le _)
  store same := modify_aside fun b => by
    rw [same b]
    exact { Aside.refl b with cfg := rfl }

theorem nowJ_aside : asides.Around (nowJ : Code ρ Jiffy) := platform_aside Platform.elapse_le

theorem dfltMcsRefresh_strokes : (strokes ok).Around (dfltMcsRefresh : Code ρ Unit) := by
  refine .bind (asides_strokes nowJ_aside) fun now => .bind (.read _) fun _ => .ite (.pure _) ?_
  refine fun t b => (Stroke.refreshed ?_).single
  have later := Platform.halowConfigLoadMcs_le b.plat
  exact ⟨rfl, rfl, rfl, rfl, rfl, rfl, rfl, fun _ => rfl, ⟨[], rfl, by simp⟩, later⟩

def keepsCfg : Frame (Body ρ) := ⟨fun b b' => b'.cfg = b.cfg, fun _ => rfl, fun f g => g.trans f⟩

theorem dfltMcsRefresh_cfg : keepsCfg.Around (dfltMcsRefresh : Code ρ Unit) :=
  .bind (fun _ _ => rfl) fun _ => .bind (.read _) fun _ => .ite (.pure _) fun _ _ => rfl

theorem peerInitMcs_leads : (strokes ok).Leads (fun _ => True) (peerInitMcs : Code ρ Byte)
    fun mcs b => mcs = initMcs b := by
  intro t b _
  by_cases off : b.cfg.rateAdapt = 0
  · have ran : peerInitMcs t b = (halowMcsDefault, b) := by simp [peerInitMcs, off]
    rw [ran]
    exact ⟨.refl, by simp [initMcs, off]⟩
  · have ran : peerInitMcs t b =
        (dfltMcs (dfltMcsRefresh t b).2, (dfltMcsRefresh t b).2) := by simp [peerInitMcs, off]
    have cfg : (dfltMcsRefresh t b).2.cfg = b.cfg := dfltMcsRefresh_cfg t b
    rw [ran]
    exact ⟨dfltMcsRefresh_strokes t b, by simp [initMcs, cfg, off]⟩

theorem tuned_strokes (p : AckPeer)
    (tuned : Tuned b (b.peers i).dial p.dial) :
    (strokes ok).rel b { b with peers := update b.peers i p } := by
  refine Stroke.single (.tuned i p ?_ (.refl _))
  exact tuned

theorem peerCreate_leads (mac : Mac) (mcs : Byte) :
    (strokes ok).Leads (fun b => mcs = initMcs b)
      (peerCreate mac mcs : Code ρ (Option PeerIx)) fun _ _ => True := by
  refine Frame.Leads.bind (Q := fun _ b => mcs = initMcs b) (fun t b h => ⟨.refl, h⟩) fun picked => ?_
  cases picked with
  | none => exact fun t b _ => ⟨.refl, trivial⟩
  | some i =>
    have clock : (strokes ok).Leads (fun b => mcs = initMcs b) (nowJ : Code ρ Jiffy)
        fun _ b => mcs = initMcs b := by
      intro t b h
      have aside := nowJ_aside t b
      exact ⟨aside.strokes, h.trans aside.initMcs.symm⟩
    refine clock.bind fun created => clock.bind fun seen => ?_
    refine Frame.Leads.bind (Q := fun _ _ => True) ?_ fun _ => ?_
    · intro t b h
      let counted : Body ρ := { b with
        peersN := if (b.peers i).inUse then b.peersN else b.peersN + 1 }
      have beside : Aside b counted := { Aside.refl b with cfg := rfl }
      refine ⟨(strokes ok).trans beside.strokes (tuned_strokes (b := counted) i _ ?_), trivial⟩
      rw [h]
      exact .restarted (.opened mac)
    · refine fun t b _ => ⟨?_, trivial⟩
      exact asides_strokes (.bind (emit_aside rfl) fun _ => .pure (some i)) t b

theorem resetPeer_leads {mcs : Byte} (f : AckPeer → AckPeer) (next : AckPeer → Jiffy)
    (set : ∀ p, (f p).dial = { p.dial with txMcs := mcs, lossQ8 := 0, nextStepAllowed := next p }) :
    (strokes ok).Leads (fun b => mcs = initMcs b) (modifyPeer i f : Code ρ Unit)
      fun _ _ => True := by
  rintro t b h
  refine ⟨tuned_strokes i _ ?_, trivial⟩
  rw [set, h]
  exact .restarted (.reset _)

theorem peerGet_strokes (mac : Mac) :
    (strokes ok).Around (peerGet mac : Code ρ (Option PeerIx)) := by
  refine .bind (.read _) fun found => ?_
  refine Frame.Leads.around (Q := fun _ _ => True) (peerInitMcs_leads.bind fun mcs => ?_)
  cases found with
  | none => exact peerCreate_leads mac mcs
  | some i =>
    have stale : (strokes ok).Leads (fun b => mcs = initMcs b)
        (peerRateStale i : Code ρ Bool) fun _ b => mcs = initMcs b := by
      intro t b h
      have aside := asides_lax.peerRateStale i t b
      exact ⟨aside.strokes, h.trans aside.initMcs.symm⟩
    have read : (strokes ok).Leads (fun b => mcs = initMcs b)
        (Sec.read id : Code ρ (Body ρ)) fun _ b => mcs = initMcs b := fun _ _ h => ⟨.refl, h⟩
    refine stale.bind fun stale => read.bind fun judged => ?_
    refine Frame.Leads.bind (Q := fun _ _ => True) ?_ fun _ => ?_
    · unfold Sec.when
      split
      · refine (resetPeer_leads i _ (fun _ => 0) fun _ => rfl).bind fun _ => ?_
        exact fun t b _ => ⟨asides_strokes (emit_aside rfl) t b, trivial⟩
      · exact fun _ _ _ => ⟨.refl, trivial⟩
    · refine fun t b _ => ⟨?_, trivial⟩
      refine asides_strokes (.bind nowJ_aside fun now => ?_) t b
      refine .bind (modifyPeer_aside i fun _ => rfl) fun _ => .bind ?_ fun _ => .pure _
      exact fun _ b => { Aside.refl b with cfg := rfl }

theorem raNoteCollapse_aside : asides.Around (raNoteCollapse i : Code ρ Unit) :=
  .bind nowJ_aside fun _ => .bind (modifyPeer_aside i fun _ => rfl) fun _ => asides_lax.raKickInflight i

theorem raProbeCapped_le (ceilMcs : Byte) (t : Nat) (b : Body ρ) :
    (raProbeCapped i ceilMcs t b).1 ≤ ceilMcs := by
  rw [raProbeCapped, Sec.bind_apply, Sec.ite_apply]
  split
  · exact BitVec.le_refl _
  rw [Sec.bind_apply, Sec.ite_apply]
  split
  · exact BitVec.le_refl _
  rw [Sec.ite_apply]
  split
  next lower => exact BitVec.le_of_lt lower
  next => exact BitVec.le_refl _

def OwnRate (i : PeerIx) (b : Body ρ) : Prop := (b.peers i).txMcs ≠ halowMcsDefault

theorem Aside.ownRate {i : PeerIx} (aside : Aside b b') (own : OwnRate i b) : OwnRate i b' := by
  rw [OwnRate, show (b'.peers i).txMcs = (b.peers i).txMcs from congrArg Dial.txMcs (aside.dials i)]
  exact own

def AckPeer.stepDown (p : AckPeer) (next : Jiffy) : AckPeer :=
  { p with txMcs := p.txMcs - 1, nextStepAllowed := next }

def AckPeer.stepUp (p : AckPeer) (next : Jiffy) : AckPeer :=
  { p with txMcs := p.txMcs + 1, acksSinceStep := 0, nextStepAllowed := next }

def stepTime (b : Body ρ) : Nat := jiffies (Platform.elapse (Platform.elapse b.plat))

def steppedTo (i : PeerIx) (p : AckPeer) (b : Body ρ) : Body ρ :=
  { b with
    plat := Platform.elapse (Platform.elapse b.plat)
    peers := update b.peers i p
    downshifts := downshifted i b p.txMcs }

theorem steppedTo_stroke {p : AckPeer}
    (steps : Stepped b (jiffies (elapse b.plat)) (stepTime b) (b.peers i).dial p.dial) :
    Stroke ok b (steppedTo i p b) := by
  have first := Platform.elapse_le b.plat
  have second := Platform.elapse_le (elapse b.plat)
  refine .stepped i p _ first second steps ?_
  exact ⟨rfl, rfl, rfl, rfl, rfl, rfl, rfl, fun _ => rfl, ⟨[], rfl, by simp⟩, first.trans second⟩

def steppedDown (i : PeerIx) (b : Body ρ) : Body ρ :=
  steppedTo i ((b.peers i).stepDown (BitVec.ofNat 32 (stepTime b) + b.cache.stepGapJ)) b

def steppedUp (i : PeerIx) (b : Body ρ) : Body ρ :=
  steppedTo i ((b.peers i).stepUp (BitVec.ofNat 32 (stepTime b) + b.cache.stepGapJ)) b

theorem raDownStep_apply (t : Nat) (b : Body ρ) :
    raDownStep i t b =
      if (b.peers i).txMcs > raFloor b then
        if BitVec.ofNat 32 (jiffies (elapse b.plat)) ≥ (b.peers i).nextStepAllowed then
          (do
            modifyStats fun st => { st with raDownshifts := st.raDownshifts + 1 }
            raNoteCollapse i) t (steppedDown i b)
        else ((), { b with plat := elapse b.plat })
      else ((), b) := by
  change Sec.when ((b.peers i).txMcs > raFloor b) _ t b = _
  rw [Sec.when_apply]
  split
  next above =>
    have logged : downshifted i b ((b.peers i).txMcs - 1) =
        ⟨i, (b.peers i).txMcs, raFloor b, configuredMcs b⟩ :: b.downshifts :=
      if_pos (by bv_omega)
    change Sec.when (BitVec.ofNat 32 (jiffies (elapse b.plat)) ≥
      (b.peers i).nextStepAllowed) _ t _ = _
    rw [Sec.when_apply, steppedDown, steppedTo, AckPeer.stepDown, logged]
    rfl
  next => rfl

theorem raDownStep_leads :
    (strokes ok).Leads (OwnRate i) (raDownStep i : Code ρ Unit) fun _ _ => True := by
  refine fun t b own => ⟨?_, trivial⟩
  rw [raDownStep_apply]
  split
  next above =>
    split
    next due =>
      have rest : asides.Around (do
          modifyStats fun st => { st with raDownshifts := st.raDownshifts + 1 }
          raNoteCollapse i : Code ρ Unit) :=
        .bind (modifyStats_aside _) fun _ => raNoteCollapse_aside i
      exact (strokes ok).trans (steppedTo_stroke (p := (b.peers i).stepDown _) i (.down own above due)).single
        (asides_strokes rest t _)
    next => exact Aside.strokes { Aside.refl b with clock := Platform.elapse_le b.plat }
  next => exact .refl

def upReady (i : PeerIx) (ceilMcs : Byte) (b : Body ρ) : Prop :=
  if (b.peers i).txMcs + 1 ≥ ceilMcs then (b.peers i).lossQ8 ≤ b.cache.raUpQ8
  else (b.peers i).lossQ8 ≤ b.cache.raDownQ8

instance (i : PeerIx) (ceilMcs : Byte) (b : Body ρ) : Decidable (upReady i ceilMcs b) :=
  inferInstanceAs (Decidable (if (b.peers i).txMcs + 1 ≥ ceilMcs then
    (b.peers i).lossQ8 ≤ b.cache.raUpQ8 else (b.peers i).lossQ8 ≤ b.cache.raDownQ8))

theorem raUpStep_apply (t : Nat) (b : Body ρ) :
    raUpStep i t b =
      let ceilMcs := (raProbeCapped i raMaxMcs t b).1
      let b1 := (raProbeCapped i raMaxMcs t b).2
      if ¬ upReady i ceilMcs b1 then
        modifyStats (fun st => { st with raBlockedLoss := st.raBlockedLoss + 1 }) t b1
      else if (b1.peers i).txMcs ≥ ceilMcs then
        modifyStats (fun st => { st with raBlockedMax := st.raBlockedMax + 1 }) t b1
      else if BitVec.ofNat 32 (jiffies (elapse b1.plat)) <
          (b1.peers i).nextStepAllowed then
        modifyStats (fun st => { st with raBlockedGap := st.raBlockedGap + 1 }) t
          { b1 with plat := elapse b1.plat }
      else modifyStats (fun st => { st with raUpshifts := st.raUpshifts + 1 }) t
        (steppedUp i b1) := by
  generalize eq : raProbeCapped i raMaxMcs t b = r
  change (fun ceilMcs => _ : Byte → Code ρ Unit) (raProbeCapped i raMaxMcs t b).1 t
    (raProbeCapped i raMaxMcs t b).2 = _
  rw [eq]
  dsimp only
  change (if ¬ upReady i r.1 r.2 then _ else _ : Code ρ Unit) t r.2 = _
  rw [Sec.ite_apply]
  split
  · rfl
  change (if (r.2.peers i).txMcs ≥ r.1 then _ else _ : Code ρ Unit) t r.2 = _
  rw [Sec.ite_apply]
  split
  · rfl
  have silent : downshifted i r.2 ((r.2.peers i).txMcs + 1) = r.2.downshifts :=
    if_neg (by bv_omega)
  change (if BitVec.ofNat 32 (jiffies (elapse r.2.plat)) <
    (r.2.peers i).nextStepAllowed then _ else _ : Code ρ Unit) t _ = _
  rw [Sec.ite_apply, steppedUp, steppedTo, AckPeer.stepUp, silent]
  rfl

theorem raUpStep_strokes : (strokes ok).Around (raUpStep i : Code ρ Unit) := by
  intro t b
  have probed : (strokes ok).rel b (raProbeCapped i raMaxMcs t b).2 :=
    asides_strokes (asides_lax.raProbeCapped i raMaxMcs) t b
  have capped := raProbeCapped_le i raMaxMcs t b
  refine (strokes ok).trans probed ?_
  rw [raUpStep_apply]
  generalize raProbeCapped i raMaxMcs t b = r at capped
  have counted (f : Stats → Stats) (b : Body ρ) : (strokes ok).rel b (modifyStats f t b).2 :=
    asides_strokes (modifyStats_aside f) t b
  dsimp only
  split
  · exact counted _ _
  split
  · exact counted _ _
  next below =>
    have below : (r.2.peers i).txMcs < raMaxMcs := by
      rw [ge_iff_le, BitVec.not_le] at below
      bv_omega
    split
    · have waited : Aside r.2 { r.2 with plat := elapse r.2.plat } :=
        { Aside.refl r.2 with clock := Platform.elapse_le r.2.plat }
      exact (strokes ok).trans waited.strokes (counted _ _)
    next due =>
      have moved : (strokes ok).rel r.2 (steppedUp i r.2) :=
        (steppedTo_stroke (p := (r.2.peers i).stepUp _) i (.up below (BitVec.not_lt.mp due))).single
      exact (strokes ok).trans moved (counted _ _)

theorem lossPeer_strokes (loss : Nat → Nat) (bound : ∀ q, q ≤ 255 → loss q ≤ 255)
    (set : ∀ p, (f p).dial = { p.dial with lossQ8 := loss p.lossQ8 }) :
    (strokes ok).Around (modifyPeer i f : Code ρ Unit) := by
  intro t b
  refine tuned_strokes i (f (b.peers i)) ?_
  rw [set]
  exact .measured _ (bound (b.peers i).lossQ8)

theorem ownRate_leads {m : Code ρ α} (aside : asides.Around m) :
    (strokes ok).Leads (OwnRate i) m fun _ => OwnRate i :=
  fun t b own => ⟨(aside t b).strokes, (aside t b).ownRate own⟩

theorem decay_le {q : Nat} (bound : q ≤ 255) : (q * (raEwmaW - 1)) >>> 3 ≤ 223 := by
  rw [Nat.shiftRight_eq_div_pow, raEwmaW]
  omega

theorem ackLoss_strokes
    (set : ∀ p, (f p).dial = { p.dial with lossQ8 := (p.lossQ8 * (raEwmaW - 1)) >>> 3 }) :
    (strokes ok).Around (modifyPeer i f : Code ρ Unit) :=
  lossPeer_strokes i (fun q => (q * (raEwmaW - 1)) >>> 3)
    (fun _ bound => (decay_le bound).trans (by decide)) set

theorem dropLoss_strokes
    (set : ∀ p, (f p).dial =
      { p.dial with lossQ8 := (p.lossQ8 * (raEwmaW - 1)) >>> 3 + 256 / raEwmaW }) :
    (strokes ok).Around (modifyPeer i f : Code ρ Unit) := by
  refine lossPeer_strokes i (fun q => (q * (raEwmaW - 1)) >>> 3 + 256 / raEwmaW)
    (fun q bound => ?_) set
  have decayed := decay_le bound
  have share : 256 / raEwmaW = 32 := rfl
  omega

theorem raOnAck_strokes : (strokes ok).Around (raOnAck i : Code ρ Unit) := by
  refine .bind (asides_strokes nowJ_aside) fun now => ?_
  refine .bind (ackLoss_strokes i fun _ => rfl) fun _ => ?_
  have adapt (t : Nat) (b : Body ρ) (own : OwnRate i b) (down : Prop) [Decidable down]
      (f : Stats → Stats) (g : AckPeer → AckPeer) (same : ∀ p, (g p).dial = p.dial) :
      (strokes ok).rel b ((do
        modifyStats f
        modifyPeer i g
        if down then raDownStep i else raUpStep i : Code ρ Unit) t b).2 := by
    refine (Frame.Leads.bind (R := fun _ _ => True) (ownRate_leads i (modifyStats_aside f))
      (fun _ => ?_) t b own).1
    refine Frame.Leads.bind (ownRate_leads i (modifyPeer_aside i same)) fun _ => ?_
    split
    · exact raDownStep_leads i
    · exact fun t b _ => ⟨raUpStep_strokes i t b, trivial⟩
  intro t b
  change (strokes ok).rel b (Sec.when (b.cfg.rateAdapt ≠ 0 ∧ (b.peers i).txMcs ≠ halowMcsDefault) _
    t b).2
  rw [Sec.when_apply]
  split
  next own => exact adapt t b own.2 _ _ _ fun _ => rfl
  next => exact .refl

theorem raOnRetrans_strokes : (strokes ok).Around (raOnRetrans i : Code ρ Unit) := by
  refine .bind (asides_strokes (asides_lax.raInGrace i)) fun grace => .when ?_
  refine lossPeer_strokes i (fun q => if q + raRetransStepQ8 > 255 then 255 else q + raRetransStepQ8)
    (fun q _ => ?_) fun _ => rfl
  split <;> omega

theorem raOnDrop_strokes : (strokes ok).Around (raOnDrop i : Code ρ Unit) := by
  refine .bind (asides_strokes (asides_lax.raInGrace i)) fun grace => .when ?_
  refine .bind (dropLoss_strokes i fun _ => rfl) fun _ => ?_
  intro t b
  change (strokes ok).rel b (Sec.when (b.cfg.rateAdapt ≠ 0 ∧
    (b.peers i).txMcs ≠ halowMcsDefault ∧ (b.peers i).lossQ8 ≥ b.cache.raDownQ8) _ t b).2
  rw [Sec.when_apply]
  split
  next own => exact (raDownStep_leads i t b own.2.1).1
  next => exact .refl

theorem raCheckStale_strokes : (strokes ok).Around (raCheckStale i : Code ρ Unit) := by
  refine .bind (asides_strokes (asides_lax.peerRateStale i)) fun stale => .when ?_
  refine Frame.Leads.around (Q := fun _ _ => True) (peerInitMcs_leads.bind fun mcs => ?_)
  have clock : (strokes ok).Leads (fun b => mcs = initMcs b) (nowJ : Code ρ Jiffy)
      fun _ b => mcs = initMcs b :=
    fun t b h => ⟨(nowJ_aside t b).strokes, h.trans (nowJ_aside t b).initMcs.symm⟩
  refine clock.bind fun now => ?_
  exact resetPeer_leads i _ (fun _ => now + msJ raCooldownMs) fun _ => rfl

theorem configApplyPeer_leads (c : Config) (i : PeerIx) :
    (strokes ok).Leads (fun b => b.cfg = c) (configApplyPeer c i : Code ρ Unit)
      fun _ b => b.cfg = c := by
  have tune {f : AckPeer → AckPeer} (tuned : ∀ b : Body ρ, b.cfg = c →
      Tuned b (b.peers i).dial (f (b.peers i)).dial) :
      (strokes ok).Leads (fun b => b.cfg = c) (modifyPeer i f : Code ρ Unit)
        fun _ b => b.cfg = c :=
    fun t b h => ⟨tuned_strokes i _ (tuned b h), h⟩
  refine Frame.Leads.bind (Q := fun p b => b.cfg = c) (fun t b h => ⟨.refl, h⟩) fun p => ?_
  refine .when fun used => Frame.Leads.bind (Q := fun _ b => b.cfg = c) ?_ fun _ => ?_
  · refine .when fun more => tune fun b h => ?_
    subst h
    exact .granted
  refine Frame.Leads.bind (Q := fun _ b => b.cfg = c) ?_ fun _ => tune fun b h => ?_
  · unfold configApplyRate
    split
    next off =>
      refine tune fun b h => ?_
      have default : initMcs b = halowMcsDefault := by simp [initMcs, h, off]
      rw [← default]
      exact .restarted (.reset _)
    next =>
      refine .when fun default => ?_
      intro t b h
      have first : (strokes ok).rel b (peerInitMcs t b).2 ∧
          (peerInitMcs t b).1 = initMcs (peerInitMcs t b).2 := peerInitMcs_leads t b trivial
      have kept : (peerInitMcs t b).2.cfg = b.cfg :=
        Frame.Around.bind (F := keepsCfg) (.read _) (fun _ => .ite (.pure _)
          (.bind dfltMcsRefresh_cfg fun _ => .read _)) t b
      refine ⟨(strokes ok).trans first.1 (tuned_strokes i _ ?_), kept.trans h⟩
      rw [first.2]
      exact .restarted (.reset _)
  · exact .restarted .rearmed

theorem configInstall_strokes (cfg : Config) (allowed : ok (.configApply cfg)) :
    (strokes ok).Around (configInstall (configClamp cfg) : Code ρ Unit) := by
  refine Frame.Leads.around (Q := fun _ b => b.cfg = configClamp cfg) ?_
  refine Frame.Leads.bind (Q := fun _ b => b.cfg = configClamp cfg) ?_ fun _ => ?_
  · exact fun t b _ => ⟨(Stroke.installed cfg allowed).single, rfl⟩
  refine Frame.Leads.bind (Q := fun _ b => b.cfg = configClamp cfg) ?_ fun _ => ?_
  · exact fun t b h => ⟨asides_strokes (emit_aside rfl) t b, h⟩
  · exact .forEach (configApplyPeer_leads (configClamp cfg)) _

end RnodeHalow.Ack
