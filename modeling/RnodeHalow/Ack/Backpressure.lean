import RnodeHalow.Ack.LockBalance
import RnodeHalow.Ack.Schedule
import RnodeHalow.Radio.Capacity

set_option autoImplicit false

namespace RnodeHalow.Ack

open Resumption Radio Board Tally

section Silence

variable {ρ α : Type}

def onPlat (F : Frame ρ) : Frame (Body ρ) where
  rel b b' := F.rel b.plat b'.plat
  refl b := F.refl b.plat
  trans first second := F.trans first second

variable {F : Frame ρ}

theorem Silent.modify {f : Body ρ → Body ρ} (same : ∀ b, (f b).plat = b.plat) :
    (onPlat F).Around (Sec.modify f) := by
  intro t b
  change F.rel b.plat (f b).plat
  rw [same b]
  exact F.refl b.plat

theorem Silent.platform {op : ρ → α × ρ} (keeps : ∀ r, F.rel r (op r).2) :
    (onPlat F).Around (platform op) := fun _ b => keeps b.plat

theorem modifyPeer_silent (i : PeerIx) (f : AckPeer → AckPeer) :
    (onPlat F).Around (modifyPeer i f) := Silent.modify fun _ => rfl

theorem modifyStats_silent (f : Stats → Stats) :
    (onPlat F).Around (modifyStats f) := Silent.modify fun _ => rfl

variable [Platform ρ]

theorem emit_silent (e : Event) : (onPlat F).Around (emit e) :=
  Silent.modify fun _ => rfl

structure Silent (F : Frame ρ) : Prop where
  elapse : ∀ r, F.rel r (Platform.elapse r)
  osMalloc : ∀ size r, F.rel r (Platform.osMalloc size r).2
  halowGetTxVacancy : ∀ r, F.rel r (Platform.halowGetTxVacancy r).2
  halowConfigLoadMcs : ∀ r, F.rel r (Platform.halowConfigLoadMcs r).2
  timeS : ∀ r, F.rel r (Platform.timeS r).2
  register : ∀ len r, F.rel r (Platform.statisticsRadioRegisterTxPackage len r)

namespace Silent

variable (silent : Silent F)

include silent

theorem lax : Lax (onPlat F) where
  vacancy := platform silent.halowGetTxVacancy
  note _ := emit_silent _
  count _ := modifyStats_silent _
  entry i _ _ := modifyPeer_silent i _
  clock := platform silent.elapse
  timeS := platform silent.timeS
  malloc size := platform (silent.osMalloc size)
  store same := modify fun b => by rw [same b]

variable (i : PeerIx) (payload : List Byte) (dest : Mac)

theorem peerGet (mac : Mac) : (onPlat F).Around (peerGet mac) :=
  silent.lax.peerGet (platform silent.halowConfigLoadMcs) (fun same => modify fun b => (same b).1)
    mac fun _ => emit_silent _

theorem txRoute (len : Nat) : (onPlat F).Around (txRoute len dest) :=
  silent.lax.txRoute dest (silent.peerGet dest) len

theorem txRegister : (onPlat F).Around (txRegister payload dest) :=
  .bind (modifyStats_silent _) fun _ => platform (silent.register payload.length)

theorem aggLaunch : (onPlat F).Around (aggLaunch i) := by
  refine .bind (silent.lax.aggSeal i (fun _ => emit_silent _) fun _ => emit_silent _) fun start => ?_
  cases start with
  | nothing => exact .pure _
  | blocked => exact .pure _
  | sealed j pmcs => exact .bind (silent.lax.markSending j) fun _ => .pure _

theorem stageIn (effPayload : Nat) : (onPlat F).Around (stageIn i payload dest effPayload) := by
  refine .bind (silent.lax.stageOpen i dest (fun _ => emit_silent _) _ _) fun staged => ?_
  exact .ite (.bind (silent.lax.stageAppend i payload effPayload) fun full => .pure _) (.pure _)

theorem plainLaunch : (onPlat F).Around (plainLaunch i payload dest) := by
  refine .bind (silent.lax.plainClaim i payload dest (fun _ => emit_silent _) fun _ =>
    emit_silent _) fun slot => ?_
  cases slot with
  | none => exact .pure _
  | some j => exact .bind (silent.lax.markSending j) fun _ => .pure _

end Silent

end Silence

variable {α β : Type} {n t : Nat}

structure Clear (rate : Byte × Byte) (r : Board) : Prop where
  ready : r.Ready txBufferSize
  ops : r.opsReady = true
  rate : r.cfgMcsBw = rate

theorem Clear.advance {rate : Byte × Byte} {r : Board} (clear : Clear rate r) :
    Clear rate r.advance := ⟨clear.ready.advance, clear.ops, clear.rate⟩

def ClearSec (rate : Byte × Byte) (m : Code Board α) : Prop :=
  Sec.Along (fun _ b b' => Clear rate b.plat → Clear rate b'.plat) m

variable {rate : Byte × Byte}

def clearing (rate : Byte × Byte) : Frame Board where
  rel r r' := Clear rate r → Clear rate r'
  refl _ := id
  trans first second clear := second (first clear)

theorem clearing_silent (rate : Byte × Byte) : Silent (clearing rate) where
  elapse _ clear := clear.advance
  osMalloc _ _ clear := clear.advance
  halowGetTxVacancy _ clear := clear
  halowConfigLoadMcs _ clear := clear.advance
  timeS _ clear := clear.advance
  register _ _ clear :=
    ⟨clear.ready.advance.same rfl clear.ready.advance.enough clear.ready.advance.bounded,
      clear.ops, clear.rate⟩

theorem txRoute_clear (len : Nat) (dest : Mac) : ClearSec rate (txRoute len dest) :=
  (clearing_silent rate).txRoute dest len

theorem txRegister_clear (payload : List Byte) (dest : Mac) :
    ClearSec rate (txRegister payload dest) :=
  (clearing_silent rate).txRegister payload dest

variable {b : Body Board} {s : Node Board}

theorem halowTx_answer {payload : List Byte} (dest : Mac) (mcs : Byte) (clear : Clear rate b.plat)
    (known : rateKnown rate) (pos : 0 < payload.length) (small : payload.length ≤ 10240) :
    (halowTx payload dest mcs t b).1 = if airFits rate mcs payload.length then 0 else -4 := by
  have room : ieee80211HdrLen + payload.length ≤ txBufferSize := by
    have sizes : ieee80211HdrLen = 24 ∧ txBufferSize = 29200 := ⟨rfl, rfl⟩
    omega
  rw [← clear.rate] at known ⊢
  exact halowTxP_answer dest mcs 0#8 clear.ready clear.ops known pos room

section Frame

variable {b : Body Board} {payload : List Byte} (dest : Mac) (clear : Clear rate b.plat)
  (known : rateKnown rate) (pos : 0 < payload.length) (small : payload.length ≤ 10240)

include clear known pos small

theorem txPlainUntracked_answer (mcs : Byte) :
    (txPlainUntracked payload dest mcs t b).1 =
      if airFits rate mcs payload.length then 0 else txThrottle := by
  have answer := halowTx_answer (t := t) dest mcs clear known pos small
  simp only [txPlainUntracked, Sec.bind_apply, Sec.pure_apply, answer]
  cases airFits rate mcs payload.length <;> rfl

theorem txBroadcast_answer :
    (txBroadcast payload dest t b).1 =
      if airFits rate halowMcsDefault payload.length then 0 else txThrottle := by
  have answer := halowTx_answer (t := t) dest halowMcsDefault clear known pos small
  simp only [txBroadcast, Sec.bind_apply, Sec.read_apply, Sec.ite_apply, answer]
  cases airFits rate halowMcsDefault payload.length <;> rfl

end Frame

def Vacant (b : Body Board) : Prop := ∀ j, b.bufs j = none

theorem Calms.vacant {c c' : Core} (calms : Calms c c') (empty : ∀ j, c.bufs j = none) :
    ∀ j, c'.bufs j = none := by
  induction calms with
  | refl => exact empty
  | tail _ calm ih =>
    cases calm with
    | kick j buf due held inflight =>
      rw [ih j] at held
      cases held
    | _ => exact ih

section Vacant

variable {b : Body Board} (inv : Inv (core b)) (empty : Vacant b)

include inv empty

theorem Vacant.usedN : b.usedN = 0 :=
  inv.rep.usedN_eq.trans (total_eq_zero _ _ fun j => congrArg _ (empty j))

theorem Vacant.inflightN : b.inflightN = 0 :=
  inv.rep.inflightN_eq.trans (total_eq_zero _ _ fun j => congrArg _ (empty j))

theorem Vacant.aggIdx {i : PeerIx} (inUse : (b.peers i).inUse = true) :
    (b.peers i).aggIdx = none := by
  cases staged : (b.peers i).aggIdx with
  | none => rfl
  | some j =>
    obtain ⟨buf, held, _⟩ := (inv.rep.agg_iff i inUse j).mp staged
    rw [show (core b).bufs j = none from empty j] at held
    cases held

omit empty in
theorem effWindow_pos : 0 < effWindow b := by
  have cwnd : 1 ≤ b.cwnd := inv.cwnd_pos
  have window : b.cwnd ≤ b.window := inv.cwnd_le
  unfold effWindow
  split <;> omega

end Vacant

theorem bufAlloc_takes (clear : Clear rate b.plat) (empty : Vacant b) (state : BufState) (mac : Mac)
    (cap : Nat) : ∃ j, (bufAlloc state mac cap t b).1 = some j := by
  have slot : (freeSlot b).isSome = true := by
    rw [freeSlot, List.find?_isSome]
    exact ⟨0, List.mem_finRange 0, by simp [empty 0]⟩
  obtain ⟨j, found⟩ := Option.isSome_iff_exists.mp slot
  obtain ⟨blk, heap⟩ := Option.isSome_iff_exists.mp (clear.ready.heap b.plat.calls)
  have block : (platform (Platform.osMalloc (bufAllocSz cap)) t b).1 = some blk := heap
  refine ⟨j, ?_⟩
  simp only [bufAlloc, Sec.bind_apply, Sec.read_apply, found, block]
  rfl

theorem stageOpen_takes (clear : Clear rate b.plat) (empty : Vacant b) {i : PeerIx}
    (bare : (b.peers i).aggIdx = none) (len : Nat) (dest : Mac) (effPayload : Nat) :
    (stageOpen i len dest effPayload t b).1 = true := by
  let need := (ackAggReserve + 2 + len) % 2 ^ 16
  let cap := stagingAllocCap effPayload
  obtain ⟨j, taken⟩ := bufAlloc_takes (t := t) clear empty .staging dest
    (if need > cap then need else cap)
  simp only [need, cap] at taken
  simp only [stageOpen, Sec.bind_apply, Sec.read_apply, bare, taken]
  rfl

theorem txBundleAppend_accepts (held : s.Held n) (clear : Clear rate s.body.plat)
    (empty : Vacant s.body) {i : PeerIx} (bare : (s.body.peers i).aggIdx = none)
    (payload : List Byte) (dest : Mac) (effPayload : Nat) :
    Alone (txBundleAppend i payload dest effPayload) s fun r _ => r = 0 := by
  refine .seq (.sec ?_)
  rw [stageOpen_takes clear empty bare]
  refine .seq (.sec (.seq ?_))
  refine Alone.mono (Balanced.when ((aggFlushLocked_held i).bind fun _ => .pure ()) _
    ((held.body _).body _)) fun _ s' _ => ?_
  exact .seq (.sec (.seq (.unlock (.pure 0 rfl))))

theorem txBundleLocked_accepts (held : s.Held n) (clear : Clear rate s.body.plat)
    (inv : Inv (core s.body)) (empty : Vacant s.body) {i : PeerIx}
    (inUse : (s.body.peers i).inUse = true) {payload : List Byte} (pos : 0 < payload.length)
    (dest : Mac) (effPayload : Nat) :
    Alone (txBundleLocked i payload dest effPayload) s fun r _ => r = 0 := by
  have bare := empty.aggIdx inv inUse
  have admitted : soloBlocked s.body = false := by
    have window := effWindow_pos inv
    simp only [soloBlocked, empty.usedN inv, empty.inflightN inv, ackBufN, Nat.not_le.mpr window,
      decide_false, Bool.false_or, Nat.sub_zero]
    simp
  have fresh : stagedFullFor s.body i payload.length effPayload = false := by
    simp [stagedFullFor, bare]
  unfold txBundleLocked
  rw [if_neg (Nat.ne_of_gt pos)]
  refine .read ?_
  rw [admitted]
  refine .read ?_
  rw [fresh]
  exact txBundleAppend_accepts held clear empty bare payload dest effPayload

theorem plainClaim_takes (clear : Clear rate b.plat) (inv : Inv (core b)) (empty : Vacant b)
    (i : PeerIx) (payload : List Byte) (dest : Mac) :
    ∃ j, (plainClaim i payload dest t b).1 = some j := by
  have vacancy : ¬ b.plat.vacatedBytes < ackTxVacancyLow := by
    have enough := clear.ready.enough
    have sizes : txBufferSize = 29200 ∧ ackTxVacancyLow = 8000 := ⟨rfl, rfl⟩
    omega
  have window : ¬ b.inflightN ≥ effWindow b := by
    rw [empty.inflightN inv]
    exact Nat.not_le.mpr (effWindow_pos inv)
  obtain ⟨j, taken⟩ := bufAlloc_takes (t := t) clear empty .inflight dest payload.length
  have claims : bufClaimInflight dest payload.length t b =
      bufAlloc .inflight dest payload.length t b := by
    rw [bufClaimInflight, Sec.bind_apply, Sec.bind_apply, Sec.ite_apply]
    exact if_neg window
  have claimed : (bufClaimInflight dest payload.length t b).1 = some j := by
    rw [claims, taken]
  refine ⟨j, ?_⟩
  have looked : halowGetTxVacancy t b = (b.plat.vacatedBytes, b) := rfl
  simp only [plainClaim, Sec.bind_apply, Sec.ite_apply, looked, if_neg vacancy, claimed]
  rfl

theorem txPlainLocked_accepts (held : s.Held n) (clear : Clear rate s.body.plat)
    (inv : Inv (core s.body)) (empty : Vacant s.body) (i : PeerIx) (payload : List Byte)
    (dest : Mac) (pmcs : Byte) : Alone (txPlainLocked i payload dest pmcs) s fun r _ => r = 0 := by
  obtain ⟨j, claimed⟩ := plainClaim_takes (t := s.active) clear inv empty i payload dest
  refine .seq (.sec ?_)
  rw [claimed]
  exact .seq ((bufTxSend_held j pmcs _ (held.body _)).mono fun _ _ _ => .pure 0 rfl)

-- The frame is tracked, or fits the rate at which it goes out untracked.
def sendable (rate : Byte × Byte) (len : Nat) (dest : Mac) (t : Nat) (b : Body Board) : Bool :=
  if noack b.cfg len dest then airFits rate halowMcsDefault len
  else match peerGet dest t b with
    | (none, _) => airFits rate halowMcsDefault len
    | (some i, b') => decide ((b'.peers i).curRetries ≠ 0) || airFits rate (b'.peers i).txMcs len

def routeFits (rate : Byte × Byte) (len : Nat) : Route → Bool
  | .untracked mcs => airFits rate mcs len
  | _ => true

theorem sendable_tracked {len : Nat} {dest : Mac} (on : noack b.cfg len dest = false) :
    sendable rate len dest t b = routeFits rate len (txRoute len dest t b).1 := by
  rw [sendable, if_neg (by simp [on]), txRoute_apply]
  generalize peerGet dest t b = out
  obtain ⟨found, b'⟩ := out
  cases found with
  | none => rfl
  | some i =>
    by_cases spent : (b'.peers i).curRetries = 0
    · simp [spent, routeFits]
    · cases plain : unwrapped i len b' <;> simp [spent, plain, routeFits]

theorem ackTxUc_answer (free : s.Free n) (clear : Clear rate s.body.plat) (known : rateKnown rate)
    (inv : Inv (core s.body)) (empty : Vacant s.body) {payload : List Byte}
    (pos : 0 < payload.length) (small : payload.length ≤ 10240) (dest : Mac) :
    Alone (ackTxUc payload dest) s fun r _ =>
      r = if sendable rate payload.length dest s.active s.body then 0 else txThrottle := by
  refine .read ?_
  by_cases off : noack s.body.cfg payload.length dest = true
  · rw [if_pos off, sendable, if_pos off]
    exact .sec (txBroadcast_answer dest clear known pos small)
  rw [if_neg off, sendable_tracked (Bool.eq_false_iff.mpr off)]
  refine .seq (.lock free.acquire.1 (.seq (.sec ?_)))
  simp only [Locked.acquire_active, Locked.acquire_body]
  have does : Does (txRoute payload.length dest : Code Board Route) s.active (core s.body)
      fun r c => Calms (core s.body) c ∧ Routed payload.length dest c r := txRoute_does inv
  have routed := does s.body rfl
  have clear' := txRoute_clear payload.length dest s.active s.body clear
  generalize txRoute payload.length dest s.active s.body = result at routed clear'
  obtain ⟨route, b⟩ := result
  obtain ⟨calms, found⟩ := routed
  have inv' : Inv (core b) := (calms.chain (t := 0)).inv inv
  have empty' : Vacant b := calms.vacant empty
  have held := free.acquire.2.body b
  simp only [Locked.acquire_active] at held
  cases route with
  | untracked mcs =>
    refine .seq (.unlock (.sec ?_))
    rw [Locked.release_body]
    exact txPlainUntracked_answer (t := s.active) dest clear' known pos small mcs
  | bundle i effPayload =>
    refine (txBundleLocked_accepts held clear' inv' empty' found.1.1 pos dest effPayload).mono ?_
    exact fun _ _ zero => zero
  | plain i pmcs =>
    refine (txPlainLocked_accepts held clear' inv' empty' i payload dest pmcs).mono ?_
    exact fun _ _ zero => zero

theorem throttle_transient_iff (c : Threads Board) (reach : Reachable c)
    (free : c.shared.owner = none) (empty : ∀ j, c.body.bufs j = none)
    (ready : c.body.plat.Ready txBufferSize) (ops : c.body.plat.opsReady = true)
    (known : rateKnown c.body.plat.cfgMcsBw) (t : Nat) (payload : List Byte)
    (pos : 0 < payload.length) (small : payload.length ≤ 10240) (dest : Mac) :
    Alone (halowAckTx payload dest) { c.shared with active := t } fun r _ =>
      r ≠ txThrottle ↔ sendable c.body.plat.cfgMcsBw payload.length dest t
        (txRegister payload dest t c.body).2 = true := by
  let b := (txRegister payload dest t c.body).2
  have clear : Clear c.body.plat.cfgMcsBw b.plat :=
    txRegister_clear payload dest t c.body ⟨ready, ops, rfl⟩
  have waited : Calm (core c.body) (core b) := .elapse _ c.body.plat.advance_frame.jiffies
  have inv : Inv (core b) := waited.inv reach.inv
  refine .seq (.sec (.seq ?_))
  refine (ackTxUc_answer (s := ⟨c.shared.owner, c.shared.nested, c.shared.misuse, t, b⟩)
    ⟨free, rfl⟩ clear known inv empty pos small dest).mono fun r s' answer => ?_
  refine .seq (.sec (.pure r ?_))
  rw [answer]
  cases sendable c.body.plat.cfgMcsBw payload.length dest t b with
  | true => exact ⟨fun _ => rfl, fun _ => by decide⟩
  | false => exact ⟨fun other => absurd rfl other, fun fits => absurd fits (by decide)⟩

def bootedBody : Body Board := (boot halowAckConfigSetDefault (quiet 7 8)).body

def clearPool : Threads Board :=
  ⟨{ boot halowAckConfigSetDefault (quiet 7 8) with
      body := { bootedBody with plat := quiet 7 8 } }, fun _ => none⟩

theorem clearPool_reachable : Reachable clearPool := by
  have later : Platform.jiffies bootedBody.plat ≤ Platform.jiffies (quiet 7 8) := by
    decide +kernel
  exact (started_reachable halowAckConfigSetDefault (quiet 7 8)).step
    (.drift (started halowAckConfigSetDefault (quiet 7 8)) _ ⟨_, ⟨quiet 7 8, later, rfl⟩, rfl⟩)

theorem clearPool_empty (j : BufIx) : clearPool.body.bufs j = none := by
  have none : ∀ j, (clearPool.body.bufs j).isNone = true := by decide +kernel
  exact Option.isNone_iff_eq_none.mp (none j)

theorem quiet_ready (mcs bw : Byte) : (Board.quiet mcs bw).Ready txBufferSize where
  heap _ := rfl
  skb _ := rfl
  lmac _ := rfl
  enough := Nat.le_refl _
  bounded := Nat.le_refl _

theorem throttle_transient_iff_shortFrame :
    Alone (halowAckTx [1, 2, 3] ⟨2, 0, 0, 0, 0, 1⟩) { clearPool.shared with active := 1 } fun r _ =>
      r ≠ txThrottle := by
  have fits : sendable (7, 8) 3 ⟨2, 0, 0, 0, 0, 1⟩ 1
      (txRegister [1, 2, 3] ⟨2, 0, 0, 0, 0, 1⟩ 1 clearPool.body).2 = true := by
    decide +kernel
  have answer := throttle_transient_iff clearPool clearPool_reachable rfl clearPool_empty
    (quiet_ready 7 8) rfl (.inl (by decide)) 1 [1, 2, 3] (by decide) (by decide) ⟨2, 0, 0, 0, 0, 1⟩
  exact answer.mono fun _ _ iff => iff.mpr fits

theorem throttle_permanent_longFrame : Reachable clearPool ∧ clearPool.shared.owner = none ∧
    (∀ j, clearPool.body.bufs j = none) ∧
    clearPool.body.plat.Ready txBufferSize ∧
    clearPool.body.plat.opsReady = true ∧
    rateKnown clearPool.body.plat.cfgMcsBw ∧
    ((halowAckTx (List.replicate 8161 0) ⟨2, 0, 0, 0, 0, 1⟩).run clearPool.shared).map (·.1) =
      some txThrottle :=
  ⟨clearPool_reachable, rfl, clearPool_empty, quiet_ready 7 8, rfl, .inl (by decide),
    by decide +kernel⟩

end RnodeHalow.Ack
