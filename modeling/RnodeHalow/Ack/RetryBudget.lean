import RnodeHalow.Ack.Acceptance
import RnodeHalow.Ack.StrokeRuns
import RnodeHalow.Shared.Spells

set_option autoImplicit false

namespace RnodeHalow.Ack

open Resumption

variable {ρ : Type} [Platform ρ] {t : Nat} {i : PeerIx} {payload : List Byte} {dest : Mac}
  {effPayload : Nat}

def Placed (payload : List Byte) (blocks : List (Node ρ × Node ρ)) : Prop :=
  ∃ block ∈ blocks, Gains (core block.1.body) (core block.2.body) payload

def Event.airs : Event → Bool
  | .txP _ _ _ _ => true
  | _ => false

-- What went to `halow_tx_p` so far, newest first.
def handed (b : Body ρ) : History := b.trace.filter (·.2.airs)

-- The block gives the radio nothing, or only the frame of a slot that is in use when it starts.
def SlotSends (b b' : Body ρ) : Prop :=
  handed b' = handed b ∨ ∃ j buf pmcs τ, b.bufs j = some buf ∧
    handed b' = (τ, .txP buf.wire buf.destMac pmcs 0#8) :: handed b

def SlotsOnly (blocks : List (Node ρ × Node ρ)) : Prop :=
  ∀ block ∈ blocks, SlotSends block.1.body block.2.body

-- No slot gains anything; the bare payload is handed over.
structure Bypassed (payload : List Byte) (dest : Mac) (blocks : List (Node ρ × Node ρ)) : Prop where
  kept : ∀ block ∈ blocks, Kept (core block.1.body) (core block.2.body)
  raw : ∃ block ∈ blocks, ∃ mcs τ,
    block.2.body.trace = (τ, .txP payload dest mcs 0#8) :: block.1.body.trace

theorem Placed.right {after : List (Node ρ × Node ρ)} (placed : Placed payload after)
    (before : List (Node ρ × Node ρ)) : Placed payload (before ++ after) := by
  obtain ⟨block, member, gains⟩ := placed
  exact ⟨block, List.mem_append_right before member, gains⟩

theorem Holds.unique {c : Core} {j : BufIx} {payloads payloads' : List (List Byte)} (inv : Inv c)
    (one : Holds c j payloads) (other : Holds c j payloads') : payloads = payloads' := by
  obtain ⟨buf, held, ⟨_, i, owns, eq⟩ | ⟨sent, eq⟩⟩ := one
  · rw [← eq, (Holds.staged_iff inv owns).mp other]
  · rw [← eq, (Holds.sent_iff held sent).mp other]

variable {blocks : List (Node ρ × Node ρ)} {m s : Node ρ}

theorem Bypassed.not_placed (bypassed : Bypassed payload dest blocks)
    (starts : ∀ block ∈ blocks, Inv (core block.1.body)) : ¬ Placed payload blocks := by
  rintro ⟨block, member, j, payloads, before, after⟩
  have kept := bypassed.kept block member
  have now := (kept.holds j _).mp after
  rcases before with ⟨empty, -⟩ | held
  · obtain ⟨buf, held, -⟩ := now
    rw [empty] at held
    cases held
  · have same := held.unique (starts block member) now
    simp at same

structure Reached (t : Nat) (s m : Node ρ) : Prop where
  active : m.active = t
  chain : Chain t (core s.body) (core m.body)
  kept : Kept (core s.body) (core m.body)

abbrev Between (t : Nat) : Node ρ → Node ρ → Prop :=
  Pool.Between (ackDiscipline (ρ := ρ)).locked t

theorem between_keeps {P : Core → Prop} (keeps : Keeps t P) {s s' : Node ρ}
    (moved : Between t s s') (h : P (core s.body)) : P (core s'.body) := by
  obtain ⟨s'', moves, rfl⟩ := moved
  change P (core s''.body)
  exact (keeps.stable (ρ := ρ)).locked.interfere moves h

theorem between_active {s s' : Node ρ} (moved : Between t s s') : s'.active = t := by
  obtain ⟨s'', -, rfl⟩ := moved
  rfl

theorem sendTail_ends {j : BufIx} {pmcs : Byte} {s m s' m' : Node ρ}
    {before : List (Node ρ × Node ρ)} (home : ∃ buf, AtHome t i dest j buf (core m.body))
    (run : (sendTail j pmcs m).Blocks (Between t) s (before ++ [(s', m')]) ()) :
    Reached t s' m' ∧ Here i dest (core m'.body) := by
  obtain ⟨buf, home⟩ := home
  have stable := atHome_keeps t i dest j buf
  obtain ⟨s1, rest1, eq1, moved1, run⟩ := run.unlock
  have home1 : AtHome t i dest j buf (core s1.body) := by
    refine between_keeps stable moved1 ?_
    rw [Locked.release_body]
    exact home
  obtain ⟨s2, rest2, eq2, moved2, -, run⟩ := run.sec.lock
  have out : Still ((core s1.body).note (.sent j)) (core (sendOut j pmcs s1.active s1.body).2) :=
    sendOut_does home1.1.1 s1.body rfl
  have home2 : AtHome t i dest j buf (core s2.body) := by
    refine between_keeps stable moved2 ?_
    exact ⟨out.flight home1.1, home1.2.1, out.here home1.2.2⟩
  obtain ⟨eq3, -⟩ := run.sec_last
  obtain ⟨rfl, rfl⟩ : s' = s2 ∧ m' = { s2.acquire with
      body := (sendDone j s2.acquire.active s2.acquire.body).2 } := by
    rw [eq2, eq3] at eq1
    simpa using congrArg List.getLast? eq1
  have active : s'.active = t := between_active moved2
  rw [Locked.acquire_active, Locked.acquire_body, active]
  obtain ⟨chain, peers, -⟩ := sendDone_does home2.1 s'.body rfl
  refine ⟨⟨by simp [active], chain, (sendDone_core home2.1.1 home2.1.2.1 t).2⟩, ?_⟩
  rw [Here, peers]
  exact home2.2.2

theorem aggFlushLocked_ends {s m s' m' : Node ρ} {before : List (Node ρ × Node ρ)} {r : Bool}
    (reached : Reached t s m) (sound : Sound (core s.body)) (here : Here i dest (core m.body))
    (run : (aggFlushLocked i m).Blocks (Between t) s (before ++ [(s', m')]) r) :
    Reached t s' m' ∧ Here i dest (core m'.body) := by
  rw [aggFlushLocked_eq] at run
  have run := run.sec
  have started : Started t i (core m.body) (aggLaunch i m.active m.body).1
      (core (aggLaunch i m.active m.body).2) := by
    rw [reached.active]
    exact aggLaunch_does (sound.chain reached.chain).inv here.1 m.body rfl
  have chain := started.chain here.1
  obtain ⟨kept, here', -⟩ := started.kept (sound.chain reached.chain) here
  generalize aggLaunch i m.active m.body = out at run started chain kept here'
  obtain ⟨start, b⟩ := out
  have next : Reached t s { m with body := b } :=
    ⟨reached.active, reached.chain.trans chain, reached.kept.trans kept⟩
  cases started with
  | nothing | blocked =>
    obtain ⟨rfl, rfl, -⟩ := Res.Blocks.pure_last run
    exact ⟨next, here'⟩
  | sealed j pmcs still agg window launched =>
    obtain ⟨⟨⟩, -, tail⟩ := Res.Blocks.bind_pure (x := sendTail j pmcs { m with body := b }) run
    have sound' := (sound.chain reached.chain).chain (still.calms.chain (t := t))
    exact sendTail_ends (launched.atHome sound'.inv (still.here here) agg) tail

theorem staged_halt (payload : List Byte) (active : m.active = t) (sound : Sound (core m.body))
    (here : Here i dest (core m.body)) (full : Bool) :
    Kept (core m.body) (core ((do
      Prog.when (full = true) do
        let _ ← aggFlushLocked i
      sec do
        let t ← Sec.self
        emit (.bundled t i payload)
      unlock
      pure 0 : Prog (Node ρ) Int) m).halt.body) := by
  have accepted (b : Body ρ) (kept : Kept (core m.body) (core b)) : Kept (core m.body)
      (core ((do
        sec do
          let t ← Sec.self
          emit (.bundled t i payload)
        unlock
        pure 0 : Prog (Node ρ) Int) { m with body := b }).halt.body) := by
    refine kept.trans ?_
    change Kept (core b) (core (Locked.release _).body)
    rw [Locked.release_body]
    exact .view (fun _ => rfl) fun _ _ => .inl (.refl _)
  cases full with
  | false => exact accepted m.body (.refl _)
  | true =>
    have started : Started t i (core m.body) (aggLaunch i m.active m.body).1
        (core (aggLaunch i m.active m.body).2) := by
      rw [active]
      exact aggLaunch_does sound.inv here.1 m.body rfl
    obtain ⟨kept, -, -⟩ := started.kept sound here
    simp only [Prog.when, if_true, aggFlushLocked_eq, bind_apply, sec_apply, Res.bind_done]
    generalize aggLaunch i m.active m.body = out at started kept
    obtain ⟨start, b⟩ := out
    cases start with
    | nothing => exact accepted b kept
    | blocked => exact accepted b kept
    | sealed j pmcs =>
      change Kept (core m.body) (core (Locked.release _).body)
      rw [Locked.release_body]
      exact kept

theorem txBundleAppend_placed (reached : Reached t s m) (sound : Sound (core s.body))
    (here : Here i dest (core m.body)) (some : payload ≠ [])
    (small : ackAggReserve + 2 + payload.length ≤ ackWireMax)
    (room : Room i payload.length (core m.body))
    (run : (txBundleAppend i payload dest effPayload m).Blocks (Between t) s blocks 0) :
    Placed payload blocks := by
  rw [txBundleAppend_eq] at run
  have run := run.sec
  have sound' := sound.chain reached.chain
  have staged : StagedIn t i payload (core m.body) (stageIn i payload dest effPayload m.active m.body).1
      (core (stageIn i payload dest effPayload m.active m.body).2) := by
    rw [reached.active]
    exact stageIn_does sound'.inv here small room m.body rfl
  have here' := staged.here here
  have later := sound'.chain (staged.chain here.1 some)
  generalize stageIn i payload dest effPayload m.active m.body = out at run staged here' later
  obtain ⟨start, b⟩ := out
  cases start with
  | none =>
    obtain ⟨s', rest, -, -, run⟩ := Res.Blocks.unlock run
    exact absurd run.pure.2 (by decide)
  | some full =>
    obtain ⟨rest, eq⟩ := run.first
    have gains := staged.gains sound' here.1
    have after := staged_halt payload (m := { m with body := b }) reached.active later here' full
    refine ⟨_, eq ▸ List.mem_cons_self, ?_⟩
    exact (gains.before reached.kept).after after

theorem txBundleLocked_placed (reached : Reached t s m)
    (sounds : ∀ block ∈ blocks, Sound (core block.1.body)) (here : Here i dest (core m.body))
    (some : payload ≠ []) (small : ackAggReserve + 2 + payload.length ≤ ackWireMax)
    (run : (txBundleLocked i payload dest effPayload m).Blocks (Between t) s blocks 0) :
    Placed payload blocks := by
  unfold txBundleLocked at run
  rw [if_neg (by simpa using some)] at run
  have throttled {s0 m : Node ρ} {blocks : List (Node ρ × Node ρ)}
      (run : ((do unlock; pure txThrottle : Prog (Node ρ) Int) m).Blocks (Between t) s0 blocks 0) :
      False := by
    obtain ⟨s', rest, -, -, run⟩ := Res.Blocks.unlock run
    exact absurd run.pure.2 (by decide)
  have look := run.sec
  cases blocked : soloBlocked m.body with
  | true =>
    rw [Sec.read_apply, blocked] at look
    exact (throttled look).elim
  | false =>
    rw [Sec.read_apply, blocked] at look
    have look := Res.Blocks.sec look
    obtain ⟨rest, eq⟩ := run.first
    have sound : Sound (core s.body) := sounds (s, _) (eq ▸ List.mem_cons_self)
    cases full : stagedFullFor m.body i payload.length effPayload with
    | false =>
      rw [Sec.read_apply, full] at look
      exact txBundleAppend_placed reached sound here some small (room_of_not_full full) look
    | true =>
      rw [Sec.read_apply, full] at look
      obtain ⟨r, s', m', before, after, rfl, flush, look⟩ :=
        Res.Blocks.bind (x := aggFlushLocked i m) look
      obtain ⟨reached', here'⟩ := aggFlushLocked_ends reached sound here flush
      obtain ⟨rest', eq'⟩ := look.first
      have sound' : Sound (core s'.body) :=
        sounds (s', _) (List.mem_append_right _ (eq' ▸ List.mem_cons_self))
      have look := Res.Blocks.sec look
      cases still : stagedFullFor m'.body i payload.length effPayload with
      | true =>
        rw [Sec.read_apply, still] at look
        exact (throttled look).elim
      | false =>
        rw [Sec.read_apply, still] at look
        exact (txBundleAppend_placed reached' sound' here' some small (room_of_not_full still)
          look).right _

section Air

abbrev offAir : Frame (Body ρ) := growth (·.airs = false)

omit [Platform ρ] in
theorem handed_kept {b b' : Body ρ} (silent : offAir.rel b b') : handed b' = handed b := by
  obtain ⟨news, grown, none⟩ := silent
  rw [handed, grown, List.filter_append, List.filter_eq_nil_iff.mpr (by simpa using none)]
  rfl

theorem offAir_lax : Lax (offAir : Frame (Body ρ)) := growth_lax fun e plain => by
  cases e <;> first | rfl | cases plain

theorem peerGet_offAir (mac : Mac) : offAir.Around (peerGet mac : Code ρ (Option PeerIx)) :=
  offAir_lax.peerGet (growth_platform _) (fun same => growth_modify fun b => (same b).2) mac
    fun _ => growth_emit rfl

def slotAir : Phases (Option BufIx) (Body ρ) where
  idle := none
  rel _ p b _ b' := match p with
    | none => offAir.rel b b'
    | some _ => SlotSends b b'
  refl _ b := offAir.refl b
  trans := offAir.trans

theorem sendOut_slot (j : BufIx) (pmcs : Byte) (t : Nat) (b : Body ρ) :
    SlotSends b (sendOut j pmcs t b).2 := by
  rw [sendOut, Sec.bind_apply, Sec.read_apply]
  cases held : b.bufs j with
  | none => exact .inl (handed_kept (offAir_lax.note (e := .nullDeref) rfl t b))
  | some buf => exact .inr ⟨j, buf, pmcs, _, held, rfl⟩

theorem slotAir_bundles : Bundles (slotAir : Phases (Option BufIx) (Body ρ)) some where
  lax _ := offAir_lax.mono id
  stage _ i len dest effPayload :=
    offAir_lax.stageOpen i dest (fun _ => growth_emit rfl) len effPayload
  blocked t i b _ := offAir_lax.aggSeal i (fun _ => growth_emit rfl) (fun _ => growth_emit rfl) t b
  launch t i b j _ _ := offAir.trans
    (offAir_lax.aggSeal i (fun _ => growth_emit rfl) (fun _ => growth_emit rfl) t b)
    (offAir_lax.markSending j t _)
  fire t j pmcs b := sendOut_slot j pmcs t b

omit [Platform ρ] in
theorem slotAir_sends {t : Nat} {p q : Option BufIx} {b b' : Body ρ}
    (moved : slotAir.rel t p b q b') : SlotSends b b' := by
  cases p with
  | none => exact .inl (handed_kept moved)
  | some j => exact moved

end Air

section Decision

variable {b : Body ρ} (found : (peerGet dest t b).1 = some i) (len : Nat)
include found

theorem txRoute_spent (spent : ((peerGet dest t b).2.peers i).curRetries = 0) :
    ∃ mcs, txRoute len dest t b = (.untracked mcs, (peerGet dest t b).2) := by
  rw [txRoute_apply]
  generalize peerGet dest t b = out at found spent ⊢
  obtain ⟨entry, b'⟩ := out
  subst found
  exact ⟨_, if_pos spent⟩

theorem txRoute_granted (granted : ((peerGet dest t b).2.peers i).curRetries ≠ 0)
    (short : len + (envBundleHdr + 2) ≤ ackWireMax) :
    ∃ effPayload, (txRoute len dest t b).1 = .bundle i effPayload := by
  rw [txRoute_apply]
  generalize peerGet dest t b = out at found granted ⊢
  obtain ⟨entry, b'⟩ := out
  subst found
  have wrapped : unwrapped i len b' = false := by grind [unwrapped]
  exact ⟨_, congrArg Prod.fst ((if_neg granted).trans (if_neg (by simp [wrapped])))⟩

end Decision

section Whole

variable {s0 e0 s1 e1 : Node ρ} {later : List (Node ρ × Node ρ)}

theorem ackTxUc_locked {m : Node ρ} {r : Int} (on : noack m.body.cfg payload.length dest = false)
    (run : (ackTxUc payload dest m).Blocks (Between t) s0 ((s0, e0) :: (s1, e1) :: later) r) :
    e0 = m ∧ s1.active = t ∧ ((do
      match ← sec (txRoute payload.length dest) with
      | .untracked mcs =>
        unlock
        sec do
          modifyStats fun st => { st with dbgPathPlain := st.dbgPathPlain + 1 }
          txPlainUntracked payload dest mcs
      | .bundle i effPayload => txBundleLocked i payload dest effPayload
      | .plain i pmcs => txPlainLocked i payload dest pmcs : Prog (Node ρ) Int)
        s1.acquire).Blocks (Between t) s1 ((s1, e1) :: later) r := by
  have run := run.sec
  rw [Sec.read_apply, on] at run
  obtain ⟨s', rest, eq, moved, -, run⟩ := Res.Blocks.lock run
  cases eq
  obtain ⟨rest', eq'⟩ := run.first
  cases eq'
  exact ⟨rfl, between_active moved, run⟩

theorem ackTxUc_placed {m : Node ρ} (on : noack m.body.cfg payload.length dest = false)
    (nonempty : payload ≠ []) (short : payload.length + (envBundleHdr + 2) ≤ ackWireMax)
    (sounds : ∀ block ∈ (s1, e1) :: later, Sound (core block.1.body))
    (found : (peerGet dest t s1.body).1 = some i)
    (granted : ((peerGet dest t s1.body).2.peers i).curRetries ≠ 0)
    (run : (ackTxUc payload dest m).Blocks (Between t) s0 ((s0, e0) :: (s1, e1) :: later) 0) :
    Placed payload ((s1, e1) :: later) ∧ SlotsOnly ((s1, e1) :: later) := by
  obtain ⟨-, active, run⟩ := ackTxUc_locked on run
  have run := run.sec
  have sound : Sound (core s1.body) := sounds (s1, e1) List.mem_cons_self
  obtain ⟨effPayload, route⟩ := txRoute_granted found payload.length granted short
  obtain ⟨calms, routed⟩ : Calms (core s1.body) (core (txRoute payload.length dest t s1.body).2) ∧
      Routed payload.length dest (core (txRoute payload.length dest t s1.body).2)
        (txRoute payload.length dest t s1.body).1 := txRoute_does sound.inv s1.body rfl
  rw [Locked.acquire_active, Locked.acquire_body, active] at run
  have quiet := offAir_lax.txRoute dest (peerGet_offAir dest) payload.length t s1.body
  rw [route] at run routed
  constructor
  · refine txBundleLocked_placed ?_ sounds routed.1 nonempty routed.2 run
    exact ⟨rfl, calms.chain, calms.kept sound.inv⟩
  · have governs : slotAir.Governs (txBundleLocked i payload dest effPayload : Prog (Node ρ) Int) :=
      slotAir_bundles.txBundleLocked i payload dest effPayload
    exact (Res.Follows.prepend active.symm quiet (governs _)).each_block slotAir_sends run

theorem ackTxUc_bypassed {m : Node ρ} (reached : Reached t s0 m)
    (on : noack m.body.cfg payload.length dest = false)
    (sounds : ∀ block ∈ (s1, e1) :: later, Sound (core block.1.body))
    (found : (peerGet dest t s1.body).1 = some i)
    (spent : ((peerGet dest t s1.body).2.peers i).curRetries = 0)
    (run : (ackTxUc payload dest m).Blocks (Between t) s0 ((s0, e0) :: (s1, e1) :: later) 0) :
    Bypassed payload dest ((s0, e0) :: (s1, e1) :: later) := by
  obtain ⟨rfl, active, run⟩ := ackTxUc_locked on run
  have run := run.sec
  have sound : Sound (core s1.body) := sounds (s1, e1) List.mem_cons_self
  obtain ⟨mcs, route⟩ := txRoute_spent found payload.length spent
  rw [Locked.acquire_active, Locked.acquire_body, active, route] at run
  obtain ⟨s2, rest, eq, moved, run⟩ := Res.Blocks.unlock run
  obtain ⟨rfl, -⟩ := run.sec_last
  cases eq
  have calms : Calms (core s1.body) (core (peerGet dest t s1.body).2) :=
    (peerGet_does s1.body rfl).1
  have still : StillSec (do
      modifyStats fun st => { st with dbgPathPlain := st.dbgPathPlain + 1 }
      txPlainUntracked payload dest mcs : Code ρ Int) :=
    .bind (modifyStats_still fun _ => rfl) fun _ => txPlainUntracked_still payload dest mcs
  refine ⟨?_, _, List.mem_cons_of_mem _ (List.mem_cons_of_mem _ List.mem_cons_self), mcs, _, rfl⟩
  simp only [List.mem_cons, List.not_mem_nil, or_false, forall_eq_or_imp, forall_eq]
  refine ⟨reached.kept, ?_, (still s2.active s2.body).kept⟩
  rw [Locked.release_body]
  exact calms.kept sound.inv

end Whole

theorem halowAckTx_blocks {r : Int}
    (run : (Call.prog (.tx payload dest) s).Blocks (Between t) s blocks (.code r)) :
    ∃ before s' m stats, blocks = before ++ [(s', { m with body := { m.body with stats } })] ∧
      (ackTxUc payload dest { s with body := (txRegister payload dest s.active s.body).2 }).Blocks
        (Between t) s (before ++ [(s', m)]) r := by
  obtain ⟨r', s', m, before, after, rfl, run, last⟩ :=
    Res.Blocks.bind (x := halowAckTx payload dest s) run
  obtain ⟨rfl, answer⟩ := last.pure
  cases answer
  obtain ⟨r', s'', m', before', after, eq, run, last⟩ := Res.Blocks.bind
    (x := ackTxUc payload dest { s with body := (txRegister payload dest s.active s.body).2 }) run
  obtain ⟨rfl, rfl⟩ := last.sec.pure
  refine ⟨before', s'', m', if r = 0 then { m'.body.stats with txFrames := m'.body.stats.txFrames + 1 }
    else m'.body.stats, eq.trans ?_, run⟩
  rw [Sec.when_apply]
  split
  · rfl
  · rfl

section Counted

variable {before : List (Node ρ × Node ρ)} {s m : Node ρ} (stats : Stats)

theorem counted_kept (b : Body ρ) : Kept (core b) (core { b with stats }) :=
  .view (fun _ => rfl) fun _ _ => .inl (.refl _)

theorem Placed.counted (placed : Placed payload (before ++ [(s, m)])) :
    Placed payload (before ++ [(s, { m with body := { m.body with stats } })]) := by
  simp only [Placed, List.mem_append, List.mem_singleton, or_and_right, exists_or,
    exists_eq_left] at placed ⊢
  exact placed.imp_right fun gains => gains.after (counted_kept stats m.body)

omit [Platform ρ] in
theorem SlotsOnly.counted (slots : SlotsOnly (before ++ [(s, m)])) :
    SlotsOnly (before ++ [(s, { m with body := { m.body with stats } })]) := by
  simp only [SlotsOnly, List.forall_mem_append, List.forall_mem_singleton] at slots ⊢
  exact slots

theorem Bypassed.counted (bypassed : Bypassed payload dest (before ++ [(s, m)])) :
    Bypassed payload dest (before ++ [(s, { m with body := { m.body with stats } })]) := by
  obtain ⟨kept, raw⟩ := bypassed
  simp only [List.forall_mem_append, List.forall_mem_singleton] at kept
  simp only [List.mem_append, List.mem_singleton, or_and_right, exists_or, exists_eq_left] at raw
  constructor
  · simp only [List.forall_mem_append, List.forall_mem_singleton]
    exact ⟨kept.1, kept.2.trans (counted_kept stats m.body)⟩
  · simp only [List.mem_append, List.mem_singleton, or_and_right, exists_or, exists_eq_left]
    exact raw

end Counted

theorem ackTxUc_two {s0 m : Node ρ} {r : Int} (on : noack m.body.cfg payload.length dest = false)
    (run : (ackTxUc payload dest m).Blocks (Between t) s0 blocks r) :
    ∃ s1 e1 later, blocks = (s0, m) :: (s1, e1) :: later := by
  have run := run.sec
  rw [Sec.read_apply, on] at run
  obtain ⟨s1, rest, rfl, -, -, run⟩ := Res.Blocks.lock run
  obtain ⟨later, rfl⟩ := run.first
  exact ⟨s1, _, later, rfl⟩

theorem two_blocks {α β : Type} {before : List (α × β)} {s s0 s1 : α} {m e0 e1 : β}
    {later : List (α × β)} (m' : β)
    (eq : before ++ [(s, m)] = (s0, e0) :: (s1, e1) :: later) :
    ∃ e later', before ++ [(s, m')] = (s0, e0) :: (s1, e) :: later' := by
  match before with
  | [] => cases eq
  | [_] =>
    cases eq
    exact ⟨m', [], rfl⟩
  | _ :: _ :: more =>
    cases eq
    exact ⟨e1, more ++ [(s, m')], rfl⟩

structure Budgeted (b : Body ρ) : Prop where
  live : b.cfg.maxRetries ≠ 0
  entries : ∀ i, (b.peers i).dial.inUse = true → (b.peers i).dial.curRetries ≠ 0

omit [Platform ρ] in
theorem Tuned.budgeted {b : Body ρ} {d d' : Dial} (tuned : Tuned b d d') (live : b.cfg.maxRetries ≠ 0)
    (before : d.inUse = true → d.curRetries ≠ 0) : d'.inUse = true → d'.curRetries ≠ 0 := by
  cases tuned with
  | restarted how =>
    cases how with
    | opened mac => exact fun _ => live
    | reset next => exact before
    | rearmed => exact before
  | granted => exact fun _ => live
  | measured q bound => exact before

theorem Stroke.budgeted {ok : Call → Prop}
    (each : ∀ cfg, ok (.configApply cfg) → (configClamp cfg).maxRetries ≠ 0) {b b' : Body ρ}
    (stroke : Stroke ok b b') (budgeted : Budgeted b) : Budgeted b' := by
  constructor
  · rcases stroke.cfg with same | ⟨cfg, allowed, new⟩
    · exact same ▸ budgeted.live
    · exact new ▸ each cfg allowed
  · intro i
    have before := budgeted.entries i
    rcases stroke.dial i with same | tuned | ⟨τ, steps⟩
    · exact same ▸ before
    · exact tuned.budgeted budgeted.live before
    · generalize (b'.peers i).dial = d' at steps
      cases steps <;> exact before

theorem ReachableBy.budgeted {ok : Call → Prop}
    (each : ∀ cfg, ok (.configApply cfg) → (configClamp cfg).maxRetries ≠ 0) {c : Threads ρ}
    (h : ReachableBy ok c) : Budgeted c.body := by
  refine h.keeps ?_ fun b b' stroke => stroke.budgeted each
  intro stored r allowed
  exact ⟨each stored allowed, by simp [AckPeer.dial, AckPeer.zero]⟩

theorem Budgeted.peerGet {ok : Call → Prop}
    (each : ∀ cfg, ok (.configApply cfg) → (configClamp cfg).maxRetries ≠ 0) {b : Body ρ}
    (budgeted : Budgeted b) (found : (peerGet dest t b).1 = some i) :
    ((Ack.peerGet dest t b).2.peers i).curRetries ≠ 0 := by
  have moved : (strokes ok).rel b (Ack.peerGet dest t b).2 := peerGet_strokes dest t b
  have here : Here i dest (core (Ack.peerGet dest t b).2) := (peerGet_does b rfl).2 i found
  have after : Budgeted (Ack.peerGet dest t b).2 := by
    generalize (Ack.peerGet dest t b).2 = b' at moved
    induction moved with
    | refl => exact budgeted
    | tail _ stroke ih => exact stroke.budgeted each ih
  exact after.entries i here.1

def calling (c : Threads ρ) (t : Nat) (call : Call) : Threads ρ :=
  ⟨c.shared, Function.update c.threads t (some ⟨fun _ => true, call.prog⟩)⟩

theorem calls_disciplined_by (ok : Call → Prop) :
    Pool.Disciplined (ackDiscipline (ρ := ρ)).locked (allowedBy ok) := by
  rintro t p ⟨call, -, eq, ticks⟩
  exact calls_disciplined t p ⟨call, eq, ticks⟩

-- The entry's budget is read where `ack_tx_uc` has taken the mutex, in the second block.
theorem unicast_tracked_iff {ok : Call → Prop} {c last : Threads ρ} (h : ReachableBy ok c)
    (idle : c.threads t = none) (made : ok (.tx payload dest)) (unicast : isBroadcast dest = false)
    (nonempty : 1 ≤ payload.length) (short : payload.length ≤ 4014)
    {blocks : List (Node ρ × Node ρ)}
    (run : Pool.Spell (lockedMachine drift) (allowedBy ok) t (calling c t (.tx payload dest)) blocks
      (.code 0) last)
    (live : ∀ first ∈ blocks.head?, first.1.body.cfg.maxRetries ≠ 0) :
    ∃ s₀ e₀ s₁ e₁ later, blocks = (s₀, e₀) :: (s₁, e₁) :: later ∧
      ∀ i, (peerGet dest t s₁.body).1 = some i →
        (Placed payload blocks ∧ SlotsOnly blocks ↔
          ((peerGet dest t s₁.body).2.peers i).curRetries ≠ 0) ∧
        (Bypassed payload dest blocks ↔
          ((peerGet dest t s₁.body).2.peers i).curRetries = 0) ∧
        ((∀ cfg, ok (.configApply cfg) → (configClamp cfg).maxRetries ≠ 0) →
          Placed payload blocks ∧ SlotsOnly blocks) := by
  have called : ReachableBy ok (calling c t (.tx payload dest)) :=
    .step h (.call c t _ ⟨_, made, rfl, by simp⟩ idle)
  obtain ⟨s, moved, -, body⟩ := run.run (calls_disciplined_by ok) called.reachable.good
    (Function.update_self ..)
  have starts := run.starts called
  have sounds (block : Node ρ × Node ρ) (member : block ∈ blocks) : Sound (core block.1.body) := by
    obtain ⟨c', reach, eq⟩ := starts block member
    have reach : ReachableBy ok c' := reach
    rw [eq]
    exact ⟨reach.reachable.inv, reach.reachable.books anyAccount⟩
  obtain ⟨before, s', m, stats, rfl, uc⟩ := halowAckTx_blocks body
  let m₀ : Node ρ := { s with body := (txRegister payload dest s.active s.body).2 }
  have on : noack m₀.body.cfg payload.length dest = false := by
    obtain ⟨rest, eq⟩ := body.first
    have retries := live (s, _) (by rw [eq]; rfl)
    have wire : payload.length ≤ ackWireMax := short.trans (by decide)
    simp only [noack, unicast, Bool.or_false, Bool.or_eq_false_iff, decide_eq_false_iff_not, not_lt]
    exact ⟨retries, wire⟩
  obtain ⟨s₁, e₁, later, two⟩ := ackTxUc_two (m := m₀) on uc
  let m₁ : Node ρ := { m with body := { m.body with stats } }
  obtain ⟨e, later', two'⟩ := two_blocks m₁ two
  refine ⟨s, _, s₁, e, later', two', fun i found => ?_⟩
  have sounds' (block : Node ρ × Node ρ) (member : block ∈ (s₁, e₁) :: later) :
      Sound (core block.1.body) := by
    have member : block ∈ before ++ [(s', m)] := two ▸ List.mem_cons_of_mem _ member
    simp only [List.forall_mem_append, List.forall_mem_singleton] at sounds
    rcases List.mem_append.mp member with early | last
    · exact sounds.1 block early
    · rw [List.mem_singleton.mp last]
      exact sounds.2
  have reached : Reached t s m₀ := by
    have still : StillSec (txRegister payload dest : Code ρ Unit) :=
      .bind (modifyStats_still fun _ => rfl) fun _ =>
        platform_still _ (Platform.statisticsRadioRegisterTxPackage_le _)
    have same := still s.active s.body
    have active : s.active = t := between_active moved
    exact ⟨active, same.calms.chain, same.kept⟩
  have placed (granted : ((peerGet dest t s₁.body).2.peers i).curRetries ≠ 0) :
      Placed payload (before ++ [(s', m₁)]) ∧ SlotsOnly (before ++ [(s', m₁)]) := by
    suffices tracked : Placed payload (before ++ [(s', m)]) ∧ SlotsOnly (before ++ [(s', m)]) from
      ⟨tracked.1.counted stats, tracked.2.counted stats⟩
    rw [two] at uc ⊢
    have nonempty : payload ≠ [] := List.length_pos_iff.mp nonempty
    have small : payload.length + (envBundleHdr + 2) ≤ ackWireMax := by
      change payload.length + 8 ≤ 4022
      omega
    obtain ⟨placed, slots⟩ := ackTxUc_placed (m := m₀) on nonempty small sounds' found granted uc
    refine ⟨placed.right [_], List.forall_mem_cons.mpr ⟨.inl ?_, slots⟩⟩
    rfl
  have bypassed (spent : ((peerGet dest t s₁.body).2.peers i).curRetries = 0) :
      Bypassed payload dest (before ++ [(s', m₁)]) := by
    refine Bypassed.counted stats ?_
    rw [two] at uc ⊢
    exact ackTxUc_bypassed reached on sounds' found spent uc
  have apart (bypass : Bypassed payload dest (before ++ [(s', m₁)])) :
      ¬ Placed payload (before ++ [(s', m₁)]) :=
    bypass.not_placed fun block member => (sounds block member).inv
  refine ⟨⟨fun taken spent => apart (bypassed spent) taken.1, placed⟩,
    ⟨fun bypass => ?_, bypassed⟩, ?_⟩
  · by_contra granted
    exact apart bypass (placed granted).1
  · intro each
    obtain ⟨c', reach, eq⟩ := starts (s₁, e) (two' ▸ List.mem_cons_of_mem _ List.mem_cons_self)
    have reach : ReachableBy ok c' := reach
    have budgeted : Budgeted s₁.body := by
      rw [show s₁ = _ from eq]
      exact reach.budgeted each
    exact placed (budgeted.peerGet each found)

def oneByte : Call := .tx [7#8] ⟨2, 0, 0, 0, 0, 1⟩

def sendsOneByte (c : Threads Board) : Option (List (Node Board × Node Board) × Result) :=
  (oneByte.prog { c.shared with active := 1 }).solo (·.active == 1) { c.shared with active := 1 }

def sentOneByte (c : Threads Board)
    (test : List (Node Board × Node Board) → Bool) : Bool :=
  (sendsOneByte c).any fun r => test r.1 && match r.2 with
    | .code 0 => true
    | _ => false

theorem sentOneByte_spell {c : Threads Board}
    {test : List (Node Board × Node Board) → Bool} (sent : sentOneByte c test = true) :
    ∃ blocks last, test blocks = true ∧ Pool.Spell (lockedMachine drift) (allowedBy fun _ => True) 1
      (calling c 1 oneByte) blocks (.code 0) last := by
  obtain ⟨⟨blocks, r⟩, solo, ok⟩ := (Option.any_eq_true _ _).mp sent
  rw [Bool.and_eq_true] at ok
  have zero : r = .code 0 := by
    obtain ⟨-, ok⟩ := ok
    split at ok
    · assumption
    · cases ok
  subst zero
  have stays (s : Node Board) (own : (s.active == 1) = true) :
      (lockedMachine drift).enter 1 s = s := by
    rw [← beq_iff_eq.mp own]
    rfl
  obtain ⟨last, spell⟩ := Pool.Spell.solo stays solo
  exact ⟨blocks, last, ok.1, spell⟩

def trackedBlocks : List (Node Board × Node Board) → Bool
  | (s₀, _) :: (s₁, _) :: _ =>
    let found := peerGet ⟨2, 0, 0, 0, 0, 1⟩ 1 s₁.body
    decide (s₀.body.cfg.maxRetries = 3) && decide (found.1 = some 0) &&
      decide ((found.2.peers 0).curRetries = 3)
  | _ => false

theorem unicast_tracked_iff_oneByte : ∃ blocks last,
    Pool.Spell (lockedMachine drift) (allowedBy fun _ => True) 1
      (calling quietNode 1 oneByte) blocks (.code 0) last ∧
    trackedBlocks blocks = true ∧ Placed [7#8] blocks ∧ SlotsOnly blocks := by
  have sent : sentOneByte quietNode trackedBlocks = true := by
    decide +kernel
  obtain ⟨blocks, last, tracked, spell⟩ := sentOneByte_spell sent
  have reach : ReachableBy (fun _ => True)
      quietNode := (started_reachable _ _).by_any
  refine ⟨blocks, last, spell, tracked, ?_⟩
  match blocks, tracked, spell with
  | (s₀, e₀) :: (s₁, e₁) :: later, tracked, spell =>
    simp only [trackedBlocks, Bool.and_eq_true, decide_eq_true_eq] at tracked
    obtain ⟨⟨live, found⟩, granted⟩ := tracked
    obtain ⟨_, _, _, _, _, eq, decided⟩ := unicast_tracked_iff reach rfl trivial (by decide)
      (by decide) (by decide) spell (by simp [live])
    cases eq
    exact (decided 0 found).1.mpr (by rw [granted]; decide)

def offAndOn : List (Move Board) :=
  [.start 1 (.onRx [7#8] ⟨2, 0, 0, 0, 0, 1⟩ (some ⟨2, 0, 0, 0, 0, 2⟩) 0), .resume 1, .resume 1,
    .resume 1, .start 1 (.configApply halowAckConfigSetDefault), .resume 1, .resume 1, .resume 1,
    .resume 1, .resume 1]

def slotless : List (Node Board × Node Board) → Bool
  | [] => false
  | first :: later =>
    decide (first.1.body.cfg.maxRetries = 3) && (first :: later).all fun block =>
      allBufs.all fun j => (block.2.body.bufs j).isNone

theorem unicast_untracked_offAndOn : ∃ c blocks last, Reachable c ∧ c.threads 1 = none ∧
    c.body.cfg = halowAckConfigSetDefault ∧
    Pool.Spell (lockedMachine drift) (allowedBy fun _ => True) 1 (calling c 1 oneByte) blocks
      (.code 0) last ∧ slotless blocks = true ∧ ¬ Placed [7#8] blocks := by
  have run : ∃ c ∈ playAll offAndOn
        (started { halowAckConfigSetDefault with maxRetries := 0 } (.quiet 7 8)),
      c.threads 1 = none ∧ c.body.cfg = halowAckConfigSetDefault ∧
        sentOneByte c slotless = true := by
    decide +kernel
  obtain ⟨c, -, reach, idle, live, sent⟩ := played run
  obtain ⟨blocks, last, empty, spell⟩ := sentOneByte_spell sent
  refine ⟨c, blocks, last, reach, idle, live, spell, empty, ?_⟩
  rintro ⟨block, member, j, payloads, -, buf, held, -⟩
  match blocks, empty with
  | first :: later, empty =>
    rw [slotless, Bool.and_eq_true, List.all_eq_true] at empty
    have none := List.all_eq_true.mp (empty.2 block member) j (List.mem_finRange j)
    rw [Option.isNone_iff_eq_none] at none
    exact absurd (none.symm.trans held) (by simp)

end RnodeHalow.Ack
