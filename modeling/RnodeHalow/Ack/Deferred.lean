import RnodeHalow.Ack.Obligation
import RnodeHalow.Shared.Phases

set_option autoImplicit false

namespace RnodeHalow.Ack

open Resumption
open Function (update update_of_ne)

variable {ρ : Type} [Platform ρ] {n : Nat} {α β : Type}

def AckPeer.overdue (p : AckPeer) (now : Jiffy) : Bool :=
  p.inUse && p.ackDue && reached now p.ackDueJiff

def tickJiffies (b : Body ρ) : Nat :=
  Platform.jiffies (Platform.elapse (Platform.halowTxVacancyWatchdog b.plat))

-- The tick reads the clock once, after the vacancy watchdog.
def tickTime (b : Body ρ) : Jiffy := BitVec.ofNat 32 (tickJiffies b)

-- An ACK is owed whose deadline, as a time that does not wrap, has passed.
def AckPeer.PastDue (p : AckPeer) (deadline now : Nat) : Prop :=
  p.inUse = true ∧ p.ackDue = true ∧ deadline ≤ now

instance (p : AckPeer) (deadline now : Nat) : Decidable (p.PastDue deadline now) :=
  inferInstanceAs (Decidable (_ ∧ _ ∧ _))

theorem reached_iff {deadline now : Nat} (late : deadline ≤ now) :
    reached (BitVec.ofNat 32 now) (BitVec.ofNat 32 deadline) = true ↔
      (now - deadline) % 2 ^ 32 < 2 ^ 31 := by
  have age : (BitVec.ofNat 32 now - BitVec.ofNat 32 deadline).toNat = (now - deadline) % 2 ^ 32 := by
    simp only [BitVec.toNat_sub, BitVec.toNat_ofNat]
    omega
  have sign (x : BitVec 32) : x.slt 0 = x.msb := BitVec.slt_zero_eq_msb
  rw [reached, Bool.not_eq_true', sign, BitVec.msb_eq_false_iff_two_mul_lt, age]
  omega

theorem overdue_congr {p q : AckPeer} (same : q.debt = p.debt) (now : Jiffy) :
    q.overdue now = p.overdue now := by
  simp only [AckPeer.debt, Prod.mk.injEq] at same
  simp only [AckPeer.overdue, same.1, same.2.2.1, same.2.2.2]

theorem ackDue_congr {p q : AckPeer} (same : q.debt = p.debt) : q.ackDue = p.ackDue :=
  congrArg (fun d => d.2.2.1) same

structure Spares (c c' : Core) : Prop where
  cfg : c'.cfg = c.cfg
  ewma : c'.counts.ackRttEwmaMs = c.counts.ackRttEwmaMs
  debt : ∀ i, (c'.peers i).debt = (c.peers i).debt
  trace : c.trace <:+ c'.trace

theorem Spares.refl (c : Core) : Spares c c := ⟨rfl, rfl, fun _ => rfl, List.suffix_refl _⟩

theorem Spares.trans {a b c : Core} (first : Spares a b) (second : Spares b c) : Spares a c :=
  ⟨second.cfg.trans first.cfg, second.ewma.trans first.ewma,
    fun i => (second.debt i).trans (first.debt i), first.trace.trans second.trace⟩

theorem Calms.cfg {c c' : Core} (calms : Calms c c') : c'.cfg = c.cfg := by
  induction calms with
  | refl => rfl
  | tail _ calm ih =>
    rw [← ih]
    cases calm <;> rfl

theorem Still.spares {c c' : Core} (still : Still c c') : Spares c c' :=
  ⟨still.calms.cfg, congrArg Counts.ackRttEwmaMs still.counts, still.debt, still.calms.suffix⟩

def SparesSec (m : Code ρ α) : Prop :=
  Sec.Along (fun _ b b' => Spares (core b) (core b')) m

theorem StillSec.spares {m : Code ρ α} (still : StillSec m) : SparesSec m :=
  fun t b => (still t b).spares

def sparing : Frame (Body ρ) where
  rel b b' := Spares (core b) (core b')
  refl b := .refl (core b)
  trans := Spares.trans

theorem emit_spares (e : Event) : sparing.Around (emit e : Code ρ Unit) :=
  fun _ _ => ⟨rfl, rfl, fun _ => rfl, List.suffix_cons _ _⟩

theorem modify_spares {f : Body ρ → Body ρ} (cfg : ∀ b, (f b).cfg = b.cfg)
    (ewma : ∀ b, (f b).stats.ackRttEwmaMs = b.stats.ackRttEwmaMs)
    (peers : ∀ b, (f b).peers = b.peers) (trace : ∀ b, (f b).trace = b.trace) :
    sparing.Around (Sec.modify f) :=
  fun _ b => ⟨cfg b, ewma b, fun i => congrArg (fun p => AckPeer.debt (p i)) (peers b),
    [], (trace b).symm⟩

theorem modifyStats_spares {f : Stats → Stats}
    (ewma : ∀ st, (f st).ackRttEwmaMs = st.ackRttEwmaMs) :
    sparing.Around (modifyStats f : Code ρ Unit) :=
  modify_spares (fun _ => rfl) (fun b => ewma b.stats) (fun _ => rfl) fun _ => rfl

theorem modifyPeer_spares (i : PeerIx) {f : AckPeer → AckPeer} (same : ∀ p, (f p).debt = p.debt) :
    sparing.Around (modifyPeer i f : Code ρ Unit) := by
  intro t b
  have debt := entry_rel (R := fun p q => q.debt = p.debt) (fun _ => rfl) (same (b.peers i))
  exact ⟨rfl, rfl, debt, List.suffix_refl _⟩

theorem sparing_lax : Lax (sparing : Frame (Body ρ)) where
  vacancy := halowGetTxVacancy_still.spares
  note _ := emit_spares _
  count same := modifyStats_spares same
  entry i _ same := modifyPeer_spares i fun p => (same p).2
  clock := nowJ_still.spares
  timeS := (platform_still _ Platform.timeS_le).spares
  malloc _ := (platform_still _ (Platform.osMalloc_le _)).spares
  store same := by
    refine modify_spares ?_ ?_ ?_ ?_ <;>
    · intro b
      rw [same b]

variable (j : BufIx)

theorem bufRelease_spares : sparing.Around (bufRelease j : Code ρ Unit) :=
  sparing_lax.bufRelease j (platform_still _ Platform.osFree_le).spares

theorem sparing_tunes : Tunes (sparing : Frame (Body ρ)) where
  clock := nowJ_still.spares
  count same := (modifyStats_still same).spares
  tune i _ same := modifyPeer_spares i fun p => (congrArg AckPeer.debt (same p) :)
  log _ _ b := sparing.refl b

theorem raDownStep_spares (i : PeerIx) : sparing.Around (raDownStep i : Code ρ Unit) := by
  refine sparing_tunes.raDownStep i (.bind nowJ_still.spares fun now => ?_)
  exact .bind (modifyPeer_spares i fun _ => rfl) fun _ => sparing_lax.raKickInflight i

theorem raOnDrop_spares (i : PeerIx) : sparing.Around (raOnDrop i : Code ρ Unit) :=
  sparing_tunes.raOnDrop i (raDownStep_spares i)

def SparesProg (m : Prog (Node ρ) α) : Prop := Steers (fun b b' => Spares (core b) (core b')) m

theorem bufTxSend_spares (pmcs : Byte) :
    sparing.phases.Governs (bufTxSend j pmcs : Prog (Node ρ) Unit) := by
  refine .bind (.sec fun _ => sparing_lax.markSending j) fun _ => .bind .unlock fun _ => ?_
  refine .bind (.sec fun _ => ?_) fun _ => .bind .lock fun _ => .sec fun _ => sparing_lax.sendDone j
  refine sparing_lax.sendOut j (emit_spares _) (fun data dest mcs tid => ?_) pmcs
  exact (halowTxP_still data dest mcs tid).spares

theorem aggFlushLocked_spares (i : PeerIx) :
    sparing.phases.Governs (aggFlushLocked i : Prog (Node ρ) Bool) := by
  refine .bind (.sec fun _ => ?_) fun r => ?_
  · exact sparing_lax.aggSeal i (fun _ => emit_spares _) fun _ => emit_spares _
  cases r with
  | nothing => exact .pure _
  | blocked => exact .pure _
  | sealed j pmcs => exact .bind (bufTxSend_spares j pmcs) fun _ => .pure _

theorem tickServiceBufs_spares (now : Jiffy) :
    SparesProg (tickServiceBufs now : Prog (Node ρ) Unit) := by
  refine Frame.Across.of_phases (F := sparing) (.bind (.sec fun _ => .read _) fun times => ?_)
  refine .forEach (fun j => .bind (.sec fun _ => ?_) fun due => ?_) _
  · exact sparing_lax.judgeBuf j bufRelease_spares now raOnDrop_spares _ _
  refine .when (.bind (.sec fun _ => ?_) fun r => ?_)
  · exact sparing_lax.retransmitPrep j bufRelease_spares now raOnDrop_spares (fun _ => emit_spares _)
      (sparing_lax.modifyBuf j _) cwndOnRetransTimeout_still.spares fun i =>
        (raOnRetrans_still i).spares
  cases r with
  | none => exact .pure ()
  | some mcs => exact bufTxSend_spares j mcs

theorem tickFlushHeldBundles_spares (now : Jiffy) :
    SparesProg (tickFlushHeldBundles now : Prog (Node ρ) Unit) := by
  refine Frame.Across.of_phases (F := sparing) (.forEach (fun i => ?_) _)
  refine .bind (.sec fun _ => .read _) fun p => .when ?_
  refine .bind (aggFlushLocked_spares i) fun flushed => .when (.sec fun _ => ?_)
  exact sparing_lax.holdDrop i bufRelease_spares now

structure Settles (now : Jiffy) (l : List PeerIx) (b b' : Body ρ) : Prop where
  trace : b.trace <:+ b'.trace
  paid : ∀ i ∈ l, (b.peers i).overdue now = true →
    (b'.peers i).ackDue = false ∧ AckHanded (b.peers i).mac b.trace b'.trace
  kept : ∀ i, (i ∈ l → (b.peers i).overdue now = false) → (b'.peers i).debt = (b.peers i).debt

theorem AckHanded.still {dest : Mac} {older mid trace : History}
    (handed : AckHanded dest older mid) (longer : mid <:+ trace) : AckHanded dest older trace := by
  obtain ⟨more, rfl⟩ := longer
  obtain ⟨news, rfl, e, member, ack⟩ := handed
  exact ⟨more ++ news, by simp, e, by simp [member], ack⟩

variable {now : Jiffy} {i : PeerIx} {b : Body ρ} {s : Node ρ}

omit [Platform ρ] in
theorem Settles.cons {rest : List PeerIx} {b mid b' : Body ρ} (first : Settles now [i] b mid)
    (more : Settles now rest mid b') : Settles now (i :: rest) b b' where
  trace := first.trace.trans more.trace
  paid k member was := by
    by_cases eq : k = i
    · subst eq
      obtain ⟨done, handed⟩ := first.paid k (by simp) was
      have settled : (mid.peers k).overdue now = false := by simp [AckPeer.overdue, done]
      exact ⟨(ackDue_congr (more.kept k fun _ => settled)).trans done, handed.still more.trace⟩
    · have same := first.kept k fun mem => absurd (List.mem_singleton.mp mem) eq
      have mac : (mid.peers k).mac = (b.peers k).mac := congrArg (fun d => d.2.1) same
      have later : k ∈ rest := (List.mem_cons.mp member).resolve_left eq
      obtain ⟨done, handed⟩ := more.paid k later ((overdue_congr same now).trans was)
      rw [mac] at handed
      exact ⟨done, handed.since first.trace⟩
  kept k none := by
    have one := first.kept k fun mem => none (by simp [List.mem_singleton.mp mem])
    refine (more.kept k fun mem => ?_).trans one
    exact (overdue_congr one now).trans (none (List.mem_cons_of_mem _ mem))

theorem Settles.around {l : List PeerIx} {a b c d : Body ρ} (first : Spares (core a) (core b))
    (settles : Settles now l b c) (last : Spares (core c) (core d)) : Settles now l a d where
  trace := (first.trace.trans settles.trace).trans last.trace
  paid i member was := by
    have mac : (b.peers i).mac = (a.peers i).mac := congrArg (fun d => d.2.1) (first.debt i)
    obtain ⟨done, handed⟩ := settles.paid i member ((overdue_congr (first.debt i) now).trans was)
    rw [mac] at handed
    exact ⟨(ackDue_congr (last.debt i)).trans done,
      (handed.since first.trace).still last.trace⟩
  kept i none := by
    have middle := settles.kept i fun mem => (overdue_congr (first.debt i) now).trans (none mem)
    exact ((last.debt i).trans middle).trans (first.debt i)

omit [Platform ρ] in
theorem Settles.refl (now : Jiffy) (b : Body ρ) : Settles now [] b b where
  trace := List.suffix_refl _
  paid := by simp
  kept _ _ := rfl

def AckPeer.settled (p : AckPeer) : AckPeer := { p with ackDue := false, rxSinceAck := 0 }

omit [Platform ρ] in
theorem takeDeferred_overdue {t : Nat} (due : (b.peers i).overdue now = true) :
    ∃ fids, takeDeferred now i t b = (some ((b.peers i).lastRxEvm, (b.peers i).mac, fids),
      { b with peers := update b.peers i (b.peers i).settled }) := by
  unfold AckPeer.overdue at due
  refine ⟨buildFids b.cfg (b.peers i), ?_⟩
  rw [takeDeferred, Sec.bind_apply, Sec.bind_apply, Sec.ite_apply]
  exact if_pos due

omit [Platform ρ] in
theorem takeDeferred_quiet {t : Nat} (due : (b.peers i).overdue now = false) :
    takeDeferred now i t b = (none, b) := by
  have skip : ¬ (b.peers i).overdue now = true := by simp [due]
  rw [takeDeferred, Sec.bind_apply, Sec.bind_apply, Sec.ite_apply]
  exact if_neg skip

theorem flushDeferredAck_settles (held : s.Held n) :
    Alone (flushDeferredAck now i) s fun _ s' => s'.Held n ∧ Settles now [i] s.body s'.body := by
  refine .seq (.sec ?_)
  cases due : (s.body.peers i).overdue now with
  | false =>
    rw [takeDeferred_quiet due]
    refine .pure _ ⟨held, List.suffix_refl _, fun k mem was => ?_, fun _ _ => rfl⟩
    rw [List.mem_singleton.mp mem, due] at was
    cases was
  | true =>
    obtain ⟨fids, taken⟩ := takeDeferred_overdue (t := s.active) due
    rw [taken]
    have held1 : Locked.Held n { s with body :=
        { s.body with peers := update s.body.peers i (s.body.peers i).settled } } := held
    refine .seq (.unlock (.seq ((sendAck_alone held1.release).mono ?_)))
    rintro _ s2 ⟨free2, _, peers, handed⟩
    refine .lock free2.acquire.1 ⟨free2.acquire.2, ?_⟩
    simp only [Locked.release_body] at peers handed
    simp only [Locked.acquire_body]
    have longer : s.body.trace <:+ s2.body.trace := by
      obtain ⟨news, eq, _⟩ := handed
      exact ⟨news, eq.symm⟩
    refine ⟨longer, fun k mem _ => ?_, fun k none => ?_⟩
    · rw [List.mem_singleton.mp mem, peers]
      exact ⟨by simp [AckPeer.settled], handed⟩
    · have other : k ≠ i := by
        rintro rfl
        rw [none (List.mem_singleton_self _)] at due
        cases due
      rw [peers, update_of_ne other]

theorem flushDeferredAcks_settle (l : List PeerIx) (held : s.Held n) :
    Alone (forEach l (flushDeferredAck now)) s fun _ s' =>
      s'.Held n ∧ Settles now l s.body s'.body := by
  induction l generalizing s with
  | nil => exact .pure _ ⟨held, .refl now s.body⟩
  | cons i rest ih =>
    refine .seq ((flushDeferredAck_settles held).mono ?_)
    rintro _ s1 ⟨held1, first⟩
    refine (ih held1).mono ?_
    rintro _ s2 ⟨held2, more⟩
    exact ⟨held2, first.cons more⟩

def tickScope (cfg : Config) : List PeerIx :=
  if cfg.maxRetries ≠ 0 ∧ cfg.ackHoldMs ≠ 0 then allPeers else []

theorem tickFlushDeferredAcks_settles (held : s.Held n) (on : s.body.cfg.maxRetries ≠ 0) :
    Alone (tickFlushDeferredAcks now) s fun _ s' =>
      s'.Held n ∧ Settles now (tickScope s.body.cfg) s.body s'.body := by
  refine .read (.when (fun hold => ?_) fun hold => ?_)
  · rw [tickScope, if_pos ⟨on, hold⟩]
    exact flushDeferredAcks_settle allPeers held
  · rw [tickScope, if_neg fun both => hold both.2]
    exact ⟨held, .refl now s.body⟩

theorem watchdog_spares :
    sparing.Around (platform (fun r => ((), Platform.halowTxVacancyWatchdog r)) : Code ρ Unit) :=
  (platform_still _ Platform.halowTxVacancyWatchdog_le).spares

theorem sampleNow_spares : sparing.Around (sampleNow : Code ρ Jiffy) :=
  .bind nowJ_still.spares fun _ => .bind .self fun _ =>
    .bind (emit_spares _) fun _ => .pure _

theorem tickLocked_settles (free : s.Free n) (start : Spares (core b) (core s.body))
    (on : b.cfg.maxRetries ≠ 0) :
    Alone (do
      lock
      tickServiceBufs now
      tickFlushHeldBundles now
      tickFlushDeferredAcks now
      sec checkStalePeers
      unlock) s fun _ s' => Settles now (tickScope b.cfg) b s'.body := by
  refine .seq (.lock free.acquire.1 (.seq ?_))
  refine ((tickServiceBufs_held now _ free.acquire.2).steer (tickServiceBufs_spares now)).mono ?_
  rintro _ s1 ⟨held1, first⟩
  refine .seq (((tickFlushHeldBundles_held now s1 held1).steer
    (tickFlushHeldBundles_spares now)).mono ?_)
  rintro _ s2 ⟨held2, second⟩
  rw [Locked.acquire_body] at first
  have before := (start.trans first).trans second
  have cfg : s2.body.cfg = b.cfg := before.cfg
  refine .seq ((tickFlushDeferredAcks_settles held2 (by rw [cfg]; exact on)).mono ?_)
  rintro _ s3 ⟨held3, settles⟩
  refine .seq (.sec (.unlock ?_))
  rw [Locked.release_body]
  rw [cfg] at settles
  exact settles.around before (checkStalePeers_still.spares _ _)

theorem halowAckTick_settles (free : s.Free n) :
    Alone halowAckTick s fun _ s' =>
      Settles (tickTime s.body) (tickScope s.body.cfg) s.body s'.body := by
  have start := watchdog_spares s.active s.body
  refine .seq (.sec (.read (.when (fun on => ?_) fun off => ?_)))
  · have sampled := start.trans (sampleNow_spares s.active _)
    have refreshed := sampled.trans (dfltMcsRefresh_still.spares s.active _)
    exact .seq (.sec (.seq (.sec (tickLocked_settles (n := n) free refreshed on))))
  · rw [tickScope, if_neg fun both => off both.1]
    exact (Settles.refl _ s.body).around (.refl _) start

theorem PastDue.overdue_iff {p : AckPeer} {deadline now : Nat}
    (dated : p.ackDueJiff = BitVec.ofNat 32 deadline) (past : p.PastDue deadline now) :
    p.overdue (BitVec.ofNat 32 now) = true ↔ (now - deadline) % 2 ^ 32 < 2 ^ 31 := by
  obtain ⟨used, due, late⟩ := past
  rw [AckPeer.overdue, used, due, dated, ← reached_iff late]
  rfl

theorem deferred_acks_discharged_iff (s : Node ρ) (free : s.owner = none) (deadline : PeerIx → Nat)
    (dated : ∀ i, (s.body.peers i).ackDueJiff = BitVec.ofNat 32 (deadline i)) :
    Alone halowAckTick s fun _ s' =>
      ((∀ i, ¬ (s'.body.peers i).PastDue (deadline i) (tickJiffies s.body)) ∧
        ∀ i, (s.body.peers i).PastDue (deadline i) (tickJiffies s.body) →
          AckHanded (s.body.peers i).mac s.body.trace s'.body.trace) ↔
      ∀ i, (s.body.peers i).PastDue (deadline i) (tickJiffies s.body) →
        s.body.cfg.maxRetries ≠ 0 ∧ s.body.cfg.ackHoldMs ≠ 0 ∧
          (tickJiffies s.body - deadline i) % 2 ^ 32 < 2 ^ 31 := by
  refine (halowAckTick_settles (n := s.misuse) ⟨free, rfl⟩).mono fun _ s' settles => ?_
  have scope (i : PeerIx) : i ∈ tickScope s.body.cfg ↔
      s.body.cfg.maxRetries ≠ 0 ∧ s.body.cfg.ackHoldMs ≠ 0 := by
    unfold tickScope
    split
    · rename_i on
      exact iff_of_true (List.mem_finRange i) on
    · rename_i off
      exact iff_of_false (List.not_mem_nil) off
  constructor
  · rintro ⟨done, -⟩ i past
    -- An entry the scan passes over is as it was.
    have taken : i ∈ tickScope s.body.cfg ∧ (s.body.peers i).overdue (tickTime s.body) = true := by
      by_contra skipped
      have kept := settles.kept i fun listed =>
        Bool.eq_false_iff.mpr fun overdue => skipped ⟨listed, overdue⟩
      have used : (s'.body.peers i).inUse = (s.body.peers i).inUse := congrArg (fun d => d.1) kept
      exact done i ⟨used.trans past.1, (ackDue_congr kept).trans past.2.1, past.2.2⟩
    obtain ⟨retries, hold⟩ := (scope i).mp taken.1
    exact ⟨retries, hold, (PastDue.overdue_iff (dated i) past).mp taken.2⟩
  · intro ok
    have paid (i : PeerIx) (past : (s.body.peers i).PastDue (deadline i) (tickJiffies s.body)) :=
      settles.paid i ((scope i).mpr ⟨(ok i past).1, (ok i past).2.1⟩)
        ((PastDue.overdue_iff (dated i) past).mpr (ok i past).2.2)
    refine ⟨fun i still => ?_, fun i past => (paid i past).2⟩
    by_cases past : (s.body.peers i).PastDue (deadline i) (tickJiffies s.body)
    · have clear := (paid i past).1
      rw [still.2.1] at clear
      cases clear
    · have quiet : (s.body.peers i).overdue (tickTime s.body) = false := by
        refine Bool.eq_false_iff.mpr fun overdue => past ?_
        simp only [AckPeer.overdue, Bool.and_eq_true] at overdue
        exact ⟨overdue.1.1, overdue.1.2, still.2.2⟩
      have kept := settles.kept i fun _ => quiet
      have used : (s'.body.peers i).inUse = (s.body.peers i).inUse := congrArg (fun d => d.1) kept
      exact past ⟨used.symm.trans still.1, (ackDue_congr kept).symm.trans still.2.1, still.2.2⟩

def ackHeld : List (Move Board) :=
  .start 1 (.onRx (bundleOf 0) remoteMac (some ownMac) 0) :: List.replicate 5 (.resume 1) ++
    [.wait fun b => { b with jiffies := b.jiffies + 1000 }]

theorem deferred_acks_discharged_iff_held : ∃ c, playAll ackHeld quietNode = some c ∧
    (c.shared.owner = none ∧ (c.body.peers 0).ackDueJiff.toNat = 100005 ∧
      (c.body.peers 0).PastDue 100005 (tickJiffies c.body) ∧
      ∀ i, (c.body.peers i).PastDue (c.body.peers i).ackDueJiff.toNat
          (tickJiffies c.body) →
        c.body.cfg.maxRetries ≠ 0 ∧ c.body.cfg.ackHoldMs ≠ 0 ∧
          (tickJiffies c.body - (c.body.peers i).ackDueJiff.toNat) % 2 ^ 32 <
            2 ^ 31) ∧
    ∃ s', halowAckTick.run c.shared = some ((), s') ∧
      ¬ (s'.body.peers 0).PastDue 100005 (tickJiffies c.body) ∧
      AckHanded (c.body.peers 0).mac c.body.trace s'.body.trace := by
  refine played_then (by decide +kernel) fun c _ ⟨free, date, past, ok⟩ => ?_
  obtain ⟨_, s', ran, discharged⟩ := deferred_acks_discharged_iff c.shared free
    (fun i => (c.body.peers i).ackDueJiff.toNat) fun i => by simp
  obtain ⟨none, handed⟩ := discharged.mpr ok
  rw [← date] at past ⊢
  exact ⟨s', ran, none 0, handed 0 past⟩

def retriesOff : List (Move Board) :=
  .start 1 (.onRx (bundleOf 0) remoteMac (some ownMac) 0) :: List.replicate 5 (.resume 1) ++
    .start 1 (.configApply { halowAckConfigSetDefault with maxRetries := 0 }) ::
      List.replicate 5 (.resume 1) ++
    [.wait fun b => { b with jiffies := b.jiffies + 1000 }]

theorem ack_kept_back_retriesOff : ∃ c, playAll retriesOff quietNode = some c ∧ Reachable c ∧
    c.shared.owner = none ∧ (c.body.peers 0).ackDueJiff = BitVec.ofNat 32 100005 ∧
    (c.body.peers 0).PastDue 100005 (tickJiffies c.body) ∧
    ∃ r ∈ halowAckTick.run c.shared, r.2.body.trace = c.body.trace ∧
      (r.2.body.peers 0).PastDue 100005 (tickJiffies c.body) :=
  played (by decide +kernel)

end RnodeHalow.Ack
