import RnodeHalow.Ack.Sections

set_option autoImplicit false

namespace RnodeHalow.Ack

open Resumption
open Function (update_idem update_self)

variable {ρ : Type} [Platform ρ] {α β : Type}

theorem Event.Neutral.unpicked {e : Event} (neutral : e.Neutral) (t : Nat) (i : PeerIx) :
    e.opens i = false ∧ pickAppended t i e = none ∧ pickBundled t i e = none := by
  cases e with
  | opened | appended | bundled => exact neutral.elim
  | _ => exact ⟨rfl, rfl, rfl⟩

variable {older trace : History} {t : Nat} {c : Core} {j : BufIx} {buf : AckBuf}

theorem collect_neutral (h : Neutrally older trace) (t : Nat) (i : PeerIx) :
    appendedBy t i trace = appendedBy t i older ∧ bundledBy t i trace = bundledBy t i older := by
  obtain ⟨news, rfl, all⟩ := h
  have unpicked (e : Nat × Event) (member : e ∈ news) := (all e member).unpicked t i
  constructor
  · exact collect_silent (fun e member => (unpicked e member).2.1)
      fun e member => (unpicked e member).1
  · exact collect_silent (fun e member => (unpicked e member).2.2)
      fun e member => (unpicked e member).1

theorem settled_deaf (t : Nat) : Deaf (Settled t) := by
  intro older trace h settled i
  rw [(collect_neutral h t i).1, (collect_neutral h t i).2]
  exact settled i

theorem owed_deaf (t : Nat) (i : PeerIx) (payload : List Byte) : Deaf (Owed t i payload) := by
  intro older trace h owed
  refine ⟨fun k ne => ?_, ?_⟩
  · rw [(collect_neutral h t k).1, (collect_neutral h t k).2]
    exact owed.1 k ne
  · rw [(collect_neutral h t i).1, (collect_neutral h t i).2]
    exact owed.2

theorem lastSample_neutral (h : Neutrally older trace) (t : Nat) :
    lastSample t trace = lastSample t older := by
  obtain ⟨news, rfl, all⟩ := h
  apply latest_append
  intro e member
  have neutral := all e member
  have other : e.2 ≠ .sampled t := by
    intro eq
    rw [eq] at neutral
    exact neutral
  simp [other]

theorem cleared_neutral (h : Neutrally older trace) (t : Nat) (src : Mac) (payload : List Byte) :
    cleared t src payload trace = cleared t src payload older := by
  obtain ⟨news, rfl, all⟩ := h
  induction news with
  | nil => rfl
  | cons e rest ih =>
    obtain ⟨τ, e⟩ := e
    have tail := ih fun x member => all x (by simp [member])
    have head := all (τ, e) (by simp)
    rw [List.cons_append, ← tail]
    cases e with
    | heard | delivered => exact head.elim
    | _ => rfl

theorem stampOf_aired (aired : Aired older trace) (j : BufIx) :
    stampOf j trace = stampOf j older := by
  obtain ⟨news, rfl, all⟩ := aired
  induction news with
  | nil => rfl
  | cons e rest ih =>
    obtain ⟨τ, e⟩ := e
    obtain ⟨data, dest, mcs, tid, rfl⟩ : ∃ data dest mcs tid, e = .txP data dest mcs tid :=
      all (τ, e) (by simp)
    exact ih fun x member => all x (by simp [member])

theorem sampled_deaf (t : Nat) (now : Jiffy) : Deaf (Sampled t now) := by
  rintro older trace h ⟨τ, last, eq⟩
  exact ⟨τ, (lastSample_neutral h t).trans last, eq⟩

-- What thread `t` has staged, sampled and cleared for delivery stays so.
structure Tidy (t : Nat) (c c' : Core) : Prop where
  chain : Chain t c c'
  settled : Settled t c.trace → Settled t c'.trace
  sampled : ∀ now, Sampled t now c.trace → Sampled t now c'.trace
  cleared : ∀ src payload, cleared t src payload c.trace = true →
    cleared t src payload c'.trace = true

namespace Tidy

variable {t : Nat} {a b c c' : Core}

theorem refl (c : Core) : Tidy t c c := ⟨.refl, id, fun _ => id, fun _ _ => id⟩

theorem trans (first : Tidy t a b) (second : Tidy t b c) : Tidy t a c :=
  ⟨first.chain.trans second.chain, fun h => second.settled (first.settled h),
    fun now h => second.sampled now (first.sampled now h),
    fun src payload h => second.cleared src payload (first.cleared src payload h)⟩

theorem ofNeutral (chain : Chain t c c') (h : Neutrally c.trace c'.trace) : Tidy t c c' :=
  ⟨chain, settled_deaf t _ _ h, fun now => sampled_deaf t now _ _ h,
    fun src payload => (cleared_neutral h t src payload).trans⟩

theorem ofMicro (move : Micro t c c') (h : Neutrally c.trace c'.trace) : Tidy t c c' :=
  ofNeutral (.single move) h

theorem still (h : Still c c') : Tidy t c c' := ofNeutral h.calms.chain h.trace

theorem calms (inv : Inv c) (h : Calms c c') : Tidy t c c' :=
  have other : t + 1 ≠ t := by omega
  ⟨h.chain, Chain.kept (settled_keeps t) other inv h.chain,
    fun now => Chain.kept (sampled_keeps t now) other inv h.chain,
    fun src payload => Chain.kept (cleared_keeps t src payload) other inv h.chain⟩

theorem inv (h : Tidy t c c') (inv : Inv c) : Inv c' := h.chain.inv inv

end Tidy

def TidySec (m : Code ρ α) : Prop := ∀ t c, Inv c → Does m t c fun _ c' => Tidy t c c'

theorem CalmSec.tidy {m : Code ρ α} (calm : CalmSec m) : TidySec m :=
  fun _ _ inv => Does.calm calm fun _ _ calms => .calms inv calms

theorem StillSec.tidy {m : Code ρ α} (still : StillSec m) : TidySec m :=
  fun _ _ _ => Does.still still fun _ _ h => .still h

theorem modifyStats_tidy {f : Stats → Stats} (keeps : ∀ st, (f st).counts = st.counts) :
    TidySec (modifyStats f : Code ρ Unit) := (modifyStats_still keeps).tidy

theorem TidySec.bind {m : Code ρ α} {f : α → Code ρ β} (first : TidySec m)
    (rest : ∀ a, TidySec (f a)) : TidySec (m >>= f) := by
  intro t c inv
  refine Does.seq (Does.mono (first t c inv) fun a c1 one => ?_)
  exact Does.mono (rest a t c1 (one.inv inv)) fun _ c2 two => one.trans two

theorem TidySec.pure (a : α) : TidySec (Pure.pure a : Code ρ α) := (StillSec.pure a).tidy

theorem TidySec.read (f : Body ρ → α) : TidySec (Sec.read f) := (StillSec.read f).tidy

theorem TidySec.when {c : Prop} [Decidable c] {m : Code ρ Unit} (yes : TidySec m) :
    TidySec (Sec.when c m) := by
  unfold Sec.when
  split
  · exact yes
  · exact .pure ()

theorem TidySec.forEach {ι : Type} {body : ι → Code ρ Unit}
    (each : ∀ i, TidySec (body i)) (l : List ι) : TidySec (Sec.forEach l body) := by
  induction l with
  | nil => exact .pure ()
  | cons i rest ih => exact .bind (each i) fun _ => ih

theorem TidySec.ifSome {x : Option α} {m : α → Code ρ Unit} (each : ∀ a, TidySec (m a)) :
    TidySec (Sec.ifSome x m) := by
  cases x with
  | none => exact .pure ()
  | some a => exact each a

variable (payload : List Byte) (i : PeerIx) (dest : Mac)

theorem ackNotePeer_calm (ackEvm : Byte) : CalmSec (ackNotePeer i ackEvm : Code ρ Unit) := by
  refine .bind (.read _) fun maxRetries => ?_
  exact .bind (modifyPeer_calm i fun _ => rfl) fun _ => raOnAck_calm i

theorem landing_tidy (why : Landing) (inv : Inv c) (held : c.bufs j = some buf)
    (inflight : buf.state = .inflight) :
    Does (bufRelease j : Code ρ Unit) t (c.note (.landed j)) fun _ c' =>
      ∀ f : Stats → Stats, (∀ st, (f st).counts = st.counts.land why) →
        Does (modifyStats f : Code ρ Unit) t c' fun _ c'' => Tidy t c c'' := by
  refine bufRelease_does held (inv.rep.idx_eq j buf held) fun n le f counts => ?_
  refine modifyStats_does (·.land why) counts ?_
  have freed : Tidy t c ({ c.free j buf with counts := c.counts.land why }.note (.landed j)) :=
    .ofMicro (.release j buf why held inflight) (.cons trivial (.refl _))
  exact freed.trans (.ofMicro (.calm (.elapse n le)) (.refl _))

theorem rttRecord_does (bornRtt lasttxRtt : Jiffy) :
    Does (rttRecord bornRtt lasttxRtt : Code ρ Unit) t c fun _ c' =>
      ∃ n, c' = { c with counts := { c.counts with ackRttEwmaMs := n } } := by
  rintro b rfl
  exact rttRecord_core bornRtt lasttxRtt t b

theorem bufAcked_tidy (inv : Inv c) (held : c.bufs j = some buf)
    (inflight : buf.state = .inflight) :
    Does (bufAcked j buf : Code ρ Unit) t c fun _ c' => Tidy t c c' := by
  refine Does.seq (Does.still nowJ_still fun now c1 one => ?_)
  refine Does.seq (Does.still nowJ_still fun later c2 two => ?_)
  refine Does.seq (Does.mono (rttRecord_does _ _) ?_)
  rintro _ _ ⟨n, rfl⟩
  refine Does.seq (Does.still (.when cwndOnCleanClear_still) fun _ c4 four => ?_)
  have waits := one.trans two
  have measured : Tidy t c2 { c2 with counts := { c2.counts with ackRttEwmaMs := n } } :=
    .ofMicro (.calm (.measured n)) (.refl _)
  have all : Tidy t c c4 := ((Tidy.still waits).trans measured).trans (.still four)
  have held4 : c4.bufs j = some buf := by rw [four.bufs, waits.bufs]; exact held
  refine Does.seq (emit_does _ (Does.seq (Does.mono (landing_tidy .acked (all.inv inv) held4
    inflight) fun _ _ counted => ?_)))
  exact Does.mono (counted _ fun _ => rfl) fun _ c5 five => all.trans five

theorem rxEnvAckLocked_tidy (payload : List Byte) :
    TidySec (rxEnvAckLocked i payload : Code ρ Unit) := by
  refine .bind (modifyStats_tidy fun _ => rfl) fun _ => ?_
  refine .bind (ackNotePeer_calm i _).tidy fun _ => ?_
  refine .forEach (fun j => ?_) _
  intro t c inv
  refine Does.get (fun c => c.peers i) (fun _ => rfl) ?_
  refine Does.get (fun c => c.bufs j) (fun _ => rfl) ?_
  cases held : c.bufs j with
  | none => exact Does.pure _ (.refl c)
  | some buf =>
    dsimp only [Sec.when]
    split
    · rename_i hit
      refine Does.seq (Does.mono (bufAcked_tidy inv held hit.1) fun _ c1 one => ?_)
      refine Does.still (modifyPeer_still i fun _ => rfl) fun _ c2 two => ?_
      exact one.trans (.still two)
    · exact Does.pure _ (.refl c)

omit [Platform ρ] in
theorem bufMatch_some {b : Body ρ} {mac : Mac} {fid : BitVec 16}
    (found : bufMatch b mac fid = some j) (held : b.bufs j = some buf) : buf.state = .inflight := by
  have hit := List.find?_some found
  simp only [held, Bool.and_eq_true, decide_eq_true_eq] at hit
  exact hit.1.1

theorem rxAckFid_tidy (src : Mac) (found : Option PeerIx) (ackFid : BitVec 16) :
    TidySec (rxAckFid src found ackFid : Code ρ Unit) := by
  intro t c inv
  refine Does.seq (Does.read fun b eq => ?_)
  subst eq
  cases hit : (bufMatch b src ackFid).bind fun j => (b.bufs j).map (j, ·) with
  | none => exact modifyStats_does id (fun _ => rfl) (.refl _)
  | some r =>
    obtain ⟨j, buf⟩ := r
    obtain ⟨k, matched, mapped⟩ := Option.bind_eq_some_iff.mp hit
    obtain ⟨buf', held, pair⟩ := Option.map_eq_some_iff.mp mapped
    simp only [Prod.mk.injEq] at pair
    obtain ⟨rfl, rfl⟩ := pair
    refine Does.seq (Does.mono (bufAcked_tidy inv held (bufMatch_some matched held))
      fun _ c1 one => ?_)
    have more : TidySec (Sec.ifSome found fun i => modifyPeer i fun p =>
        { p with acked := p.acked + 1 } : Code ρ Unit) :=
      .ifSome fun i => StillSec.tidy (modifyPeer_still i fun _ => rfl)
    exact Does.mono (more t c1 (one.inv inv)) fun _ c2 two => one.trans two

theorem rxAckLocked_tidy (src : Mac) : TidySec (rxAckLocked payload src : Code ρ Unit) := by
  refine .bind (.read _) fun found => ?_
  refine .bind (.ifSome fun i => (ackNotePeer_calm i _).tidy) fun _ => ?_
  exact .forEach (fun k => .when (rxAckFid_tidy src found _)) _

theorem heard_settled {t u τ : Nat} {src : Mac} {found : Option PeerIx} {payload : List Byte}
    {retrans : Bool} (h : Settled t trace) :
    Settled t ((τ, .heard u src found payload retrans) :: trace) := h.cons fun _ => ⟨rfl, rfl⟩

theorem rxBundleLocked_does {payload : List Byte} {src : Mac} (inv : Inv c)
    (settled : Settled t c.trace) :
    Does (rxBundleLocked payload src : Code ρ Bool) t c fun r c' =>
      Chain t c c' ∧ Settled t c'.trace ∧ (r = false → cleared t src payload c'.trace = true) := by
  refine Does.seq (Does.self (Does.seq (Does.read fun b eq => ?_)))
  subst eq
  cases found : peerFind b src with
  | none =>
    refine Does.seq (emit_does _ (Does.pure _ ⟨.single ?_, heard_settled settled, fun _ => ?_⟩))
    · exact .meet src payload (peerFind_none found)
    · simp [Core.note, cleared]
  | some i =>
    have here := peerFind_some found
    refine Does.get (fun c => seqRetrans (c.peers i) (le16 payload 3)) (fun _ => rfl) ?_
    refine Does.seq (modifyPeer_does (Does.seq (emit_does _ ?_)))
    have hear := Micro.hear (t := t) (c := core b) i src payload (Platform.undefinedShl ρ) here.1
      here.2
    refine Does.seq (Does.still (modifyStats_still fun _ => rfl) fun _ c1 one => ?_)
    refine Does.seq (Does.still (.when (modifyStats_still fun _ => rfl)) fun _ c2 two => ?_)
    have rest := one.trans two
    refine Does.pure _ ⟨Relation.ReflTransGen.head hear rest.calms.chain, ?_, fun fresh => ?_⟩
    · exact settled_deaf t _ _ rest.trace (heard_settled settled)
    · rw [cleared_neutral rest.trace]
      simpa [Core.note, cleared] using fresh

theorem noteDelivered_does {payload : List Byte} {src : Mac} (settled : Settled t c.trace)
    (clear : isEnvFrame payload = true → cleared t src payload c.trace = true) :
    Does (noteDelivered payload src : Code ρ Unit) t c fun _ c' =>
      Chain t c c' ∧ Settled t c'.trace := by
  refine Does.seq (Does.self (emit_does _ ⟨.single (.deliver src payload clear), ?_⟩))
  exact settled.cons fun _ => ⟨rfl, rfl⟩

theorem ackDecideLocked_calm :
    CalmSec (ackDecideLocked i : Code ρ (Option (List (BitVec 16)))) := by
  refine .bind (.read _) fun cfg => .bind (.read _) fun p => ?_
  refine .ite ?_ (.ite ?_ ?_)
  · exact .bind (modifyPeer_calm i fun _ => rfl) fun _ => .pure _
  · exact .bind (modifyPeer_calm i fun _ => rfl) fun _ => .pure _
  · refine .bind (modifyPeer_calm i fun _ => rfl) fun _ => ?_
    refine .bind (.when ?_) fun _ => .pure _
    refine .bind nowJ_still.calm fun now => .bind (.read _) fun hold => ?_
    exact modifyPeer_calm i fun _ => rfl

theorem rxPeer_calm (src : Mac) (toMe : Bool) :
    CalmSec (rxPeer src toMe : Code ρ (Option PeerIx)) := by
  refine .ite ?_ (.read _)
  exact peerGet_calm src

theorem rxDataLocked_calm (hash : BitVec 32) (src : Mac) (toMe : Bool) (evm : Byte) :
    CalmSec (rxDataLocked hash src toMe evm :
      Code ρ (Bool × Option (List (BitVec 16)))) := by
  refine .bind (rxPeer_calm src toMe) fun found => ?_
  cases found with
  | none => exact .bind (.when (modifyStats_still fun _ => rfl).calm) fun _ => .pure _
  | some i =>
    refine .bind (modifyPeer_calm i fun _ => rfl) fun _ => ?_
    refine .ite ?_ (.pure _)
    refine .bind (.read _) fun deliver => ?_
    refine .bind (.when (modifyPeer_calm i fun _ => rfl)) fun _ => ?_
    exact .bind (ackDecideLocked_calm i) fun _ => .pure _

theorem sendEnvAck_still (evm : Byte) (dest : Mac) (base : BitVec 16) (bm : BitVec 64)
    (ackMcs : Byte) : StillSec (sendEnvAck evm dest base bm ackMcs : Code ρ Unit) :=
  .bind (halowTxP_still _ _ _ _) fun _ => modifyStats_still fun _ => by split <;> rfl

theorem sendFidAck_still (evm : Byte) (dest : Mac) (fids : List (BitVec 16)) (ackMcs : Byte) :
    StillSec (sendFidAck evm dest fids ackMcs : Code ρ Unit) :=
  .bind (.read _) fun _ =>
    .bind (halowTxP_still _ _ _ _) fun _ => modifyStats_still fun _ => by split <;> rfl

theorem txPlainUntracked_still (mcs : Byte) :
    StillSec (txPlainUntracked payload dest mcs : Code ρ Int) :=
  .bind (halowTx_still _ _ _) fun _ => .pure _

theorem bcRepeatLoop_still (n : Nat) : StillSec (bcRepeatLoop payload dest n : Code ρ Unit) := by
  induction n with
  | zero => exact .pure ()
  | succ n ih =>
    refine .bind halowGetTxVacancy_still fun vacancy => .when ?_
    refine .bind (halowTx_still _ _ _) fun r => .when ?_
    exact .bind (modifyStats_still fun _ => rfl) fun _ => ih

theorem txBroadcast_still : StillSec (txBroadcast payload dest : Code ρ Int) := by
  refine .bind (.read _) fun bcRepeat => .bind (halowTx_still _ _ _) fun r => ?_
  exact .ite (.bind (bcRepeatLoop_still _ _ _) fun _ => .pure _) (.pure _)

def Routed (len : Nat) (dest : Mac) (c : Core) : Route → Prop
  | .untracked _ => True
  | .bundle i _ => Here i dest c ∧ ackAggReserve + 2 + len ≤ ackWireMax
  | .plain i _ => Here i dest c

omit [Platform ρ] in
theorem effAggBytes_le (b : Body ρ) (pmcs : Byte) : effAggBytes b pmcs ≤ b.cfg.aggBytes := by
  simp only [effAggBytes]
  generalize (if pmcs = halowMcsDefault then dfltMcs b else pmcs) = mcs
  split <;> omega

theorem txRoute_does {len : Nat} {dest : Mac} (inv : Inv c) :
    Does (txRoute len dest : Code ρ Route) t c fun r c' =>
      Calms c c' ∧ Routed len dest c' r := by
  refine Does.seq (Does.mono peerGet_does ?_)
  rintro found c1 ⟨calms, here⟩
  have tidy : Tidy t c c1 := .calms inv calms
  cases found with
  | none => exact Does.pure _ ⟨calms, trivial⟩
  | some i =>
    refine Does.get (fun c => c.peers i) (fun _ => rfl) ?_
    by_cases off : (c1.peers i).curRetries = 0
    · rw [if_pos off]
      exact Does.pure _ ⟨calms, trivial⟩
    rw [if_neg off]
    refine Does.seq (Does.read fun b same => ?_)
    subst same
    refine Does.get (fun c => c.cfg.agg) (fun _ => rfl) ?_
    have payload := effAggBytes_le b ((core b).peers i).txMcs
    have clamped : b.cfg.aggBytes ≤ 4000 := (tidy.inv inv).clamped.aggBytes_le
    have header : envBundleHdr = 6 := rfl
    have reserve : ackAggReserve = 6 := rfl
    have wire : ackWireMax = 4022 := rfl
    by_cases small : ((core b).cfg.agg ≠ 0 ∧ len ≤ effAggBytes b ((core b).peers i).txMcs) ∨
        len + (envBundleHdr + 2) ≤ ackWireMax
    · rw [if_pos small]
      refine Does.seq (modifyStats_does id (fun _ => rfl)
        (Does.pure _ ⟨calms, here i rfl, ?_⟩))
      omega
    · rw [if_neg small]
      exact Does.seq (modifyStats_does id (fun _ => rfl) (Does.pure _ ⟨calms, here i rfl⟩))

theorem bufDropDeadline_tidy {life : Jiffy} {τ : Nat} (inv : Inv c) (held : c.bufs j = some buf)
    (inflight : buf.state = .inflight) (last : lastSample t c.trace = some τ)
    (old : life ≤ BitVec.ofNat 32 τ - buf.bornJiff) :
    Does (bufDropDeadline j buf : Code ρ Unit) t
      ((c.note (.landed j)).note (.deadlineDropped t j life)) fun _ c' => Tidy t c c' := by
  refine Does.seq (Does.read fun b same => ?_)
  refine Does.seq (bufRelease_does held (inv.rep.idx_eq j buf held) fun n le => ?_)
  refine Does.seq (modifyStats_does (·.land .deadline) (fun _ => rfl) ?_)
  have expire : Tidy t c _ := .ofMicro (.expire j buf life τ held inflight last old)
    (.cons trivial (.cons trivial (.refl _)))
  have freed := expire.trans (.ofMicro (.calm (.elapse n le)) (.refl _))
  have more : CalmSec (Sec.ifSome (peerFind b buf.destMac) fun i => do
      modifyPeer i fun p => { p with dropped := p.dropped + 1 }
      raOnDrop i : Code ρ Unit) :=
    .ifSome fun i => .bind (modifyPeer_calm i fun _ => rfl)
      fun _ => raOnDrop_calm i
  exact Does.calm more fun _ c2 two => freed.trans (.calms (freed.inv inv) two)

def InFlight (j : BufIx) (c : Core) : Prop := ∃ buf, c.bufs j = some buf ∧ buf.state = .inflight

theorem judgeBuf_does {now timeoutJ lifeJ : Jiffy} (inv : Inv c) (sampled : Sampled t now c.trace) :
    Does (judgeBuf now timeoutJ lifeJ j : Code ρ Bool) t c fun r c' =>
      Tidy t c c' ∧ (r = true → InFlight j c') := by
  have rests : Does (pure false : Code ρ Bool) t c fun r c' =>
      Tidy t c c' ∧ (r = true → InFlight j c') := Does.pure _ ⟨.refl c, by simp⟩
  obtain ⟨τ, last, rfl⟩ := sampled
  refine Does.get (fun c => c.bufs j) (fun _ => rfl) ?_
  cases held : c.bufs j with
  | none => exact rests
  | some buf =>
    by_cases other : buf.state ≠ .inflight
    · simp only [if_pos other]
      exact rests
    simp only [if_neg other]
    have inflight : buf.state = .inflight := not_not.mp other
    refine Does.seq (Does.self ?_)
    by_cases old : BitVec.ofNat 32 τ - buf.bornJiff ≥ lifeJ
    · rw [if_pos old]
      refine Does.seq (emit_does _ (Does.seq (emit_does _ ?_)))
      refine Does.seq (Does.mono (bufDropDeadline_tidy inv held inflight last old)
        fun _ c1 one => ?_)
      exact Does.pure _ ⟨one, by simp⟩
    rw [if_neg old]
    refine Does.seq (Does.read fun b same => ?_)
    generalize bufBackoffJiffies b buf timeoutJ = backoff
    by_cases young : BitVec.ofNat 32 τ - buf.txJiff < backoff
    · rw [if_pos young]
      exact rests
    rw [if_neg young]
    refine Does.seq (Does.still halowGetTxVacancy_still fun vacancy c1 still => ?_)
    by_cases low : vacancy < ackTxVacancyLow
    · rw [if_pos low]
      exact Does.pure _ ⟨.still still, by simp⟩
    rw [if_neg low]
    have held1 : c1.bufs j = some buf := by rw [still.bufs]; exact held
    have due : Tidy t c1 (c1.note (.retried t j backoff)) := by
      refine .ofMicro (.due j buf backoff τ held1 inflight ?_ (BitVec.not_lt.mp young))
        (.cons trivial (.refl _))
      exact (lastSample_neutral still.trace t).trans last
    refine Does.seq (emit_does _ (Does.pure _ ⟨(Tidy.still still).trans due, fun _ => ?_⟩))
    exact ⟨buf, held1, inflight⟩

def retransmitLaunch (j : BufIx) (now : Jiffy) : Code ρ (Option Byte) := do
  match ← retransmitPrep j now with
  | none => pure none
  | some mcs =>
    markSending j
    pure (some mcs)

theorem retransmitLaunch_does {now : Jiffy} (inv : Inv c) (sampled : Sampled t now c.trace)
    (flying : InFlight j c) :
    Does (retransmitLaunch j now : Code ρ (Option Byte)) t c fun r c' =>
      Tidy t c c' ∧ (r.isSome = true → ∃ buf, Flight t j buf c') := by
  obtain ⟨τ, last, rfl⟩ := sampled
  obtain ⟨buf, held, inflight⟩ := flying
  refine Does.seq (Does.get (fun c => c.bufs j) (fun _ => rfl) ?_)
  simp only [held]
  refine Does.seq (Does.read fun b same => ?_)
  subst same
  cases found : peerFind b buf.destMac with
  | none =>
    obtain ⟨i, inUse, mac⟩ := inv.rep.owned j buf held
    exact absurd mac (peerFind_none found i inUse)
  | some i =>
    refine Does.get (fun c => c.cfg.maxRetries) (fun _ => rfl) ?_
    by_cases spent : buf.retriesUsed ≥ (core b).cfg.maxRetries
    · rw [if_pos spent]
      refine Does.seq (emit_does _ (Does.seq (Does.mono (landing_tidy .exhausted inv held inflight)
        fun _ _ counted => ?_)))
      refine Does.seq (Does.mono (counted _ fun _ => rfl) fun _ c1 one => ?_)
      refine Does.seq (Does.still (modifyPeer_still i fun _ => rfl) fun _ c2 two => ?_)
      refine Does.seq (Does.calm (raOnDrop_calm i) fun _ c3 three => ?_)
      have both := one.trans (.still two)
      exact Does.pure _ (Does.pure _ ⟨both.trans (.calms (both.inv inv) three), by simp⟩)
    rw [if_neg spent]
    refine Does.seq (Does.self (Does.seq (modifyBuf_does held ?_)))
    refine Does.seq (emit_does _ ?_)
    have touch : Tidy t (core b) (((core b).setBuf j { buf with
        retriesUsed := buf.retriesUsed + 1
        txJiff := BitVec.ofNat 32 τ }).note (.txSampled t j)) :=
      .ofMicro (.touch j buf τ held inflight last) (.cons trivial (.refl _))
    refine Does.seq (modifyStats_does id (fun _ => rfl) ?_)
    refine Does.seq (Does.still (modifyPeer_still i fun _ => rfl) fun _ c1 one => ?_)
    refine Does.seq (Does.still (.when cwndOnRetransTimeout_still) fun _ c2 two => ?_)
    refine Does.seq (Does.still (raOnRetrans_still i) fun _ c3 three => ?_)
    have all := (one.trans two).trans three
    refine Does.seq (Does.read fun b' _ => Does.pure _ ?_)
    have held3 : c3.bufs j = some { buf with
        retriesUsed := buf.retriesUsed + 1
        txJiff := BitVec.ofNat 32 τ } := by
      rw [all.bufs]
      exact update_self ..
    refine Does.seq (markSending_does held3 (Does.pure _ ⟨?_, fun _ => ?_⟩))
    · have stamp := stampOf_aired all.aired j
      have mark := Micro.mark (t := t) (c := c3) j _ τ held3 inflight
        (stamp.trans (by simp [Core.note, stampOf, Core.setBuf, last])) rfl
      simp only [inflight, reduceCtorEq, if_false]
      exact (touch.trans (.still all)).trans (.ofMicro mark (.refl _))
    · exact ⟨_, update_self .., rfl, update_self ..⟩

theorem holdDrop_tidy {now : Jiffy} {i : PeerIx} (inv : Inv c) (sampled : Sampled t now c.trace)
    (inUse : (c.peers i).inUse = true) (staged : (c.peers i).aggIdx.isSome = true) :
    Does (holdDrop now i : Code ρ Unit) t c fun _ c' => Tidy t c c' := by
  obtain ⟨τ, last, rfl⟩ := sampled
  obtain ⟨j, agg⟩ := Option.isSome_iff_exists.mp staged
  obtain ⟨buf, held, staging, _⟩ := (inv.rep.agg_iff i inUse j).mp agg
  refine Does.get (fun c => c.peers i) (fun _ => rfl) ?_
  unfold Sec.when
  by_cases old : BitVec.ofNat 32 τ - (c.peers i).aggFirstJiff ≥ msJ ackAggMaxHoldMs
  · rw [if_pos old]
    refine Does.seq (modifyStats_does (·.throttle (c.peers i).aggNsub) (fun _ => rfl) ?_)
    refine Does.seq (modifyPeer_does (Does.seq (Does.self ?_)))
    refine Does.get (fun c' => (c.peers i).aggIdx.bind c'.bufs) (fun _ => rfl) ?_
    refine Does.seq (emit_does _ (Does.get (fun c => c.peers i) (fun _ => rfl) ?_))
    have counted : Tidy t c (c.setPeer i { c.peers i with
        dropped := (c.peers i).dropped + BitVec.ofNat 32 (c.peers i).aggNsub }) :=
      .ofMicro (.calm (.peer i _ rfl rfl)) (.refl _)
    have drop := Micro.hold (t := t) (c := c.setPeer i { c.peers i with
        dropped := (c.peers i).dropped + BitVec.ofNat 32 (c.peers i).aggNsub }) i j buf τ
      (by simpa [Core.setPeer] using inUse) (by simpa [Core.setPeer] using agg) held last
      (by simpa [Core.setPeer] using old)
    simp only [Core.setPeer, Core.note, update_self] at drop ⊢
    simp only [agg, releaseStaged, Option.bind_some, held, Option.elim_some]
    refine Does.seq (Does.get (fun c => c.bufs j) (fun _ => rfl) ?_)
    simp only [held, Option.isSome_some, Sec.when, if_true]
    refine bufRelease_does held (inv.rep.idx_eq j buf held) fun n later => ?_
    refine modifyPeer_does ?_
    simp only [Core.setPeer, Core.free, update_self, update_idem] at drop ⊢
    have dropped : Tidy t (c.setPeer i _) _ := .ofMicro drop (.cons trivial (.refl _))
    exact (counted.trans dropped).trans (.ofMicro (.calm (.elapse n later)) (.refl _))
  · rw [if_neg old]
    exact Does.pure _ (.refl c)

theorem takeDeferred_calm (now : Jiffy) (i : PeerIx) :
    CalmSec (takeDeferred now i : Code ρ (Option (Byte × Mac × List (BitVec 16)))) := by
  refine .bind (.read _) fun cfg => .bind (.read _) fun p => ?_
  exact .ite (.bind (modifyPeer_calm i fun _ => rfl) fun _ => .pure _) (.pure _)

theorem checkStalePeers_still : StillSec (checkStalePeers : Code ρ Unit) :=
  .forEach (fun i => .bind (.read _) fun _ => .when (raCheckStale_still i)) _

theorem sampleNow_does (settled : Settled t c.trace) :
    Does (sampleNow : Code ρ Jiffy) t c fun now c' =>
      Chain t c c' ∧ Settled t c'.trace ∧ Sampled t now c'.trace := by
  refine Does.seq (nowJ_does fun n later => Does.seq (Does.self (Does.seq (emit_does _ ?_))))
  have waits : Chain t c { c with clock := n } := .single (.calm (.elapse n later))
  refine Does.pure _ ⟨waits.tail .sample, settled.cons fun _ => ⟨rfl, rfl⟩, n, ?_, rfl⟩
  simp [Core.note, lastSample, latest]

theorem configApplyPeer_still (cfg : Config) (i : PeerIx) :
    StillSec (configApplyPeer cfg i : Code ρ Unit) :=
  stillness_tunes.configApplyPeer i peerInitMcs_still cfg

theorem configInstall_tidy {cfg : Config} (clamped : cfg.Clamped) :
    TidySec (configInstall cfg : Code ρ Unit) := by
  intro t c inv
  have window := clamped.window_pos
  have pos := inv.cwnd_pos
  have bound : 1 ≤ (if c.cwnd > cfg.window then cfg.window else c.cwnd) ∧
      (if c.cwnd > cfg.window then cfg.window else c.cwnd) ≤ cfg.window := by
    split <;> omega
  refine Does.seq ?_
  rintro b rfl
  refine Does.seq (emit_does _ ?_)
  have first : Tidy t (core b) _ :=
    .ofMicro (.reconfig cfg _ clamped bound.1 bound.2) (.cons trivial (.refl _))
  have rest : StillSec (Sec.forEach allPeers (configApplyPeer cfg) : Code ρ Unit) :=
    .forEach (configApplyPeer_still cfg) _
  exact Does.still rest fun _ c' still => first.trans (.still still)

theorem configCache_still : StillSec (configCache : Code ρ Unit) := fun _ _ => .refl _

end RnodeHalow.Ack
