import RnodeHalow.Ack.Service

set_option autoImplicit false

namespace RnodeHalow.Ack

open Resumption

variable {ρ : Type} [Platform ρ] {α β : Type}

def Runs (t : Nat) (P : Core → Prop) (m : Prog (Node ρ) α) (Q : α → Core → Prop) : Prop :=
  Triple ackDiscipline t (fun b => P (core b)) m fun a b => Q a (core b)

section Rules

variable {t : Nat} {P P' : Core → Prop} {Q Q' : α → Core → Prop}

theorem Runs.pure (a : α) (h : ∀ c, P c → Q a c) : Runs t P (Pure.pure a : Prog (Node ρ) α) Q :=
  Triple.conseq (Triple.pure a) (fun _ _ => h _) fun _ _ _ h => h

theorem Runs.bind {m : Prog (Node ρ) α} {f : α → Prog (Node ρ) β} {R : β → Core → Prop}
    (first : Runs t P m Q) (rest : ∀ a, Runs t (Q a) (f a) R) : Runs t P (m >>= f) R :=
  Triple.bind first rest

theorem Runs.conseq {m : Prog (Node ρ) α} (run : Runs t P m Q) (pre : ∀ c, Inv c → P' c → P c)
    (post : ∀ a c, Inv c → Q a c → Q' a c) : Runs t P' m Q' :=
  Triple.conseq run (fun _ => pre _) fun a _ => post a _

theorem Runs.pre {m : Prog (Node ρ) α} (run : Runs t P m Q) (pre : ∀ c, P' c → P c) :
    Runs t P' m Q := run.conseq (fun c _ => pre c) fun _ _ _ h => h

theorem Runs.sec {m : Code ρ α}
    (does : ∀ c, Inv c → P c → Does m t c fun a c' => Chain t c c' ∧ Q a c') :
    Runs t P (Resumption.sec m) Q := Triple.sec (Does.spec does)

theorem Runs.read {f : Body ρ → α} (h : ∀ b, P (core b) → Q (f b) (core b)) :
    Runs t P (Resumption.sec (Sec.read f)) Q := by
  refine .sec fun c _ p => Does.read fun b same => ?_
  subst same
  exact ⟨.refl, h b p⟩

theorem Runs.lock (keeps : Keeps t P) : Runs t P (lock : Prog (Node ρ) Unit) fun _ => P :=
  Triple.lock keeps.stable

theorem Runs.unlock (keeps : Keeps t P) : Runs t P (unlock : Prog (Node ρ) Unit) fun _ => P :=
  Triple.unlock keeps.stable

theorem Runs.when {c : Prop} [Decidable c] {m : Prog (Node ρ) Unit} {R : Core → Prop}
    (yes : c → Runs t P m fun _ => R) (no : ¬ c → ∀ x, P x → R x) :
    Runs t P (Prog.when c m) fun _ => R := by
  unfold Prog.when
  by_cases h : c
  · rw [if_pos h]
    exact yes h
  · rw [if_neg h]
    exact .pure () (no h)

theorem Runs.forEach {ι : Type} {body : ι → Prog (Node ρ) Unit}
    (each : ∀ i, Runs t P (body i) fun _ => P) (l : List ι) :
    Runs t P (Resumption.forEach l body) fun _ => P := Triple.forEach each l

end Rules

structure Lasting (t : Nat) (Q : History → Prop) : Prop where
  tidy : ∀ c c', Tidy t c c' → Q c.trace → Q c'.trace
  keeps : Keeps t fun c => Q c.trace
  deaf : Deaf Q

theorem settled_lasting (t : Nat) : Lasting t (Settled t) :=
  ⟨fun _ _ tidy => tidy.settled, settled_keeps t, settled_deaf t⟩

def Ticking (t : Nat) (now : Jiffy) (trace : History) : Prop :=
  Settled t trace ∧ Sampled t now trace

theorem ticking_lasting (t : Nat) (now : Jiffy) : Lasting t (Ticking t now) where
  tidy := fun _ _ tidy h => ⟨tidy.settled h.1, tidy.sampled now h.2⟩
  keeps := (settled_keeps t).and (sampled_keeps t now)
  deaf := fun _ _ new h => ⟨settled_deaf t _ _ new h.1, sampled_deaf t now _ _ new h.2⟩

variable {t : Nat} {Q : History → Prop}

theorem Lasting.sec (lasting : Lasting t Q) {m : Code ρ α} (tidy : TidySec m) :
    Runs t (fun c => Q c.trace) (sec m) fun _ c => Q c.trace := by
  refine .sec fun c inv h => Does.mono (tidy t c inv) fun _ c' moved => ?_
  exact ⟨moved.chain, lasting.tidy c c' moved h⟩

def sendTail (j : BufIx) (pmcs : Byte) : Prog (Node ρ) Unit := do
  unlock
  sec (sendOut j pmcs)
  lock
  sec (sendDone j)

theorem Calms.sender {c c' : Core} (calms : Calms c c') : c'.sender = c.sender := by
  induction calms with
  | refl => rfl
  | tail _ move ih => cases move <;> exact ih

theorem Still.flight {c c' : Core} (still : Still c c') {j : BufIx} {buf : AckBuf}
    (flight : Flight t j buf c) : Flight t j buf c' :=
  ⟨(congrFun still.bufs j).trans flight.1, flight.2.1,
    (congrFun still.calms.sender j).trans flight.2.2⟩

structure Endures (t : Nat) (j : BufIx) (buf : AckBuf) (R : Core → Prop) : Prop where
  keeps : Keeps t fun c => Flight t j buf c ∧ R c
  still : ∀ c c', Still c c' → R c → R c'
  sent : ∀ c, R c → R (c.note (.sent j))
  done : ∀ c c' : Core, c'.peers = c.peers → c'.trace = c.trace → R c → R c'

theorem sendTail_runs {j : BufIx} {buf : AckBuf} {pmcs : Byte} {R : Core → Prop}
    (endures : Endures t j buf R) :
    Runs t (fun c => Flight t j buf c ∧ R c) (sendTail j pmcs : Prog (Node ρ) Unit)
      fun _ => R := by
  refine (Runs.unlock endures.keeps).bind fun _ => ?_
  have out : Runs t (fun c => Flight t j buf c ∧ R c) (sec (sendOut j pmcs) : Prog (Node ρ) Unit)
      fun _ c => Flight t j buf c ∧ R c := by
    refine .sec fun c _ h => Does.mono (sendOut_does h.1.1) fun _ c' still => ?_
    have handed : Chain t c (c.note (.sent j)) :=
      .single (.handOff j buf h.1.1 h.1.2.1 h.1.2.2)
    exact ⟨handed.trans still.calms.chain, still.flight h.1,
      endures.still _ c' still (endures.sent c h.2)⟩
  refine out.bind fun _ => (Runs.lock endures.keeps).bind fun _ => ?_
  refine .sec fun c _ h => Does.mono (sendDone_does h.1) ?_
  rintro _ c' ⟨chain, peers, trace⟩
  exact ⟨chain, endures.done c c' peers trace h.2⟩

theorem Lasting.endures (lasting : Lasting t Q) (j : BufIx) (buf : AckBuf) :
    Endures t j buf fun c => Q c.trace where
  keeps := (flight_keeps t j buf).and lasting.keeps
  still c c' still := lasting.tidy c c' (.still still)
  sent c := lasting.deaf _ _ (.cons trivial (.refl _))
  done c c' _ trace h := by rw [trace]; exact h

structure Attached (t : Nat) (i : PeerIx) (mac : Mac) (Q : History → Prop) : Prop where
  keeps : ∀ j buf, Keeps t fun c => AtHome t i mac j buf c ∧ Q c.trace
  deaf : Deaf Q

theorem Lasting.attached (lasting : Lasting t Q) (i : PeerIx) (mac : Mac) : Attached t i mac Q :=
  ⟨fun j buf => (atHome_keeps t i mac j buf).and lasting.keeps, lasting.deaf⟩

theorem owed_attached (t : Nat) (i : PeerIx) (mac : Mac) (payload : List Byte) :
    Attached t i mac (Owed t i payload) :=
  ⟨fun j buf => owed_keeps t i mac j buf payload, owed_deaf t i payload⟩

theorem Attached.endures {i : PeerIx} {mac : Mac} (attached : Attached t i mac Q) (j : BufIx)
    {buf : AckBuf} (dest : buf.destMac = mac) :
    Endures t j buf fun c => Here i mac c ∧ Q c.trace where
  keeps := by
    rintro u ne c c' inv move ⟨flight, here, h⟩
    have kept := attached.keeps j buf u ne c c' inv move ⟨⟨flight, dest, here⟩, h⟩
    exact ⟨kept.1.1, kept.1.2.2, kept.2⟩
  still c c' still h := ⟨still.here h.1, attached.deaf _ _ still.trace h.2⟩
  sent c h := ⟨h.1, attached.deaf _ _ (.cons trivial (.refl _)) h.2⟩
  done c c' peers trace h := by
    rw [trace]
    exact ⟨by rw [Here, peers]; exact h.1, h.2⟩

theorem Attached.sendTail {i : PeerIx} {mac : Mac} (attached : Attached t i mac Q) (j : BufIx)
    (pmcs : Byte) :
    Runs t (fun c => (∃ buf, AtHome t i mac j buf c) ∧ Q c.trace)
      (sendTail j pmcs : Prog (Node ρ) Unit) fun _ c => Here i mac c ∧ Q c.trace := by
  rintro s active inv ⟨⟨buf, flight, dest, here⟩, h⟩
  exact sendTail_runs (attached.endures j dest) s active inv ⟨flight, here, h⟩

theorem aggFlushLocked_eq (i : PeerIx) :
    (aggFlushLocked i : Prog (Node ρ) Bool) = (do
      match ← sec (aggLaunch i) with
      | .nothing => pure true
      | .blocked => pure false
      | .sealed j pmcs =>
        sendTail j pmcs
        pure true) := by
  funext s
  simp only [aggFlushLocked, aggLaunch, bind_apply, sec_apply, Res.bind_done, Sec.bind_apply]
  cases (aggSeal i s.active s.body).1 with
  | nothing | blocked | sealed => rfl

theorem aggFlushLocked_runs {i : PeerIx} {mac : Mac} (attached : Attached t i mac Q) :
    Runs t (fun c => Here i mac c ∧ Q c.trace) (aggFlushLocked i : Prog (Node ρ) Bool)
      fun r c => (Here i mac c ∧ Q c.trace) ∧ (r = false → (c.peers i).aggIdx.isSome = true) := by
  rw [aggFlushLocked_eq]
  have first : Runs t (fun c => Here i mac c ∧ Q c.trace)
      (sec (aggLaunch i) : Prog (Node ρ) FlushStart) fun r c => Q c.trace ∧ match r with
        | .nothing => Here i mac c
        | .blocked => Here i mac c ∧ (c.peers i).aggIdx.isSome = true
        | .sealed j _ => ∃ buf, AtHome t i mac j buf c := by
    refine .sec fun c inv h => Does.mono (aggLaunch_does inv h.1.1) fun r c' started => ?_
    refine ⟨started.chain h.1.1, ?_⟩
    cases started with
    | nothing still none => exact ⟨attached.deaf _ _ still.trace h.2, still.here h.1⟩
    | blocked still named =>
      refine ⟨attached.deaf _ _ still.trace h.2, still.here h.1, ?_⟩
      rw [(still.peers i).aggIdx]
      exact named
    | sealed j pmcs still agg window launched =>
      have news := still.trace.trans launched.trace
      exact ⟨attached.deaf _ _ news h.2, launched.atHome (still.inv inv) (still.here h.1) agg⟩
  refine first.bind fun r => ?_
  cases r with
  | nothing => exact .pure true fun c h => ⟨⟨h.2, h.1⟩, by simp⟩
  | blocked => exact .pure false fun c h => ⟨⟨h.2.1, h.1⟩, fun _ => h.2.2⟩
  | sealed j pmcs =>
    have tail := (attached.sendTail j pmcs (ρ := ρ)).conseq
      (fun c _ (h : Q c.trace ∧ ∃ buf, AtHome t i mac j buf c) => ⟨h.2, h.1⟩) fun _ _ _ h => h
    exact tail.bind fun _ => .pure true fun c h => ⟨h, by simp⟩

section Transmit

variable {t : Nat} {i : PeerIx} {payload : List Byte} {dest : Mac} {effPayload : Nat}

theorem answer_runs (r : Int) : Runs t (fun c => Settled t c.trace)
    (do unlock; pure r : Prog (Node ρ) Int) fun _ c => Settled t c.trace :=
  (Runs.unlock (settled_keeps t)).bind fun _ => .pure r fun _ h => h

theorem txBundleAppend_eq :
    (txBundleAppend i payload dest effPayload : Prog (Node ρ) Int) = (do
      match ← sec (stageIn i payload dest effPayload) with
      | none =>
        unlock
        pure txThrottle
      | some full =>
        Prog.when (full = true) do
          let _ ← aggFlushLocked i
        sec do
          let t ← Sec.self
          emit (.bundled t i payload)
        unlock
        pure 0) := by
  funext s
  simp only [txBundleAppend, stageIn, bind_apply, sec_apply, Res.bind_done, Sec.bind_apply]
  cases (stageOpen i payload.length dest effPayload s.active s.body).1 with
  | false => rfl
  | true => rfl

theorem txBundleAppend_runs (some : payload ≠ [])
    (small : ackAggReserve + 2 + payload.length ≤ ackWireMax) :
    Runs t (fun c => (Here i dest c ∧ Settled t c.trace) ∧ Room i payload.length c)
      (txBundleAppend i payload dest effPayload : Prog (Node ρ) Int)
      fun _ c => Settled t c.trace := by
  rw [txBundleAppend_eq]
  have staged : Runs t (fun c => (Here i dest c ∧ Settled t c.trace) ∧ Room i payload.length c)
      (sec (stageIn i payload dest effPayload) : Prog (Node ρ) (Option Bool)) fun r c =>
        (r = none → Settled t c.trace) ∧
          (r.isSome = true → Here i dest c ∧ Owed t i payload c.trace) := by
    refine .sec fun c inv h => Does.mono (stageIn_does inv h.1.1 small h.2) fun r c' staged => ?_
    refine ⟨staged.chain h.1.1.1 some, fun none => ?_, fun took => ?_⟩
    · subst none
      cases staged with
      | refused still => exact settled_deaf t _ _ still.trace h.1.2
    · exact ⟨staged.here h.1.1, staged.owed h.1.2 took⟩
  refine staged.bind fun r => ?_
  cases r with
  | none => exact Runs.pre (answer_runs _) fun c h => h.1 rfl
  | some full =>
    have flushed : Runs t (fun c => Here i dest c ∧ Owed t i payload c.trace)
        (Prog.when (full = true) (do let _ ← aggFlushLocked i) : Prog (Node ρ) Unit) fun _ c =>
          Here i dest c ∧ Owed t i payload c.trace := by
      refine .when (fun _ => ?_) fun _ _ h => h
      refine (aggFlushLocked_runs (owed_attached t i dest payload)).bind fun _ => ?_
      exact .pure () fun c h => h.1
    have accepted : Runs t (fun c => Here i dest c ∧ Owed t i payload c.trace)
        (sec (do
          let t ← Sec.self
          emit (.bundled t i payload)) : Prog (Node ρ) Unit) fun _ c => Settled t c.trace := by
      refine .sec fun c _ h => Does.seq (Does.self (emit_does _ ?_))
      exact ⟨.single (.accept i payload), bundled_settled h.2⟩
    have rest := flushed.bind fun _ => accepted.bind fun _ => answer_runs 0
    exact Runs.pre rest fun c h => h.2 rfl

theorem stagedFull_runs {P : Core → Prop} : Runs t P
    (sec (Sec.read fun b => stagedFullFor b i payload.length effPayload) : Prog (Node ρ) Bool)
    fun r c => P c ∧ (r = false → Room i payload.length c) :=
  .read fun _ h => ⟨h, room_of_not_full⟩

theorem txBundleLocked_runs (small : ackAggReserve + 2 + payload.length ≤ ackWireMax) :
    Runs t (fun c => Here i dest c ∧ Settled t c.trace)
      (txBundleLocked i payload dest effPayload : Prog (Node ρ) Int)
      fun _ c => Settled t c.trace := by
  have throttle : Runs t (fun c => Here i dest c ∧ Settled t c.trace)
      (do unlock; pure txThrottle : Prog (Node ρ) Int) fun _ c => Settled t c.trace :=
    Runs.pre (answer_runs _) fun c h => h.2
  unfold txBundleLocked
  by_cases empty : payload.length = 0
  · rw [if_pos empty]
    have counted : TidySec (do
        modifyStats fun st => { st with dropped := st.dropped + 1 }
        modifyPeer i fun p => { p with dropped := p.dropped + 1 }
        emit (.rejected i) : Code ρ Unit) := by
      intro t c inv
      refine Does.seq (modifyStats_does (·.reject) (fun _ => rfl) (Does.seq (modifyPeer_does ?_)))
      have noted : Tidy t c (c.setPeer i { c.peers i with dropped := (c.peers i).dropped + 1 }) :=
        .ofMicro (.calm (.peer i _ rfl rfl)) (.refl _)
      exact emit_does _ (noted.trans (.ofMicro (.reject i) (.cons trivial (.refl _))))
    have done := ((settled_lasting t).sec counted).bind fun _ => answer_runs 0
    exact Runs.pre done fun c h => h.2
  rw [if_neg empty]
  have some : payload ≠ [] := fun none => empty (congrArg List.length none)
  have append : Runs t (fun c => (Here i dest c ∧ Settled t c.trace) ∧
      (false = false → Room i payload.length c))
      (txBundleAppend i payload dest effPayload : Prog (Node ρ) Int) fun _ c => Settled t c.trace :=
    Runs.pre (txBundleAppend_runs some small) fun c h => ⟨h.1, h.2 rfl⟩
  refine (Runs.read (Q := fun _ c => Here i dest c ∧ Settled t c.trace) fun _ h => h).bind
    fun blocked => ?_
  cases blocked with
  | true => exact throttle
  | false =>
    refine stagedFull_runs.bind fun full => ?_
    cases full with
    | false => exact append
    | true =>
      have flush := (aggFlushLocked_runs ((settled_lasting t).attached i dest)).conseq (ρ := ρ)
        (fun c _ (h : (Here i dest c ∧ Settled t c.trace) ∧
          (true = false → Room i payload.length c)) => h.1) fun _ _ _ h => h.1
      refine flush.bind fun _ => stagedFull_runs.bind fun still => ?_
      cases still with
      | true => exact Runs.pre throttle fun c h => h.1
      | false => exact append

theorem txPlainLocked_eq (pmcs : Byte) :
    (txPlainLocked i payload dest pmcs : Prog (Node ρ) Int) = (do
      match ← sec (plainLaunch i payload dest) with
      | none =>
        unlock
        pure txThrottle
      | some j =>
        sendTail j pmcs
        pure 0) := by
  funext s
  simp only [txPlainLocked, plainLaunch, bind_apply, sec_apply, Res.bind_done, Sec.bind_apply]
  cases (plainClaim i payload dest s.active s.body).1 with
  | none => rfl
  | some j => rfl

theorem txPlainLocked_runs {pmcs : Byte} (small : payload.length ≤ ackWireMax) :
    Runs t (fun c => Here i dest c ∧ Settled t c.trace)
      (txPlainLocked i payload dest pmcs : Prog (Node ρ) Int)
      fun _ c => Settled t c.trace := by
  rw [txPlainLocked_eq]
  have first : Runs t (fun c => Here i dest c ∧ Settled t c.trace)
      (sec (plainLaunch i payload dest) : Prog (Node ρ) (Option BufIx)) fun r c =>
        Settled t c.trace ∧ ∀ j, r = some j → ∃ buf, AtHome t i dest j buf c := by
    refine .sec fun c _ h => Does.mono (plainLaunch_does h.1 small) fun r c' start => ?_
    refine ⟨start.chain.1, settled_deaf t _ _ start.chain.2 h.2, ?_⟩
    rintro j rfl
    cases start with
    | claimed j blk tx born empty chain news home => exact ⟨_, home⟩
  refine first.bind fun r => ?_
  cases r with
  | none => exact Runs.pre (answer_runs _) fun c h => h.1
  | some j =>
    have tail := (((settled_lasting t).attached i dest).sendTail j pmcs (ρ := ρ)).conseq
      (fun c _ (h : Settled t c.trace ∧ ∀ k, some j = some k → ∃ buf, AtHome t i dest k buf c) =>
        ⟨h.2 j rfl, h.1⟩) fun _ _ _ h => h.2
    exact tail.bind fun _ => .pure 0 fun _ h => h

theorem ackTxUc_runs : Runs t (fun c => Settled t c.trace)
    (ackTxUc payload dest : Prog (Node ρ) Int) fun _ c => Settled t c.trace := by
  have own := settled_lasting t
  refine (own.sec (.read _)).bind fun cfg => ?_
  by_cases off : noack cfg payload.length dest = true
  · rw [if_pos off]
    exact own.sec (.bind (modifyStats_tidy fun _ => rfl) fun _ => (txBroadcast_still _ _).tidy)
  rw [if_neg off]
  have small : payload.length ≤ ackWireMax := by
    simp only [noack, Bool.or_eq_true, decide_eq_true_eq, not_or, not_lt] at off
    exact off.2
  refine (Runs.lock own.keeps).bind fun _ => ?_
  have routed : Runs t (fun c => Settled t c.trace)
      (sec (txRoute payload.length dest) : Prog (Node ρ) Route) fun r c =>
        Settled t c.trace ∧ Routed payload.length dest c r := by
    refine .sec fun c inv h => Does.mono (txRoute_does inv) ?_
    rintro r c' ⟨calms, found⟩
    have tidy : Tidy t c c' := .calms inv calms
    exact ⟨tidy.chain, tidy.settled h, found⟩
  refine routed.bind fun r => ?_
  cases r with
  | untracked mcs =>
    have sent := (Runs.unlock own.keeps (ρ := ρ)).bind fun _ => own.sec
      (.bind (modifyStats_tidy (f := fun st => { st with dbgPathPlain := st.dbgPathPlain + 1 })
        fun _ => rfl) fun _ => (txPlainUntracked_still payload dest mcs).tidy)
    exact Runs.pre sent fun c h => h.1
  | bundle i effPayload =>
    intro s active inv h
    exact txBundleLocked_runs h.2.2 s active inv ⟨h.2.1, h.1⟩
  | plain i pmcs =>
    exact Runs.pre (txPlainLocked_runs small) fun c h => ⟨h.2, h.1⟩

theorem halowAckTx_runs : Runs t (fun c => Settled t c.trace)
    (halowAckTx payload dest : Prog (Node ρ) Int) fun _ c => Settled t c.trace := by
  have own := settled_lasting t
  refine Runs.bind (own.sec (.bind (modifyStats_tidy fun _ => rfl) fun _ => ?_)) fun _ => ?_
  · exact (platform_still _ (Platform.statisticsRadioRegisterTxPackage_le _)).tidy
  refine ackTxUc_runs.bind fun r => ?_
  refine Runs.bind (own.sec (.when (modifyStats_tidy fun _ => rfl))) fun _ => ?_
  exact .pure r fun _ h => h

theorem halowAckFlush_runs : Runs t (fun c => Settled t c.trace)
    (halowAckFlush : Prog (Node ρ) Unit) fun _ c => Settled t c.trace := by
  have own := settled_lasting t
  refine (Runs.lock own.keeps).bind fun _ => ?_
  refine (Runs.forEach (fun i => ?_) _).bind fun _ => Runs.unlock own.keeps
  have look : Runs t (fun c => Settled t c.trace)
      (sec (Sec.read (·.peers i)) : Prog (Node ρ) AckPeer) fun p c =>
        c.peers i = p ∧ Settled t c.trace := .read fun _ h => ⟨rfl, h⟩
  refine look.bind fun p => .when (fun staged => ?_) fun _ _ h => h.2
  have flush := (aggFlushLocked_runs (own.attached i p.mac)).conseq (ρ := ρ)
    (fun c _ (h : c.peers i = p ∧ Settled t c.trace) =>
      ⟨⟨h.1 ▸ staged.1, congrArg AckPeer.mac h.1⟩, h.2⟩) fun _ _ _ h => h.1.2
  exact flush.bind fun _ => .pure () fun _ h => h

theorem halowAckTxReady_runs : Runs t (fun c => Settled t c.trace)
    (halowAckTxReady : Prog (Node ρ) Bool) fun _ c => Settled t c.trace := by
  have own := settled_lasting t
  refine (own.sec (.read _)).bind fun cfg => ?_
  by_cases off : cfg.maxRetries = 0
  · rw [if_pos off]
    exact .pure _ fun _ h => h
  rw [if_neg off]
  refine (own.sec halowGetTxVacancy_still.tidy).bind fun vacancy => ?_
  by_cases low : vacancy < ackTxVacancyLow
  · rw [if_pos low]
    exact .pure _ fun _ h => h
  rw [if_neg low]
  refine (Runs.lock own.keeps).bind fun _ => (own.sec (.read _)).bind fun ok => ?_
  exact (Runs.unlock own.keeps).bind fun _ => .pure _ fun _ h => h

end Transmit

section Receive

variable {t : Nat} {Q : History → Prop}

theorem sendAck_runs (own : Lasting t Q) (evm : Byte) (dest : Mac) (fids : List (BitVec 16)) :
    Runs t (fun c => Q c.trace) (sendAck evm dest fids : Prog (Node ρ) Unit)
      fun _ c => Q c.trace := by
  have rate : Runs t (fun c => Q c.trace) (ackMcsForPeer dest : Prog (Node ρ) Byte)
      fun _ c => Q c.trace :=
    (Runs.lock own.keeps).bind fun _ => (own.sec (.read _)).bind fun _ =>
      (Runs.unlock own.keeps).bind fun _ => .pure _ fun _ h => h
  refine rate.bind fun ackMcs => Runs.bind (own.sec (modifyStats_tidy fun _ => rfl)) fun _ => ?_
  refine (Runs.lock own.keeps).bind fun _ => (own.sec (.read _)).bind fun env => ?_
  refine (Runs.unlock own.keeps).bind fun _ => ?_
  cases env with
  | none => exact own.sec (sendFidAck_still _ _ _ _).tidy
  | some e => exact own.sec (sendEnvAck_still _ _ _ _ _).tidy

theorem cleared_lasting (t : Nat) (src : Mac) (payload : List Byte) :
    Lasting t fun trace => Settled t trace ∧ cleared t src payload trace = true where
  tidy := fun _ _ tidy h => ⟨tidy.settled h.1, tidy.cleared src payload h.2⟩
  keeps := (settled_keeps t).and (cleared_keeps t src payload)
  deaf := fun _ _ new h => ⟨settled_deaf t _ _ new h.1, (cleared_neutral new t src payload).trans h.2⟩

theorem rxEnv_runs (payload : List Byte) (src : Mac) :
    Runs t (fun c => Settled t c.trace) (rxEnv payload src : Prog (Node ρ) Bool)
      fun r c => Settled t c.trace ∧ (r = false → cleared t src payload c.trace = true) := by
  have own := settled_lasting t
  unfold rxEnv
  by_cases ack : isEnvAck payload = true
  · rw [if_pos ack]
    refine (Runs.lock own.keeps).bind fun _ => (own.sec ?_).bind fun _ => ?_
    · exact .bind (.read _) fun found => .ifSome fun i => rxEnvAckLocked_tidy i payload
    · exact (Runs.unlock own.keeps).bind fun _ => .pure _ fun _ h => ⟨h, by simp⟩
  rw [if_neg ack]
  by_cases bundle : isEnvBundle payload = true
  · rw [if_pos bundle]
    refine (Runs.lock own.keeps).bind fun _ => ?_
    refine (Runs.sec fun c inv h => rxBundleLocked_does inv h).bind fun consumed => ?_
    cases consumed with
    | true =>
      refine Runs.bind (Q := fun _ c => Settled t c.trace) ?_ fun _ => ?_
      · exact (Runs.unlock own.keeps).pre fun _ h => h.1
      · exact .pure _ fun _ h => ⟨h, by simp⟩
    | false =>
      have passed := cleared_lasting t src payload
      refine Runs.bind ((Runs.unlock passed.keeps).conseq (fun _ _ h => ⟨h.1, h.2 rfl⟩)
        fun _ _ _ h => h) fun _ => ?_
      exact .pure _ fun _ h => ⟨h.1, fun _ => h.2⟩
  rw [if_neg bundle]
  refine Runs.bind (own.sec (modifyStats_tidy fun _ => rfl)) fun _ => ?_
  exact .pure _ fun _ h => ⟨h, by simp⟩

theorem rxData_runs (payload : List Byte) (src : Mac) (dst : Option Mac) (evm : Byte)
    (own : Lasting t Q) (settled : ∀ trace, Q trace → Settled t trace)
    (clear : ∀ trace, Q trace → isEnvFrame payload = true → cleared t src payload trace = true) :
    Runs t (fun c => Q c.trace) (rxData payload src dst evm : Prog (Node ρ) Bool)
      fun _ c => Settled t c.trace := by
  have idle := settled_lasting t
  refine (Runs.lock own.keeps).bind fun _ => ?_
  have noted : Runs t (fun c => Q c.trace) (sec (rxDataNoted payload src dst evm) : Prog (Node ρ) _)
      fun _ c => Settled t c.trace := by
    refine .sec fun c inv h => Does.seq (Does.calm (rxDataLocked_calm _ _ _ _) fun r c1 calms => ?_)
    have tidy : Tidy t c c1 := .calms inv calms
    have known := own.tidy c c1 tidy h
    refine Does.seq ?_
    unfold Sec.when
    split
    · refine Does.mono (noteDelivered_does (settled _ known) (clear _ known)) ?_
      exact fun _ c2 done => Does.pure _ ⟨tidy.chain.trans done.1, done.2⟩
    · exact Does.pure _ (Does.pure _ ⟨tidy.chain, settled _ known⟩)
  refine noted.bind fun r => (Runs.unlock idle.keeps).bind fun _ => ?_
  obtain ⟨deliver, fids⟩ := r
  cases fids with
  | none => exact .pure _ fun _ h => h
  | some fids => exact (sendAck_runs idle evm src fids).bind fun _ => .pure _ fun _ h => h

theorem halowAckOnRx_runs (payload : List Byte) (src : Mac) (dst : Option Mac) (evm : Byte) :
    Runs t (fun c => Settled t c.trace) (halowAckOnRx payload src dst evm : Prog (Node ρ) Bool)
      fun _ c => Settled t c.trace := by
  have own := settled_lasting t
  unfold halowAckOnRx
  by_cases env : isEnvFrame payload = true
  · rw [if_pos env]
    refine (rxEnv_runs payload src).bind fun consumed => ?_
    cases consumed with
    | true => exact .pure _ fun _ h => h.1
    | false =>
      have data := rxData_runs payload src dst evm (cleared_lasting t src payload)
        (fun _ h => h.1) (fun _ h _ => h.2) (ρ := ρ)
      exact data.pre fun _ h => ⟨h.1, h.2 rfl⟩
  rw [if_neg env]
  by_cases ack : isAckFrame payload = true
  · rw [if_pos ack]
    have read : Runs t (fun c => Settled t c.trace) (rxAck payload src : Prog (Node ρ) Unit)
        fun _ c => Settled t c.trace := by
      refine Runs.bind (own.sec (modifyStats_tidy fun _ => rfl)) fun _ => ?_
      refine (Runs.lock own.keeps).bind fun _ => ?_
      exact (own.sec (rxAckLocked_tidy payload src)).bind fun _ => Runs.unlock own.keeps
    exact read.bind fun _ => .pure _ fun _ h => h
  rw [if_neg ack]
  exact rxData_runs payload src dst evm own (fun _ h => h) fun _ _ yes => absurd yes env

end Receive

section Tick

variable {t : Nat} {now : Jiffy}

theorem bufRetransmitOrDrop_eq (j : BufIx) :
    (bufRetransmitOrDrop j now : Prog (Node ρ) Unit) = (do
      match ← sec (retransmitLaunch j now) with
      | none => pure ()
      | some mcs => sendTail j mcs) := by
  funext s
  simp only [bufRetransmitOrDrop, retransmitLaunch, bind_apply, sec_apply, Res.bind_done,
    Sec.bind_apply]
  cases (retransmitPrep j now s.active s.body).1 with
  | none => rfl
  | some mcs => rfl

theorem bufRetransmitOrDrop_runs (j : BufIx) :
    Runs t (fun c => Ticking t now c.trace ∧ InFlight j c)
      (bufRetransmitOrDrop j now : Prog (Node ρ) Unit) fun _ c => Ticking t now c.trace := by
  have own := ticking_lasting t now
  rw [bufRetransmitOrDrop_eq]
  have first : Runs t (fun c => Ticking t now c.trace ∧ InFlight j c)
      (sec (retransmitLaunch j now) : Prog (Node ρ) (Option Byte)) fun r c =>
        Ticking t now c.trace ∧ (r.isSome = true → ∃ buf, Flight t j buf c) := by
    refine .sec fun c inv h => Does.mono (retransmitLaunch_does inv h.1.2 h.2) ?_
    rintro r c' ⟨tidy, flight⟩
    exact ⟨tidy.chain, own.tidy c c' tidy h.1, flight⟩
  refine first.bind fun r => ?_
  cases r with
  | none => exact .pure () fun _ h => h.1
  | some mcs =>
    rintro s active inv ⟨ticking, flight⟩
    obtain ⟨buf, flight⟩ := flight rfl
    exact sendTail_runs (own.endures j buf) s active inv ⟨flight, ticking⟩

theorem tickServiceBufs_runs : Runs t (fun c => Ticking t now c.trace)
    (tickServiceBufs now : Prog (Node ρ) Unit) fun _ c => Ticking t now c.trace := by
  have own := ticking_lasting t now
  refine (own.sec (.read _)).bind fun times => Runs.forEach (fun j => ?_) _
  have judged : Runs t (fun c => Ticking t now c.trace)
      (sec (judgeBuf now times.1 times.2 j) : Prog (Node ρ) Bool) fun r c =>
        Ticking t now c.trace ∧ (r = true → InFlight j c) := by
    refine .sec fun c inv h => Does.mono (judgeBuf_does inv h.2) ?_
    rintro r c' ⟨tidy, flying⟩
    exact ⟨tidy.chain, own.tidy c c' tidy h, flying⟩
  refine judged.bind fun due => .when (fun yes => ?_) fun _ _ h => h.1
  exact (bufRetransmitOrDrop_runs j).pre fun c h => ⟨h.1, h.2 yes⟩

theorem tickFlushHeldBundles_runs : Runs t (fun c => Ticking t now c.trace)
    (tickFlushHeldBundles now : Prog (Node ρ) Unit) fun _ c => Ticking t now c.trace := by
  have own := ticking_lasting t now
  refine Runs.forEach (fun i => ?_) _
  have look : Runs t (fun c => Ticking t now c.trace)
      (sec (Sec.read (·.peers i)) : Prog (Node ρ) AckPeer) fun p c =>
        c.peers i = p ∧ Ticking t now c.trace := .read fun _ h => ⟨rfl, h⟩
  refine look.bind fun p => .when (fun staged => ?_) fun _ _ h => h.2
  have flush := (aggFlushLocked_runs (own.attached i p.mac)).conseq (ρ := ρ)
    (fun c _ (h : c.peers i = p ∧ Ticking t now c.trace) =>
      ⟨⟨h.1 ▸ staged.1, congrArg AckPeer.mac h.1⟩, h.2⟩) fun _ _ _ h => h
  refine flush.bind fun flushed => .when (fun no => ?_) fun _ _ h => h.1.2
  refine .sec fun c inv h => Does.mono (holdDrop_tidy inv h.1.2.2 h.1.1.1 (h.2 no)) ?_
  exact fun _ c' tidy => ⟨tidy.chain, own.tidy c c' tidy h.1.2⟩

theorem tickFlushDeferredAcks_runs : Runs t (fun c => Ticking t now c.trace)
    (tickFlushDeferredAcks now : Prog (Node ρ) Unit) fun _ c => Ticking t now c.trace := by
  have own := ticking_lasting t now
  refine (own.sec (.read _)).bind fun cfg => .when (fun _ => ?_) fun _ _ h => h
  refine Runs.forEach (fun i => ?_) _
  refine (own.sec (takeDeferred_calm now i).tidy).bind fun r => ?_
  cases r with
  | none => exact .pure () fun _ h => h
  | some due =>
    refine (Runs.unlock own.keeps).bind fun _ => (sendAck_runs own _ _ _).bind fun _ => ?_
    exact Runs.lock own.keeps

theorem halowAckTick_runs : Runs t (fun c => Settled t c.trace)
    (halowAckTick : Prog (Node ρ) Unit) fun _ c => Settled t c.trace := by
  have idle := settled_lasting t
  refine (idle.sec (platform_still _ Platform.halowTxVacancyWatchdog_le).tidy).bind fun _ => ?_
  refine (idle.sec (.read _)).bind fun cfg => .when (fun _ => ?_) fun _ _ h => h
  have sampled : Runs t (fun c => Settled t c.trace) (sec sampleNow : Prog (Node ρ) Jiffy)
      fun now c => Ticking t now c.trace := .sec fun c _ h => sampleNow_does h
  refine sampled.bind fun now => ?_
  have own := ticking_lasting t now
  refine (own.sec dfltMcsRefresh_still.tidy).bind fun _ => (Runs.lock own.keeps).bind fun _ => ?_
  refine tickServiceBufs_runs.bind fun _ => tickFlushHeldBundles_runs.bind fun _ => ?_
  refine tickFlushDeferredAcks_runs.bind fun _ => ?_
  refine (own.sec checkStalePeers_still.tidy).bind fun _ => ?_
  exact (Runs.unlock own.keeps).conseq (fun _ _ h => h) fun _ _ _ h => h.1

end Tick

theorem halowAckConfigApply_runs (cfg : Config) : Runs t (fun c => Settled t c.trace)
    (halowAckConfigApply cfg : Prog (Node ρ) Unit) fun _ c => Settled t c.trace := by
  have own := settled_lasting t
  refine (own.sec dfltMcsRefresh_still.tidy).bind fun _ => (Runs.lock own.keeps).bind fun _ => ?_
  refine (own.sec (configInstall_tidy (configClamp_clamped cfg))).bind fun _ => ?_
  refine (Runs.unlock own.keeps).bind fun _ => (Runs.lock own.keeps).bind fun _ => ?_
  refine (own.sec configCache_still.tidy).bind fun _ => (Runs.unlock own.keeps).bind fun _ => ?_
  refine own.sec (.bind (.read _) fun live => ?_)
  exact (platform_still _ (Platform.halowAckConfigSave_le live)).tidy

theorem Call.runs (call : Call) (t : Nat) : Runs t (fun c => Settled t c.trace)
    (call.prog : Prog (Node ρ) Result) fun _ c => Settled t c.trace := by
  cases call with
  | tx payload dest => exact halowAckTx_runs.bind fun r => .pure _ fun _ h => h
  | flush => exact halowAckFlush_runs.bind fun _ => .pure _ fun _ h => h
  | onRx payload src dst evm =>
    exact (halowAckOnRx_runs payload src dst evm).bind fun r => .pure _ fun _ h => h
  | tick => exact halowAckTick_runs.bind fun _ => .pure _ fun _ h => h
  | txReady => exact halowAckTxReady_runs.bind fun r => .pure _ fun _ h => h
  | configApply cfg => exact (halowAckConfigApply_runs cfg).bind fun _ => .pure _ fun _ h => h

theorem calls_disciplined : Pool.Disciplined (ackDiscipline (ρ := ρ)).locked allowed := by
  apply Triple.disciplined
  rintro t _ ⟨call, rfl, _⟩
  exact call.runs t

end RnodeHalow.Ack
