import RnodeHalow.Ack.BitmapAck

set_option autoImplicit false

namespace RnodeHalow.Ack

open Resumption
open Function (update update_eq_self update_idem update_of_ne update_self)
open Platform (jiffies)

variable {ρ : Type} [Platform ρ] {α : Type}

def Overdue (now life : Jiffy) (slot : Option AckBuf) : Prop :=
  ∃ buf, slot = some buf ∧ buf.state = .inflight ∧ life ≤ now - buf.bornJiff

instance (now life : Jiffy) (slot : Option AckBuf) : Decidable (Overdue now life slot) :=
  match slot with
  | none => isFalse (by simp [Overdue])
  | some buf => decidable_of_iff (buf.state = .inflight ∧ life ≤ now - buf.bornJiff)
      (by simp [Overdue])

def slotLife (b : Body ρ) : Jiffy := msJ (slotLifeMs b)

variable {c c' : Core} {t : Nat} {j : BufIx} {b0 b b' : Body ρ} {buf : AckBuf}

def BornIn (n n' : Nat) (buf : AckBuf) : Prop :=
  ∃ τ, n ≤ τ ∧ τ ≤ n' ∧ buf.bornJiff = BitVec.ofNat 32 τ

theorem BornIn.mono {n n' m m' : Nat} (born : BornIn n n' buf) (lo : m ≤ n) (hi : n' ≤ m') :
    BornIn m m' buf := by
  obtain ⟨τ, le, le', eq⟩ := born
  exact ⟨τ, Nat.le_trans lo le, Nat.le_trans le' hi, eq⟩

-- A buffer was sealed since, or was there before and is as old as it was.
structure Ages (c c' : Core) : Prop where
  clock : c.clock ≤ c'.clock
  cfg : c'.cfg = c.cfg
  ewma : c'.counts.ackRttEwmaMs = c.counts.ackRttEwmaMs
  seated : Seated c.bufs → Seated c'.bufs
  slot : ∀ k buf', c'.bufs k = some buf' → BornIn c.clock c'.clock buf' ∨
    ∃ buf, c.bufs k = some buf ∧ buf'.state = buf.state ∧ buf'.bornJiff = buf.bornJiff

theorem Ages.of_slots (clock : c.clock ≤ c'.clock) (cfg : c'.cfg = c.cfg)
    (ewma : c'.counts.ackRttEwmaMs = c.counts.ackRttEwmaMs)
    (slot : ∀ k buf', c'.bufs k = some buf' → ∃ buf, c.bufs k = some buf ∧
      buf'.state = buf.state ∧ buf'.bornJiff = buf.bornJiff ∧ buf'.idx = buf.idx) : Ages c c' where
  clock := clock
  cfg := cfg
  ewma := ewma
  seated seated k buf' held := by
    obtain ⟨buf, there, -, -, idx⟩ := slot k buf' held
    exact idx.trans (seated k buf there)
  slot k buf' held := by
    obtain ⟨buf, there, state, born, -⟩ := slot k buf' held
    exact .inr ⟨buf, there, state, born⟩

theorem Ages.refl (c : Core) : Ages c c :=
  .of_slots (Nat.le_refl _) rfl rfl fun _ buf held => ⟨buf, held, rfl, rfl, rfl⟩

theorem Ages.trans {a b c : Core} (first : Ages a b) (second : Ages b c) : Ages a c where
  clock := Nat.le_trans first.clock second.clock
  cfg := second.cfg.trans first.cfg
  ewma := second.ewma.trans first.ewma
  seated seated := second.seated (first.seated seated)
  slot k buf'' held := by
    rcases second.slot k buf'' held with born | ⟨buf', held', state', born'⟩
    · exact .inl (born.mono first.clock (Nat.le_refl _))
    · rcases first.slot k buf' held' with ⟨τ, le, le', eq⟩ | ⟨buf, held, state, born⟩
      · exact .inl ⟨τ, le, Nat.le_trans le' second.clock, born'.trans eq⟩
      · exact .inr ⟨buf, held, state'.trans state, born'.trans born⟩

def aging : Frame (Body ρ) where
  rel b b' := Ages (core b) (core b')
  refl _ := .refl _
  trans first second := first.trans second

theorem Calms.clock (calms : Calms c c') : c.clock ≤ c'.clock := by
  induction calms with
  | refl => exact Nat.le_refl _
  | tail _ calm ih =>
    refine Nat.le_trans ih ?_
    cases calm with
    | elapse n later => exact later
    | _ => exact Nat.le_refl _

theorem Ages.ofCalms (calms : Calms c c') (ewma : c'.counts.ackRttEwmaMs = c.counts.ackRttEwmaMs) :
    Ages c c' := by
  refine .of_slots calms.clock calms.cfg ewma fun k buf' held => ?_
  have same := calms.undated k
  rw [held] at same
  obtain ⟨buf, there, eq⟩ := Option.map_eq_some_iff.mp same.symm
  cases buf
  cases buf'
  simp only [AckBuf.undated, AckBuf.mk.injEq] at eq
  simp [there, eq]

theorem StillSec.ages {m : Code ρ α} (still : StillSec m) : aging.Around m :=
  fun t b => .ofCalms (still t b).calms (congrArg Counts.ackRttEwmaMs (still t b).counts)

theorem modify_ages {f : Body ρ → Body ρ} (plat : ∀ b, (f b).plat = b.plat)
    (cfg : ∀ b, (f b).cfg = b.cfg) (ewma : ∀ b, (f b).stats.ackRttEwmaMs = b.stats.ackRttEwmaMs)
    (bufs : ∀ b, (f b).bufs = b.bufs) : aging.Around (Sec.modify f) := by
  intro t b
  refine .of_slots (Nat.le_of_eq (congrArg jiffies (plat b)).symm) (cfg b) (ewma b) ?_
  intro k buf' held
  exact ⟨buf', (congrFun (bufs b) k).symm.trans held, rfl, rfl, rfl⟩

theorem emit_ages (e : Event) : aging.Around (emit e : Code ρ Unit) :=
  modify_ages (fun _ => rfl) (fun _ => rfl) (fun _ => rfl) fun _ => rfl

variable (now : Jiffy) (i : PeerIx)

theorem modifyPeer_ages (f : AckPeer → AckPeer) : aging.Around (modifyPeer i f : Code ρ Unit) :=
  modify_ages (fun _ => rfl) (fun _ => rfl) (fun _ => rfl) fun _ => rfl

theorem modifyStats_ages {f : Stats → Stats}
    (ewma : ∀ st, (f st).ackRttEwmaMs = st.ackRttEwmaMs) :
    aging.Around (modifyStats f : Code ρ Unit) :=
  modify_ages (fun _ => rfl) (fun _ => rfl) (fun b => ewma b.stats) fun _ => rfl

theorem modifyBuf_ages (j : BufIx) {f : AckBuf → AckBuf}
    (same : ∀ buf, (f buf).state = buf.state ∧ (f buf).bornJiff = buf.bornJiff ∧
      (f buf).idx = buf.idx) : aging.Around (modifyBuf j f : Code ρ Unit) := by
  intro t b
  refine .of_slots (Nat.le_refl _) rfl rfl fun k buf' held => ?_
  by_cases here : k = j
  · subst here
    have held : (b.bufs k).map f = some buf' := by simpa [core, modifyBuf] using held
    obtain ⟨buf, there, rfl⟩ := Option.map_eq_some_iff.mp held
    exact ⟨buf, there, same buf⟩
  · refine ⟨buf', ?_, rfl, rfl, rfl⟩
    simpa [core, modifyBuf, update_of_ne here] using held

theorem bufRelease_ages (j : BufIx) : aging.Around (bufRelease j : Code ρ Unit) := by
  refine .bind (.read _) fun held => ?_
  cases held with
  | none => exact emit_ages _
  | some buf =>
    refine .bind (fun t b => .of_slots (Nat.le_refl _) rfl rfl fun k buf' held => ?_) fun _ =>
      (platform_still _ Platform.osFree_le).ages
    by_cases here : k = buf.idx
    · subst here
      simp [core] at held
    · refine ⟨buf', ?_, rfl, rfl, rfl⟩
      simpa [core, update_of_ne here] using held

theorem raOnDrop_ages : aging.Around (raOnDrop i : Code ρ Unit) :=
  fun t b => .ofCalms (raOnDrop_calm i t b) (raOnDrop_spares i t b).ewma

theorem aging_mild : Mild (aging : Frame (Body ρ)) where
  vacancy := halowGetTxVacancy_still.ages
  note _ := emit_ages _
  count same := modifyStats_ages same
  entry i _ _ := modifyPeer_ages i _

theorem judgeBuf_ages (timeoutJ lifeJ : Jiffy) (j : BufIx) :
    aging.Around (judgeBuf now timeoutJ lifeJ j : Code ρ Bool) :=
  aging_mild.judgeBuf j bufRelease_ages now raOnDrop_ages timeoutJ lifeJ

theorem retransmitPrep_ages (j : BufIx) :
    aging.Around (retransmitPrep j now : Code ρ (Option Byte)) :=
  aging_mild.retransmitPrep j bufRelease_ages now raOnDrop_ages (fun _ => emit_ages _)
    (modifyBuf_ages j fun _ => ⟨rfl, rfl, rfl⟩) cwndOnRetransTimeout_still.ages
    fun i => (raOnRetrans_still i).ages

-- What is in flight in a judged slot was young at `now`, or is newer than the tick.
def Swept (now life : Jiffy) (n : Nat) (c : Core) (j : BufIx) : Prop :=
  ∀ buf, c.bufs j = some buf → buf.state = .inflight →
    ¬ life ≤ now - buf.bornJiff ∨ BornIn n c.clock buf

theorem Swept.age {now life : Jiffy} {n : Nat} (swept : Swept now life n c j) (since : n ≤ c.clock)
    (ages : Ages c c') : Swept now life n c' j := by
  intro buf' held flying
  rcases ages.slot j buf' held with born | ⟨buf, there, state, born⟩
  · exact .inr (born.mono since (Nat.le_refl _))
  · rw [born]
    refine (swept buf there (state ▸ flying)).imp_right ?_
    rintro ⟨τ, le, le', eq⟩
    exact ⟨τ, le, Nat.le_trans le' ages.clock, born.trans eq⟩

theorem judgeBuf_swept {now timeoutJ life : Jiffy} (seated : Seated c.bufs) :
    Does (judgeBuf now timeoutJ life j : Code ρ Bool) t c fun due c' =>
      Swept now life c.clock c' j ∧
        (due = true → ∀ buf, c'.bufs j = some buf → buf.state = .inflight) := by
  refine Does.get (fun c => c.bufs j) (fun _ => rfl) ?_
  cases held : c.bufs j with
  | none => exact Does.pure _ ⟨by simp [Swept, held], by simp⟩
  | some buf =>
    by_cases other : buf.state ≠ .inflight
    · simp only [if_pos other]
      exact Does.pure _ ⟨by simp [Swept, held, other], by simp⟩
    simp only [if_neg other]
    have inflight : buf.state = .inflight := not_not.mp other
    refine Does.seq (Does.self ?_)
    by_cases old : now - buf.bornJiff ≥ life
    · rw [if_pos old]
      refine Does.seq (emit_does _ (Does.seq (emit_does _ ?_)))
      refine Does.seq (Does.seq (Does.read fun b same => ?_))
      refine Does.seq (bufRelease_does held (seated j buf held) fun n le => ?_)
      have gone : ({ ((c.note (.landed j)).note (.deadlineDropped t j life)).free j buf with
          clock := n } : Core).bufs j = none := update_self ..
      have rest : aging.Around (do
          modifyStats fun st =>
            { st with dropped := st.dropped + 1, dropDeadline := st.dropDeadline + 1 }
          Sec.ifSome (peerFind b buf.destMac) fun i => do
            modifyPeer i fun p => { p with dropped := p.dropped + 1 }
            raOnDrop i : Code ρ Unit) :=
        .bind (modifyStats_ages fun _ => rfl) fun _ => .ifSome fun i =>
          .bind (modifyPeer_ages i _) fun _ => raOnDrop_ages i
      intro b1 same1
      refine Does.pure _ ⟨?_, by simp⟩
      refine Swept.age ?_ ?_ (rest t b1)
      · rw [same1]
        exact fun buf' held' => absurd (gone.symm.trans held') (by simp)
      · rw [same1]
        exact le
    rw [if_neg old]
    have young {c' : Core} (bufs : c'.bufs = c.bufs) : Swept now life c.clock c' j := by
      intro buf' held' _
      rw [bufs, held] at held'
      cases held'
      exact .inl old
    refine Does.seq (Does.read fun b same => ?_)
    split
    · exact Does.pure _ ⟨young rfl, by simp⟩
    refine Does.seq (Does.still halowGetTxVacancy_still fun vacancy c1 still => ?_)
    split
    · exact Does.pure _ ⟨young still.bufs, by simp⟩
    refine Does.seq (emit_does _ (Does.pure _ ⟨young still.bufs, fun _ buf' held' => ?_⟩))
    have held1 : c1.bufs j = some buf' := held'
    rw [still.bufs, held] at held1
    cases held1
    exact inflight

structure Turned (j : BufIx) (state : BufState) (c c' : Core) : Prop where
  clock : c.clock ≤ c'.clock
  cfg : c'.cfg = c.cfg
  ewma : c'.counts.ackRttEwmaMs = c.counts.ackRttEwmaMs
  bufs : c'.bufs = update c.bufs j ((c.bufs j).map fun buf => { buf with state := state })

theorem markSending_turned (j : BufIx) :
    Does (markSending j : Code ρ Unit) t c fun _ c' => Turned j .sending c c' := by
  cases held : c.bufs j with
  | none =>
    refine Does.get (fun c => c.bufs j) (fun _ => rfl) ?_
    rw [held]
    refine emit_does _ ⟨Nat.le_refl _, rfl, rfl, ?_⟩
    rw [held, Option.map_none, ← held, update_eq_self]
    rfl
  | some buf =>
    refine markSending_does held ⟨Nat.le_refl _, rfl, rfl, ?_⟩
    rw [held]
    rfl

theorem sendDone_turned {c c1 : Core} (sending : Turned j .sending c c1) :
    Does (sendDone j : Code ρ Unit) t c1 fun _ c' => Turned j .inflight c c' := by
  refine Does.get (fun c => c.bufs j) (fun _ => rfl) ?_
  have here : c1.bufs j = (c.bufs j).map fun buf => { buf with state := .sending } := by
    rw [sending.bufs, update_self]
  cases held : c.bufs j with
  | none =>
    rw [here, held]
    refine emit_does _ ⟨sending.clock, sending.cfg, sending.ewma, ?_⟩
    rw [held]
    have same := sending.bufs
    rw [held] at same
    exact same
  | some buf =>
    rw [here, held]
    simp only [Option.map_some, Sec.when, if_true]
    have held1 : c1.bufs j = some { buf with state := .sending } := by rw [here, held]; rfl
    refine modifyBuf_does held1 ⟨sending.clock, sending.cfg, sending.ewma, ?_⟩
    simp only [Core.setBuf, sending.bufs, update_idem, held, Option.map_some]

theorem sendOut_ages (j : BufIx) (pmcs : Byte) :
    Sec.Along (fun _ b b' => Ages (core b) (core b') ∧ b'.bufs = b.bufs)
      (sendOut j pmcs : Code ρ Unit) := by
  intro t b
  have ran : Does (sendOut j pmcs : Code ρ Unit) t (core b) fun _ c' =>
      Ages (core b) c' ∧ c'.bufs = b.bufs := by
    refine Does.get (fun c => c.bufs j) (fun _ => rfl) ?_
    cases (core b).bufs j with
    | none => exact emit_does _ ⟨emit_ages .nullDeref t b, rfl⟩
    | some buf =>
      have rest : StillSec (do
          let _ ← halowTx ((buf.data.drop buf.ofs).take buf.len) buf.destMac pmcs
          let now ← nowJ
          Sec.modify fun b => { b with lastDataTxJiff := now } : Code ρ Unit) :=
        .bind (halowTx_still _ _ _) fun _ => .bind nowJ_still fun _ =>
          fun _ b => Still.refl (core b)
      refine Does.seq (emit_does _ (Does.still rest fun _ c1 still => ?_))
      have sent : Ages (core b) ((core b).note (.sent j)) := emit_ages (.sent j) t b
      have more : Ages ((core b).note (.sent j)) c1 :=
        .ofCalms still.calms (congrArg Counts.ackRttEwmaMs still.counts)
      exact ⟨sent.trans more, still.bufs⟩
  exact ran b rfl

theorem bufTxSend_turns (j : BufIx) (pmcs : Byte) (b0 : Body ρ) :
    Yields (· = b0) (bufTxSend j pmcs) fun _ b => Turned j .inflight (core b0) (core b) := by
  have mark : Yields (· = b0) (sec (markSending j)) fun _ b =>
      Turned j .sending (core b0) (core b) := by
    refine .sec ?_
    rintro t b rfl
    exact markSending_turned j b rfl
  have send : Yields (fun b : Body ρ => Turned j .sending (core b0) (core b))
      (sec (sendOut j pmcs))
      fun _ b => Turned j .sending (core b0) (core b) := by
    refine .sec fun t b sending => ?_
    obtain ⟨ages, bufs⟩ := sendOut_ages j pmcs t b
    exact ⟨Nat.le_trans sending.clock ages.clock, ages.cfg.trans sending.cfg,
      ages.ewma.trans sending.ewma, bufs.trans sending.bufs⟩
  refine mark.bind fun _ => Yields.unlock.bind fun _ => send.bind fun _ => Yields.lock.bind ?_
  exact fun _ => .sec fun t b sending => sendDone_turned sending b rfl

theorem Turned.ages {c c1 c' : Core} (before : Ages c c1)
    (own : ∀ buf, c1.bufs j = some buf → buf.state = .inflight ∨ BornIn c.clock c1.clock buf)
    (turned : Turned j .inflight c1 c') : Ages c c' := by
  have slots (k : BufIx) (buf' : AckBuf) (held : c'.bufs k = some buf') : ∃ buf,
      c1.bufs k = some buf ∧ buf'.idx = buf.idx ∧ buf'.bornJiff = buf.bornJiff ∧
        (buf'.state = buf.state ∨ BornIn c.clock c1.clock buf) := by
    rw [turned.bufs] at held
    by_cases here : k = j
    · subst here
      rw [update_self] at held
      obtain ⟨buf, there, rfl⟩ := Option.map_eq_some_iff.mp held
      exact ⟨buf, there, rfl, rfl, (own buf there).imp_left Eq.symm⟩
    · rw [update_of_ne here] at held
      exact ⟨buf', held, rfl, rfl, .inl rfl⟩
  have later {buf buf' : AckBuf} (same : buf'.bornJiff = buf.bornJiff)
      (born : BornIn c.clock c1.clock buf) : BornIn c.clock c'.clock buf' := by
    obtain ⟨τ, le, le', eq⟩ := born
    exact ⟨τ, le, Nat.le_trans le' turned.clock, same.trans eq⟩
  refine ⟨Nat.le_trans before.clock turned.clock, turned.cfg.trans before.cfg,
    turned.ewma.trans before.ewma, fun seated k buf' held => ?_, fun k buf' held => ?_⟩
  · obtain ⟨buf, there, idx, -⟩ := slots k buf' held
    exact idx.trans (before.seated seated k buf there)
  · obtain ⟨buf, there, -, born, state | fresh⟩ := slots k buf' held
    · rcases before.slot k buf there with fresh | ⟨old, was, state', born'⟩
      · exact .inl (later born fresh)
      · exact .inr ⟨old, was, state.trans state', born.trans born'⟩
    · exact .inl (later born fresh)

theorem bufTxSend_ages {b1 : Body ρ} (pmcs : Byte) (before : Ages (core b0) (core b1))
    (own : ∀ buf, b1.bufs j = some buf →
      buf.state = .inflight ∨ BornIn (core b0).clock (core b1).clock buf) :
    Yields (· = b1) (bufTxSend j pmcs) fun _ b => Ages (core b0) (core b) :=
  (bufTxSend_turns j pmcs b1).conseq (fun _ eq => eq) fun _ _ turned => turned.ages before own

structure Serviced (now life : Jiffy) (b₀ : Body ρ) (done : List BufIx) (b : Body ρ) : Prop where
  ages : Ages (core b₀) (core b)
  swept : ∀ j ∈ done, Swept now life (core b₀).clock (core b) j

theorem Serviced.age {now life : Jiffy} {done : List BufIx}
    (serviced : Serviced now life b0 done b) (more : Ages (core b) (core b')) :
    Serviced now life b0 done b' where
  ages := serviced.ages.trans more
  swept j member := (serviced.swept j member).age serviced.ages.clock more

theorem bufRetransmitOrDrop_ages (j : BufIx) (now : Jiffy) (b0 : Body ρ)
    (flying : ∀ buf, b0.bufs j = some buf → buf.state = .inflight) :
    Yields (· = b0) (bufRetransmitOrDrop j now) fun _ b => Ages (core b0) (core b) := by
  have prep : Yields (· = b0) (sec (retransmitPrep j now)) fun _ b =>
      Ages (core b0) (core b) := by
    refine .sec ?_
    rintro t b rfl
    exact retransmitPrep_ages now j t b
  refine prep.bind fun r => ?_
  cases r with
  | none => exact .pure () fun _ ages => ages
  | some mcs =>
    refine .each fun b1 ages => bufTxSend_ages mcs ages fun buf held => ?_
    refine (ages.slot j buf held).symm.imp_left ?_
    rintro ⟨old, there, state, -⟩
    exact state.trans (flying old there)

theorem serviceSlot_yields (timeoutJ life : Jiffy) (seated : Seated b0.bufs) (done : List BufIx)
    (j : BufIx) :
    Yields (Serviced now life b0 done) (do
      let due ← sec (judgeBuf now timeoutJ life j)
      Prog.when (due = true) <| bufRetransmitOrDrop j now)
      fun _ => Serviced now life b0 (done ++ [j]) := by
  have judged : Yields (Serviced now life b0 done) (sec (judgeBuf now timeoutJ life j))
      fun due b => Serviced now life b0 (done ++ [j]) b ∧
        (due = true → ∀ buf, b.bufs j = some buf → buf.state = .inflight) := by
    refine .sec fun t b serviced => ?_
    have more := serviced.age (judgeBuf_ages now timeoutJ life j t b)
    have judge : Does (judgeBuf now timeoutJ life j : Code ρ Bool) t (core b) _ :=
      judgeBuf_swept (serviced.ages.seated seated)
    obtain ⟨swept, flying⟩ := judge b rfl
    refine ⟨⟨more.ages, fun k member => ?_⟩, flying⟩
    rcases List.mem_append.mp member with before | here
    · exact more.swept k before
    · rw [List.mem_singleton.mp here]
      exact fun buf held inflight => (swept buf held inflight).imp_right fun born =>
        born.mono serviced.ages.clock (Nat.le_refl _)
  refine judged.bind fun due => .when (fun yes => ?_) fun _ b h => h.1
  refine .each fun b h => ?_
  exact (bufRetransmitOrDrop_ages j now b (h.2 yes)).conseq (fun _ eq => eq)
    fun _ b' ages => h.1.age ages

theorem slotLife_congr (ages : Ages (core b) (core b')) : slotLife b' = slotLife b := by
  have cfg : b'.cfg = b.cfg := ages.cfg
  have ewma : b'.stats.ackRttEwmaMs = b.stats.ackRttEwmaMs := ages.ewma
  simp [slotLife, slotLifeMs, cfg, ewma]

theorem tickServiceBufs_yields (seated : Seated b0.bufs) :
    Yields (fun b => Ages (core b0) (core b)) (tickServiceBufs now) fun _ =>
      Serviced now (slotLife b0) b0 allBufs := by
  have look : Yields (fun b => Ages (core b0) (core b)) (sec (Sec.read serviceTimes)) fun times b =>
      times.2 = slotLife b0 ∧ Serviced now times.2 b0 [] b :=
    .sec fun t b ages => ⟨slotLife_congr ages, ages, by simp⟩
  refine look.bind fun times => .each ?_
  rintro b1 ⟨life, start⟩
  rw [← life]
  exact (Yields.forEach (serviceSlot_yields now times.1 times.2 seated) [] allBufs).conseq
    (fun b eq => eq ▸ start) fun _ _ serviced => serviced

theorem peerNoteTx_ages (wireBytes : Nat) : aging.Around (peerNoteTx i wireBytes : Code ρ Unit) :=
  .bind (platform_still _ Platform.timeS_le).ages fun _ => modifyPeer_ages i _

theorem bufWrite_ages (j : BufIx) (ofs : Nat) (bytes : List Byte) :
    aging.Around (bufWrite j ofs bytes : Code ρ Unit) := by
  refine .bind (.read _) fun held => ?_
  cases held with
  | none => exact emit_ages _
  | some buf => exact .ite (emit_ages _) (modifyBuf_ages j fun _ => ⟨rfl, rfl, rfl⟩)

def Sealed (c : Core) (j : BufIx) (c' : Core) : Prop :=
  Ages c c' ∧ ∀ buf, c'.bufs j = some buf → BornIn c.clock c'.clock buf

theorem Sealed.age {c c' c'' : Core} (sealed : Sealed c j c') (ages : Ages c' c'') :
    Sealed c j c'' := by
  refine ⟨sealed.1.trans ages, fun buf held => ?_⟩
  rcases ages.slot j buf held with born | ⟨old, there, -, born⟩
  · exact born.mono sealed.1.clock (Nat.le_refl _)
  · obtain ⟨τ, le, le', eq⟩ := sealed.2 old there
    exact ⟨τ, le, Nat.le_trans le' ages.clock, born.trans eq⟩

theorem sealed_born {c0 c : Core} {τ : Nat} {f : AckBuf → AckBuf} (ages : Ages c0 c)
    (lo : c0.clock ≤ τ) (hi : τ ≤ c.clock)
    (born : ∀ buf, (f buf).bornJiff = BitVec.ofNat 32 τ ∧ (f buf).idx = buf.idx) :
    Does (modifyBuf j f : Code ρ Unit) t c fun _ c' => Sealed c0 j c' := by
  rintro b rfl
  have own (buf' : AckBuf) (held : (core (modifyBuf j f t b).2).bufs j = some buf') :
      ∃ buf, (core b).bufs j = some buf ∧ f buf = buf' :=
    Option.map_eq_some_iff.mp (by simpa [core, modifyBuf] using held)
  have others {k : BufIx} (here : k ≠ j) :
      (core (modifyBuf j f t b).2).bufs k = (core b).bufs k := by
    simp [core, modifyBuf, update_of_ne here]
  have fresh (buf' : AckBuf) (held : (core (modifyBuf j f t b).2).bufs j = some buf') :
      BornIn c0.clock (core b).clock buf' := by
    obtain ⟨buf, -, rfl⟩ := own buf' held
    exact ⟨τ, lo, hi, (born buf).1⟩
  refine ⟨⟨ages.clock, ages.cfg, ages.ewma, fun seated k buf' held => ?_, fun k buf' held => ?_⟩,
    fresh⟩
  all_goals by_cases here : k = j
  · subst here
    obtain ⟨buf, there, rfl⟩ := own buf' held
    exact (born buf).2.trans (ages.seated seated k buf there)
  · exact ages.seated seated k buf' (others here ▸ held)
  · subst here
    exact .inl (fresh buf' held)
  · exact ages.slot k buf' (others here ▸ held)

theorem Does.ages {post : α → Core → Prop} {m : Code ρ α} (around : aging.Around m)
    (h : ∀ a c', Ages c c' → post a c') : Does m t c post := by
  rintro b rfl
  exact h _ _ (around t b)

theorem aggSealNow_sealed (j : BufIx) :
    Does (aggSealNow i j : Code ρ FlushStart) t c fun r c' =>
      (∃ mcs, r = .sealed j mcs) ∧ Sealed c j c' := by
  refine Does.get (fun c => c.peers i) (fun _ => rfl) ?_
  refine Does.seq (Does.ages (modifyPeer_ages i _) fun _ c1 one => ?_)
  refine Does.seq (Does.ages nowJ_still.ages fun now c2 two => ?_)
  refine Does.seq (Does.ages (emit_ages _) fun _ c3 three => ?_)
  refine Does.seq (nowJ_does fun τ later => ?_)
  have before := (one.trans two).trans three
  have waits : Ages c3 { c3 with clock := τ } :=
    .of_slots later rfl rfl fun _ buf held => ⟨buf, held, rfl, rfl, rfl⟩
  refine Does.seq (Does.ages (emit_ages _) fun _ c4 four => ?_)
  refine Does.seq (Does.ages (modifyPeer_ages i _) fun _ c5 five => ?_)
  refine Does.seq (Does.ages (bufWrite_ages j _ _) fun _ c6 six => ?_)
  have after := (four.trans five).trans six
  refine Does.seq (Does.mono (sealed_born (τ := τ) ((before.trans waits).trans after)
    (Nat.le_trans before.clock later) after.clock fun _ => ⟨rfl, rfl⟩) fun _ c7 born => ?_)
  refine Does.seq (Does.ages (peerNoteTx_ages i _) fun _ c8 eight => ?_)
  refine Does.seq (Does.ages (modifyStats_ages fun _ => rfl) fun _ c9 nine => ?_)
  refine Does.seq (Does.read fun _ _ => ?_)
  refine Does.seq (Does.ages (emit_ages _) fun _ c10 ten => Does.pure _ ⟨⟨_, rfl⟩, ?_⟩)
  exact born.age ((eight.trans nine).trans ten)

theorem aggSeal_sealed :
    Does (aggSeal i : Code ρ FlushStart) t c fun r c' =>
      Ages c c' ∧ ∀ j mcs, r = .sealed j mcs → Sealed c j c' := by
  refine Does.get (fun c => (c.peers i).aggIdx) (fun _ => rfl) ?_
  cases (c.peers i).aggIdx with
  | none => exact Does.pure _ ⟨Ages.refl c, by simp⟩
  | some j =>
    refine Does.seq (Does.ages halowGetTxVacancy_still.ages fun vacancy c1 one => ?_)
    split
    · exact Does.pure _ ⟨one, by simp⟩
    refine Does.seq (Does.read fun _ _ => Does.seq (Does.read fun _ _ => ?_))
    split
    · exact Does.pure _ ⟨one, by simp⟩
    refine Does.mono (aggSealNow_sealed i j) ?_
    rintro _ c2 ⟨⟨mcs, rfl⟩, sealed⟩
    have all : Sealed c j c2 := by
      refine ⟨one.trans sealed.1, fun buf held => ?_⟩
      exact (sealed.2 buf held).mono one.clock (Nat.le_refl _)
    refine ⟨all.1, ?_⟩
    rintro _ _ ⟨⟩
    exact all

theorem aggFlushLocked_ages (b0 : Body ρ) :
    Yields (· = b0) (aggFlushLocked i) fun _ b => Ages (core b0) (core b) := by
  have seals : Yields (· = b0) (sec (aggSeal i)) fun r b => Ages (core b0) (core b) ∧
      ∀ j mcs, r = .sealed j mcs → Sealed (core b0) j (core b) := by
    refine .sec ?_
    rintro t b rfl
    exact aggSeal_sealed i b rfl
  refine seals.bind fun r => ?_
  cases r with
  | nothing => exact .pure _ fun _ h => h.1
  | blocked => exact .pure _ fun _ h => h.1
  | sealed j mcs =>
    have sends : Yields (fun b : Body ρ => Ages (core b0) (core b) ∧
        ∀ k pmcs, FlushStart.sealed j mcs = .sealed k pmcs → Sealed (core b0) k (core b))
        (bufTxSend j mcs) fun _ b => Ages (core b0) (core b) := by
      refine .each fun b1 h => bufTxSend_ages mcs h.1 fun buf held => .inr ?_
      exact (h.2 j mcs rfl).2 buf held
    exact sends.bind fun _ => .pure _ fun _ h => h

theorem scan_ages {ι : Type} {body : ι → Prog (Node ρ) Unit}
    (each : ∀ i b, Yields (· = b) (body i) fun _ b' => Ages (core b) (core b')) (l : List ι)
    (b0 : Body ρ) : Yields (· = b0) (forEach l body) fun _ b => Ages (core b0) (core b) := by
  have scan := Yields.forEach (J := fun _ b => Ages (core b0) (core b)) (fun _ i =>
    .each fun b1 before => (each i b1).conseq (fun _ eq => eq) fun _ b more => before.trans more)
    [] l
  refine scan.conseq ?_ fun _ _ h => h
  rintro b rfl
  exact Ages.refl _

theorem tickFlushHeldBundles_ages (b0 : Body ρ) :
    Yields (· = b0) (tickFlushHeldBundles now) fun _ b => Ages (core b0) (core b) := by
  refine scan_ages (fun i b1 => ?_) allPeers b0
  have look : Yields (· = b1) (sec (Sec.read (·.peers i))) fun _ b => b = b1 := .sec fun _ _ h => h
  refine look.bind fun p => .when (fun _ => ?_) fun _ b eq => eq ▸ Ages.refl _
  refine (aggFlushLocked_ages i b1).bind fun flushed => .when (fun _ => ?_) fun _ _ h => h
  exact .sec fun t b before => before.trans (aging_mild.holdDrop i bufRelease_ages now t b)

theorem sendAck_ages (evm : Byte) (dest : Mac) (fids : List (BitVec 16)) :
    aging.phases.Governs (sendAck evm dest fids : Prog (Node ρ) Unit) := by
  have rate : aging.phases.Governs (ackMcsForPeer dest : Prog (Node ρ) Byte) :=
    .bind .lock fun _ => .bind (.sec fun _ => .read _) fun _ => .bind .unlock fun _ => .pure _
  refine .bind rate fun ackMcs => .bind (.sec fun _ => modifyStats_ages fun _ => rfl) fun _ => ?_
  refine .bind .lock fun _ => .bind (.sec fun _ => .read _) fun env => .bind .unlock fun _ => ?_
  cases env with
  | none => exact .sec fun _ => (sendFidAck_still evm dest fids ackMcs).ages
  | some e => exact .sec fun _ => (sendEnvAck_still evm dest e.1 e.2 ackMcs).ages

theorem takeDeferred_ages :
    aging.Around (takeDeferred now i :
      Code ρ (Option (Byte × Mac × List (BitVec 16)))) := by
  refine .bind (.read _) fun cfg => .bind (.read _) fun p => .ite ?_ (.pure _)
  exact .bind (modifyPeer_ages i _) fun _ => .pure _

theorem tickFlushDeferredAcks_ages :
    aging.Across (tickFlushDeferredAcks now : Prog (Node ρ) Unit) := by
  refine .of_phases (.bind (.sec fun _ => .read _) fun cfg => .when (.forEach (fun i => ?_) _))
  refine .bind (.sec fun _ => takeDeferred_ages now i) fun r => ?_
  cases r with
  | none => exact .pure ()
  | some due => exact .bind .unlock fun _ => .bind (sendAck_ages _ _ _) fun _ => .lock

structure Ticked (b b' : Body ρ) : Prop where
  ages : Ages (core b) (core b')
  off : b.cfg.maxRetries = 0 → b'.bufs = b.bufs
  swept : b.cfg.maxRetries ≠ 0 → ∀ j buf, b'.bufs j = some buf → buf.state = .inflight →
    ¬ slotLife b ≤ tickTime b - buf.bornJiff ∨
      BornIn (jiffies b.plat) (jiffies b'.plat) buf

theorem sweep_step {now life : Jiffy} {m : Prog (Node ρ) Unit}
    (step : ∀ b, Yields (· = b) m fun _ b' => Ages (core b) (core b')) :
    Yields (Serviced now life b0 allBufs) m fun _ => Serviced now life b0 allBufs :=
  .each fun b serviced => (step b).conseq (fun _ eq => eq) fun _ _ more => serviced.age more

def watched (b : Body ρ) : Body ρ := { b with plat := Platform.halowTxVacancyWatchdog b.plat }

theorem watched_ages (b : Body ρ) : Ages (core b) (core (watched b)) :=
  (platform_still (fun r => ((), Platform.halowTxVacancyWatchdog r))
    Platform.halowTxVacancyWatchdog_le).ages 0 b

theorem sampleNow_ages : aging.Around (sampleNow : Code ρ Jiffy) :=
  .bind nowJ_still.ages fun _ => .bind .self fun _ => .bind (emit_ages _) fun _ => .pure _

theorem tickLocked_sweeps (seated : Seated b0.bufs) :
    Yields (fun b => Ages (core b0) (core b)) (do
      lock
      tickServiceBufs now
      tickFlushHeldBundles now
      tickFlushDeferredAcks now
      sec checkStalePeers
      unlock) fun _ => Serviced now (slotLife b0) b0 allBufs := by
  refine Yields.lock.bind fun _ => (tickServiceBufs_yields now seated).bind fun _ => ?_
  refine (sweep_step (tickFlushHeldBundles_ages now)).bind fun _ => ?_
  refine Yields.bind (sweep_step fun b s _ s' run eq => ?_) fun _ => ?_
  · exact eq ▸ tickFlushDeferredAcks_ages now s _ s' run
  have stale : Yields (Serviced now (slotLife b0) b0 allBufs) (sec checkStalePeers)
      fun _ => Serviced now (slotLife b0) b0 allBufs :=
    .sec fun t b serviced => serviced.age (checkStalePeers_still.ages t b)
  exact stale.bind fun _ => .unlock

theorem halowAckTick_ticked (seated : Seated b0.bufs) :
    Yields (· = b0) halowAckTick fun _ => Ticked b0 := by
  have start : Yields (· = b0)
      (sec (platform fun r => ((), Platform.halowTxVacancyWatchdog r)) : Prog (Node ρ) Unit)
      fun _ b => b = watched b0 := by
    refine .sec ?_
    rintro t b rfl
    rfl
  have look : Yields (· = watched b0) (sec (Sec.read (·.cfg)) : Prog (Node ρ) Config)
      fun cfg b => cfg = b0.cfg ∧ b = watched b0 := by
    refine .sec ?_
    rintro t b rfl
    exact ⟨rfl, rfl⟩
  refine start.bind fun _ => look.bind fun cfg => .when (fun on => ?_) fun off b => ?_
  · have sample : Yields (fun b => cfg = b0.cfg ∧ b = watched b0) (sec sampleNow)
        fun now b => cfg = b0.cfg ∧ now = tickTime b0 ∧ Ages (core b0) (core b) := by
      refine .sec ?_
      rintro t b ⟨same, rfl⟩
      exact ⟨same, rfl, (watched_ages b0).trans (sampleNow_ages t _)⟩
    refine sample.bind fun now => .each ?_
    rintro b1 ⟨rfl, rfl, sampled⟩
    have refresh : Yields (· = b1) (sec dfltMcsRefresh) fun _ b => Ages (core b0) (core b) := by
      refine .sec ?_
      rintro t b rfl
      exact sampled.trans (dfltMcsRefresh_still.ages t b)
    refine refresh.bind fun _ => (tickLocked_sweeps _ seated).conseq (fun _ h => h) ?_
    intro _ b serviced
    refine ⟨serviced.ages, fun off => absurd off on, fun _ j => ?_⟩
    exact serviced.swept j (List.mem_finRange j)
  · rintro ⟨rfl, rfl⟩
    exact ⟨watched_ages b0, fun _ => rfl, fun on => absurd on off⟩

def jiffyNow (b : Body ρ) : Jiffy := BitVec.ofNat 32 (jiffies b.plat)

-- The tick is over before a buffer that was young when it read the clock has got old.
def Brisk (b b' : Body ρ) : Prop :=
  jiffies b'.plat - jiffies b.plat < (slotLife b).toNat ∧
    ∀ j, ¬ Overdue (tickTime b) (slotLife b) (b.bufs j) →
      ¬ Overdue (jiffyNow b') (slotLife b) (b.bufs j)

instance (b b' : Body ρ) : Decidable (Brisk b b') := inferInstanceAs (Decidable (_ ∧ _))

theorem BornIn.young {n n' : Nat} {life : Jiffy} {buf : AckBuf} (born : BornIn n n' buf)
    (quick : n' - n < life.toNat) : ¬ life ≤ BitVec.ofNat 32 n' - buf.bornJiff := by
  obtain ⟨τ, lo, hi, eq⟩ := born
  have small := life.isLt
  have age : (BitVec.ofNat 32 n' - BitVec.ofNat 32 τ).toNat = n' - τ := by
    simp only [BitVec.toNat_sub, BitVec.toNat_ofNat]
    omega
  rw [eq, BitVec.le_def, age]
  omega

theorem Ticked.young (ticked : Ticked b b') (on : b.cfg.maxRetries ≠ 0) (brisk : Brisk b b')
    (j : BufIx) : ¬ Overdue (jiffyNow b') (slotLife b) (b'.bufs j) := by
  rintro ⟨buf, held, flying, old⟩
  have fresh (born : BornIn (jiffies b.plat) (jiffies b'.plat) buf) : False :=
    born.young brisk.1 old
  rcases ticked.swept on j buf held flying with young | born
  · rcases ticked.ages.slot j buf held with born | ⟨was, there, state, born⟩
    · exact fresh born
    · rw [born] at young old
      refine brisk.2 j (fun overdue => ?_) ⟨was, there, state ▸ flying, old⟩
      obtain ⟨_, same, _, reached⟩ := overdue
      cases there.symm.trans same
      exact young reached
  · exact fresh born

theorem slot_deadline_enforced_iff (c : Threads ρ) (h : Reachable c)
    (free : c.shared.owner = none) :
    Alone halowAckTick c.shared fun _ s' =>
      slotLife s'.body = slotLife c.body ∧
      (c.body.cfg.maxRetries ≠ 0 →
        (∀ j buf, s'.body.bufs j = some buf → buf.state = .inflight →
          ¬ slotLife s'.body ≤ tickTime c.body - buf.bornJiff ∨
          BornIn (jiffies c.body.plat) (jiffies s'.body.plat) buf) ∧
        (Brisk c.body s'.body →
          ∀ j, ¬ Overdue (jiffyNow s'.body) (slotLife s'.body) (s'.body.bufs j))) ∧
      (c.body.cfg.maxRetries = 0 →
        ((∀ j, ¬ Overdue (jiffyNow s'.body) (slotLife s'.body) (s'.body.bufs j)) ↔
          ∀ j, ¬ Overdue (jiffyNow s'.body) (slotLife c.body) (c.body.bufs j))) := by
  have seated : Seated c.body.bufs := h.inv.rep.idx_eq
  have ends := halowAckTick_free (n := c.shared.misuse) c.shared ⟨free, rfl⟩
  refine (ends.yields (halowAckTick_ticked seated) rfl).mono ?_
  rintro _ s' ⟨-, ticked⟩
  rw [slotLife_congr ticked.ages]
  exact ⟨rfl, fun on => ⟨ticked.swept on, ticked.young on⟩, fun off => by rw [ticked.off off]⟩

def longWait : List (Move Board) :=
  threePayloads ++ [.wait fun b => { b with jiffies := b.jiffies + 10000 }]

theorem slot_deadline_enforced_iff_longWait : ∃ c, playAll longWait quietNode = some c ∧
    (c.shared.owner = none ∧ c.body.cfg.maxRetries ≠ 0 ∧
      Overdue (jiffyNow c.body) (slotLife c.body) (c.body.bufs 0) ∧
      ∀ r ∈ halowAckTick.run c.shared, Brisk c.body r.2.body) ∧
    ∃ s', halowAckTick.run c.shared = some ((), s') ∧
      ∀ j, ¬ Overdue (jiffyNow s'.body) (slotLife s'.body) (s'.body.bufs j) := by
  refine played_then (by decide +kernel) fun c reach ⟨free, on, _, brisk⟩ => ?_
  obtain ⟨_, s', ran, -, enforced, -⟩ := slot_deadline_enforced_iff c reach free
  exact ⟨s', ran, (enforced on).2 (brisk _ ran)⟩

def longWaitRetriesOff : List (Move Board) :=
  threePayloads ++ .start 1 (.configApply { halowAckConfigSetDefault with maxRetries := 0 }) ::
    List.replicate 5 (.resume 1) ++ [.wait fun b => { b with jiffies := b.jiffies + 10000 }]

theorem ticks_keep_bufs {s : Node ρ} (free : s.owner = none) (seated : Seated s.body.bufs)
    (off : s.body.cfg.maxRetries = 0) (n : Nat) :
    Alone (forEach (List.replicate n ()) fun _ => halowAckTick) s fun _ s' =>
      s'.body.bufs = s.body.bufs := by
  have ends : Balanced (Locked.Free s.misuse)
      (forEach (List.replicate n ()) fun _ => (halowAckTick : Prog (Node ρ) Unit))
      (Locked.Free s.misuse) := .forEach (fun _ => halowAckTick_free) _
  have keeps : Yields (fun b : Body ρ => b.bufs = s.body.bufs ∧ b.cfg = s.body.cfg)
      (forEach (List.replicate n ()) fun _ => halowAckTick)
      fun _ b => b.bufs = s.body.bufs ∧ b.cfg = s.body.cfg := by
    refine Yields.forEach (J := fun _ (b : Body ρ) => b.bufs = s.body.bufs ∧ b.cfg = s.body.cfg)
      (fun _ _ => .each ?_) [] _
    rintro b1 ⟨bufs, cfg⟩
    refine (halowAckTick_ticked (by rwa [bufs])).conseq (fun _ eq => eq) fun _ b ticked => ?_
    exact ⟨(ticked.off (by rwa [cfg])).trans bufs, ticked.ages.cfg.trans cfg⟩
  exact ((ends s ⟨free, rfl⟩).yields keeps ⟨rfl, rfl⟩).mono fun _ _ h => h.2.1

theorem slot_deadline_missed_retriesOff : ∃ c, playAll longWaitRetriesOff quietNode = some c ∧
    (c.shared.owner = none ∧ c.body.cfg.maxRetries = 0 ∧ ∃ r ∈ halowAckTick.run c.shared,
      Overdue (jiffyNow r.2.body) (slotLife r.2.body) (r.2.body.bufs 0)) ∧
    Reachable c ∧
    ∀ n, Alone (forEach (List.replicate n ()) fun _ => halowAckTick) c.shared fun _ s'' =>
      s''.body.bufs = c.body.bufs :=
  played_then (by decide +kernel) fun _ reach ⟨free, off, _⟩ =>
    ⟨reach, ticks_keep_bufs free reach.inv.rep.idx_eq off⟩

end RnodeHalow.Ack
