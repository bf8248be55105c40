import RnodeHalow.Ack.Threads

set_option autoImplicit false

namespace RnodeHalow.Ack

open Resumption
open Function (update update_idem update_self)
open Platform (jiffies)

variable {ρ : Type} [Platform ρ] {α β : Type}

def Does (m : Code ρ α) (t : Nat) (c : Core) (post : α → Core → Prop) : Prop :=
  ∀ b, core b = c → post (m t b).1 (core (m t b).2)

section Rules

variable {t : Nat} {c : Core} {post post' : α → Core → Prop}

theorem Does.seq {m : Code ρ α} {f : α → Code ρ β} {last : β → Core → Prop}
    (first : Does m t c fun a c' => Does (f a) t c' last) : Does (m >>= f) t c last :=
  fun b eq => first b eq _ rfl

theorem Does.get {f : Body ρ → α} {k : α → Code ρ β} {last : β → Core → Prop}
    (g : Core → α) (same : ∀ b, f b = g (core b)) (rest : Does (k (g c)) t c last) :
    Does (Sec.read f >>= k) t c last := by
  rintro b rfl
  change last (k (f b) t b).1 (core (k (f b) t b).2)
  rw [same b]
  exact rest b rfl

theorem Does.mono {m : Code ρ α} (does : Does m t c post)
    (weaker : ∀ a c', post a c' → post' a c') : Does m t c post' :=
  fun b eq => weaker _ _ (does b eq)

theorem Does.pure (a : α) (h : post a c) : Does (Pure.pure a : Code ρ α) t c post := by
  rintro b rfl
  exact h

theorem Does.read {f : Body ρ → α} (h : ∀ b : Body ρ, core b = c → post (f b) c) :
    Does (Sec.read f) t c post := by
  rintro b rfl
  exact h b rfl

theorem Does.self {post : Nat → Core → Prop} (h : post t c) :
    Does (Sec.self : Code ρ Nat) t c post := by
  rintro b rfl
  exact h

theorem Does.still {m : Code ρ α} (still : StillSec m)
    (h : ∀ a c', Still c c' → post a c') : Does m t c post := by
  rintro b rfl
  exact h _ _ (still t b)

theorem Does.calm {m : Code ρ α} (calm : CalmSec m)
    (h : ∀ a c', Calms c c' → post a c') : Does m t c post := by
  rintro b rfl
  exact h _ _ (calm t b)

theorem Does.spec {m : Code ρ α} {P : Core → Prop} {Q : α → Core → Prop}
    (does : ∀ c, Inv c → P c → Does m t c fun a c' => Chain t c c' ∧ Q a c') :
    m.Spec ackDiscipline t (fun b => P (core b)) (fun a b => Q a (core b)) :=
  fun b inv h => does _ inv h b rfl

end Rules

section Primitives

variable {t : Nat} {c : Core} {post : Unit → Core → Prop}

theorem nowJ_does {post : Jiffy → Core → Prop}
    (h : ∀ n, c.clock ≤ n → post (BitVec.ofNat 32 n) { c with clock := n }) :
    Does (nowJ : Code ρ Jiffy) t c post := by
  rintro b rfl
  exact h _ (Platform.elapse_le b.plat)

theorem emit_does (e : Event) (h : post () (c.note e)) : Does (emit e : Code ρ Unit) t c post := by
  rintro b rfl
  exact h

theorem modifyStats_does {f : Stats → Stats} (g : Counts → Counts)
    (counts : ∀ st, (f st).counts = g st.counts) (h : post () { c with counts := g c.counts }) :
    Does (modifyStats f : Code ρ Unit) t c post := by
  rintro b rfl
  rw [modifyStats_core, counts]
  exact h

theorem modifyPeer_does {i : PeerIx} {f : AckPeer → AckPeer}
    (h : post () (c.setPeer i (f (c.peers i)))) :
    Does (modifyPeer i f : Code ρ Unit) t c post := by
  rintro b rfl
  exact h

theorem modifyBuf_does {j : BufIx} {f : AckBuf → AckBuf} {buf : AckBuf}
    (held : c.bufs j = some buf) (h : post () (c.setBuf j (f buf))) :
    Does (modifyBuf j f : Code ρ Unit) t c post := by
  rintro b rfl
  have eq : core (modifyBuf j f t b).2 = (core b).setBuf j (f buf) := by
    change { core b with bufs := update b.bufs j ((b.bufs j).map f) } = _
    rw [show b.bufs j = some buf from held]
    rfl
  rw [eq]
  exact h

theorem bufWrite_does {j : BufIx} {ofs : Nat} {bytes : List Byte} {buf : AckBuf}
    (held : c.bufs j = some buf) (fits : ofs + bytes.length ≤ buf.data.length)
    (h : post () (c.setBuf j { buf with data := writeAt buf.data ofs bytes })) :
    Does (bufWrite j ofs bytes : Code ρ Unit) t c post := by
  refine Does.get (fun c => c.bufs j) (fun _ => rfl) ?_
  simp only [held, if_neg (Nat.not_lt.mpr fits)]
  exact modifyBuf_does held h

theorem markSending_does {j : BufIx} {buf : AckBuf} (held : c.bufs j = some buf)
    (h : post () { c.setBuf j { buf with state := .sending } with
      inflightN := if buf.state = .staging then c.inflightN + 1 else c.inflightN
      sender := update c.sender j t }) :
    Does (markSending j : Code ρ Unit) t c post := by
  refine Does.get (fun c => c.bufs j) (fun _ => rfl) ?_
  rw [held]
  rintro b rfl
  exact h

theorem peerNoteTx_does {i : PeerIx} {n : Nat}
    (h : ∀ τ p, c.clock ≤ τ → SamePlace (c.peers i) p → p.rxWindow = (c.peers i).rxWindow →
      post () ({ c with clock := τ }.setPeer i p)) :
    Does (peerNoteTx i n : Code ρ Unit) t c post := by
  rintro b rfl
  exact h _ _ (Platform.timeS_le b.plat) rfl rfl

theorem bufRelease_does {j : BufIx} {buf : AckBuf} (held : c.bufs j = some buf)
    (idx : buf.idx = j)
    (h : ∀ n, c.clock ≤ n → post () { c.free j buf with clock := n }) :
    Does (bufRelease j : Code ρ Unit) t c post := by
  refine Does.get (fun c => c.bufs j) (fun _ => rfl) ?_
  rw [held]
  rintro b rfl
  have done := h _ (Platform.osFree_le b.plat)
  simpa only [Core.free, core, idx, Sec.bind_apply, Sec.modify_apply, platform] using done

theorem dfltMcsRefresh_does :
    Does (dfltMcsRefresh : Code ρ Unit) t c fun _ c' => ∃ n, c' = { c with clock := n } := by
  refine Does.seq (nowJ_does fun n _ => Does.seq (Does.read fun b same => ?_))
  split
  · exact Does.pure _ ⟨n, rfl⟩
  · rintro b' same'
    have later := congrArg (fun c : Core =>
      ({ c with clock := jiffies (Platform.halowConfigLoadMcs b'.plat).2 } : Core)) same'
    exact ⟨_, later⟩

theorem peerInitMcs_does :
    Does (peerInitMcs : Code ρ Byte) t c fun _ c' => ∃ n, c' = { c with clock := n } := by
  refine Does.get (fun c => c.cfg.rateAdapt) (fun _ => rfl) ?_
  split
  · exact Does.pure _ ⟨c.clock, rfl⟩
  · exact Does.seq (Does.mono dfltMcsRefresh_does fun _ _ waits => Does.read fun _ _ => waits)

end Primitives

def aggLaunch (i : PeerIx) : Code ρ FlushStart := do
  match ← aggSeal i with
  | .nothing => pure .nothing
  | .blocked => pure .blocked
  | .sealed j pmcs =>
    markSending j
    pure (.sealed j pmcs)

def Launched (t : Nat) (i : PeerIx) (c : Core) (j : BufIx) (c' : Core) : Prop :=
  ∃ buf p n₁ n₂ n₃, c.bufs j = some buf ∧ c.clock ≤ n₁ ∧ n₁ ≤ n₂ ∧ n₂ ≤ n₃ ∧
    SamePlace (c.peers i).nextSeq p ∧ p.rxWindow = (c.peers i).rxWindow ∧ c' = { c with
      bufs := update c.bufs j (some (sealBuf (c.peers i) buf (BitVec.ofNat 32 n₁)
        (BitVec.ofNat 32 n₂)))
      peers := update c.peers i p
      inflightN := c.inflightN + 1
      sender := update c.sender j t
      trace := (n₃, .flushed i (takeSeq (c.peers i).txSeq).1
          ((sealBuf (c.peers i) buf 0 0).data.take (c.peers i).aggLen)) ::
        (n₂, .born j) :: (n₁, .txStamped j) :: c.trace
      clock := n₃ }

variable {t : Nat} {c c' : Core} {i : PeerIx} {j : BufIx} {buf : AckBuf} {mac : Mac} {b : Body ρ}
    {payload : List Byte}

theorem sealNow_does (held : c.bufs j = some buf) (staging : buf.state = .staging)
    (room : ackAggReserve ≤ buf.data.length) :
    Does (aggSealNow i j : Code ρ FlushStart) t c fun r c' =>
      r = .sealed j (c.peers i).txMcs ∧
        Does (markSending j : Code ρ Unit) t c' fun _ c'' => Launched t i c j c'' := by
  refine Does.get (fun c => c.peers i) (fun _ => rfl) ?_
  refine Does.seq (modifyPeer_does ?_)
  refine Does.seq (nowJ_does fun n1 le1 => ?_)
  refine Does.seq (emit_does _ ?_)
  refine Does.seq (nowJ_does fun n2 le2 => ?_)
  refine Does.seq (emit_does _ ?_)
  refine Does.seq (modifyPeer_does ?_)
  refine Does.seq (bufWrite_does held room ?_)
  refine Does.seq (modifyBuf_does (update_self ..) ?_)
  refine Does.seq (peerNoteTx_does fun n3 p le3 same window => ?_)
  refine Does.seq (modifyStats_does id (fun _ => rfl) ?_)
  refine Does.get (fun c' => ((c'.bufs j).elim [] (·.data)).take (c.peers i).aggLen)
    (fun _ => rfl) ?_
  refine Does.seq (emit_does _ ?_)
  refine Does.pure _ ⟨rfl, markSending_does (update_self ..) ?_⟩
  refine ⟨buf, p, n1, n2, n3, held, le1, le2, le3, ?_, ?_, ?_⟩
  · simp only [Core.setPeer, Core.setBuf, Core.note, update_self] at same
    exact same
  · simp only [Core.setPeer, Core.setBuf, Core.note, update_self] at window
    exact window
  · simp [Core.setPeer, Core.setBuf, Core.note, staging, sealBuf, update_idem]

theorem Still.here (still : Still c c') (here : Here i mac c) : Here i mac c' :=
  ⟨(still.peers i).inUse.trans here.1, (still.peers i).mac.trans here.2⟩

theorem Still.inv (still : Still c c') (inv : Inv c) : Inv c' :=
  (still.calms.chain (t := 0)).inv inv

inductive Started (t : Nat) (i : PeerIx) (c : Core) : FlushStart → Core → Prop
  | nothing {c' : Core} : Still c c' → (c.peers i).aggIdx = none → Started t i c .nothing c'
  | blocked {c' : Core} : Still c c' → (c.peers i).aggIdx.isSome = true →
      Started t i c .blocked c'
  | sealed {c₁ c' : Core} (j : BufIx) (pmcs : Byte) : Still c c₁ → (c₁.peers i).aggIdx = some j →
      c₁.inflightN < c₁.effWindow → Launched t i c₁ j c' → Started t i c (.sealed j pmcs) c'

theorem aggLaunch_does (inv : Inv c) (inUse : (c.peers i).inUse = true) :
    Does (aggLaunch i : Code ρ FlushStart) t c (Started t i c) := by
  refine Does.seq (Does.get (fun c => (c.peers i).aggIdx) (fun _ => rfl) ?_)
  cases agg : (c.peers i).aggIdx with
  | none => exact Does.pure _ (Does.pure _ (.nothing (.refl c) agg))
  | some j =>
    have named : (c.peers i).aggIdx.isSome = true := by rw [agg]; rfl
    refine Does.seq (Does.still halowGetTxVacancy_still fun vacancy c1 still => ?_)
    by_cases low : vacancy < ackTxVacancyLow
    · rw [if_pos low]
      exact Does.pure _ (Does.pure _ (.blocked still named))
    · rw [if_neg low]
      refine Does.get (fun c => c.inflightN) (fun _ => rfl) ?_
      refine Does.get Core.effWindow (fun _ => rfl) ?_
      by_cases full : c1.inflightN ≥ c1.effWindow
      · rw [if_pos full]
        exact Does.pure _ (Does.pure _ (.blocked still named))
      · rw [if_neg full]
        have agg1 : (c1.peers i).aggIdx = some j := (still.peers i).aggIdx.trans agg
        have inUse1 : (c1.peers i).inUse = true := (still.peers i).inUse.trans inUse
        have inv1 := still.inv inv
        obtain ⟨buf, held, staging, _⟩ := (inv1.rep.agg_iff i inUse1 j).mp agg1
        have ok := inv1.layout.staged i j buf inUse1 agg1 held
        have room : ackAggReserve ≤ buf.data.length := by
          have reserve := ok.reserve
          have inside := ok.inside
          have size := (inv1.layout.block j buf held).size
          omega
        refine Does.mono (sealNow_does held staging room) ?_
        rintro _ c2 ⟨rfl, mark⟩
        refine Does.seq (Does.mono mark fun _ c3 launched => ?_)
        exact Does.pure _ (.sealed j _ still agg1 (Nat.lt_of_not_le full) launched)

theorem Launched.micro (inUse : (c.peers i).inUse = true) (agg : (c.peers i).aggIdx = some j)
    (window : c.inflightN < c.effWindow) (launched : Launched t i c j c') : Micro t c c' := by
  obtain ⟨buf, p, n1, n2, n3, held, le1, le2, le3, same, window', rfl⟩ := launched
  exact .launch i j buf p n1 n2 n3 inUse agg held window le1 le2 le3 same window'

theorem Started.chain {r : FlushStart} (started : Started t i c r c')
    (inUse : (c.peers i).inUse = true) : Chain t c c' := by
  cases started with
  | nothing still => exact still.calms.chain
  | blocked still => exact still.calms.chain
  | sealed j pmcs still agg window launched =>
    exact still.calms.chain.tail
      (launched.micro ((still.peers i).inUse.trans inUse) agg window)

def Deaf (Q : History → Prop) : Prop :=
  ∀ older trace, Neutrally older trace → Q older → Q trace

theorem Launched.trace (launched : Launched t i c j c') : Neutrally c.trace c'.trace := by
  obtain ⟨buf, p, n1, n2, n3, held, le1, le2, le3, same, window', rfl⟩ := launched
  exact .cons trivial (.cons trivial (.cons trivial (.refl _)))

theorem Launched.atHome (launched : Launched t i c j c') (inv : Inv c) (here : Here i mac c)
    (agg : (c.peers i).aggIdx = some j) : ∃ buf, AtHome t i mac j buf c' := by
  obtain ⟨buf, p, n1, n2, n3, held, le1, le2, le3, same, window', rfl⟩ := launched
  have dest := (inv.rep.named here.1 agg held).2
  refine ⟨_, ⟨update_self .., rfl, update_self ..⟩, dest.trans here.2, ?_, ?_⟩
  · simpa only [update_self] using same.inUse.trans here.1
  · simpa only [update_self] using same.mac.trans here.2

omit [Platform ρ] in
theorem freeSlot_some (found : freeSlot b = some j) : b.bufs j = none := by
  have hit := List.find?_some found
  simpa using hit

def Core.alloc (c : Core) (state : BufState) (mac : Mac) (cap : Nat) (j : BufIx)
    (blk : HeapBlock) (n : Nat) : Core :=
  { c with
    bufs := update c.bufs j
      (some (freshBuf blk state j mac cap (BitVec.ofNat 32 n)))
    usedN := c.usedN + 1
    heapBytes := c.heapBytes + bufAllocSz cap
    inflightN := if state = .inflight then c.inflightN + 1 else c.inflightN
    trace := (n, .born j) :: c.trace
    clock := n }

theorem bufAlloc_does {state : BufState} {cap : Nat} {post : Option BufIx → Core → Prop}
    (fails : ∀ c', Still c c' → post none c')
    (takes : ∀ j blk n, c.bufs j = none → c.clock ≤ n →
      post (some j) (c.alloc state mac cap j blk n)) :
    Does (bufAlloc state mac cap : Code ρ (Option BufIx)) t c post := by
  refine Does.seq (Does.read fun b eq => ?_)
  subst eq
  cases found : freeSlot b with
  | none => exact Does.pure _ (fails _ (.refl _))
  | some j =>
    have empty := freeSlot_some found
    refine Does.seq ?_
    rintro b' same
    have later := Platform.osMalloc_le (bufAllocSz cap) b'.plat
    have clock : jiffies b'.plat = (core b).clock := by rw [← same]; rfl
    cases blk : (Platform.osMalloc (bufAllocSz cap) b'.plat).1 with
    | none =>
      simp only [platform, blk]
      have waits : Still (core b) { core b' with
          clock := jiffies (Platform.osMalloc (bufAllocSz cap) b'.plat).2 } := by
        rw [← same]
        exact ⟨.single (.elapse _ later), rfl, fun _ => rfl, rfl, rfl, .refl _⟩
      exact Does.seq (modifyStats_does id (fun _ => rfl) (Does.pure _ (fails _ waits)))
    | some block =>
      simp only [platform, blk]
      refine Does.seq (nowJ_does fun n le => ?_)
      rintro b'' same''
      have reached : (core b).clock ≤ n := by
        rw [← clock]
        exact Nat.le_trans later le
      have done := takes j block n empty reached
      have tables : core b'' = { core b with clock := n } := by
        rw [same'', ← same]
        rfl
      have moved : core ((do
          Sec.modify fun b : Body ρ => { b with
            bufs := update b.bufs j
              (some (freshBuf block state j mac cap (BitVec.ofNat 32 n)))
            usedN := b.usedN + 1
            heapBytes := b.heapBytes + bufAllocSz cap
            inflightN := if state = .inflight then b.inflightN + 1 else b.inflightN }
          emit (.born j)
          pure (some j) : Code ρ (Option BufIx)) t b'').2 =
          ({ core b with clock := n }).alloc state mac cap j block n := by
        rw [← tables]
        have now : jiffies b''.plat = n := congrArg Core.clock tables
        simp only [Core.alloc, core, Sec.bind_apply, Sec.modify_apply, emit, Sec.pure_apply, now]
      change post (some j) _
      rw [moved]
      exact done

def Room (i : PeerIx) (len : Nat) (c : Core) : Prop :=
  ∀ j buf, (c.peers i).aggIdx = some j → c.bufs j = some buf →
    (c.peers i).aggLen + 2 + len ≤ buf.cap ∧ (c.peers i).aggNsub + 1 ≤ aggMaxSub

theorem room_of_not_full {len effPayload : Nat} (fits : stagedFullFor b i len effPayload = false) :
    Room i len (core b) := by
  intro j buf agg held
  have agg' : (b.peers i).aggIdx = some j := agg
  have held' : b.bufs j = some buf := held
  simp only [stagedFullFor, agg', held', bundleFullFor, Bool.or_eq_false_iff,
    decide_eq_false_iff_not, Nat.not_lt] at fits
  exact ⟨fits.1.2, fits.2⟩

theorem stagingAllocCap_le (effPayload : Nat) :
    ackAggReserve ≤ stagingAllocCap effPayload ∧ stagingAllocCap effPayload ≤ ackWireMax := by
  unfold stagingAllocCap
  dsimp only
  have reserve : ackAggReserve ≤ ackWireMax := by decide
  split <;> omega

inductive Opened (i : PeerIx) (len : Nat) (c : Core) : Bool → Core → Prop
  | refused {c' : Core} : Still c c' → Opened i len c false c'
  | staged (j : BufIx) : (c.peers i).aggIdx = some j → Opened i len c true c
  | fresh (j : BufIx) (blk : HeapBlock) (cap n₁ n₂ : Nat) : (c.peers i).aggIdx = none →
      c.bufs j = none → ackAggReserve + 2 + len ≤ cap → cap ≤ ackWireMax → c.clock ≤ n₁ →
      n₁ ≤ n₂ → Opened i len c true (c.stageAt i j blk cap n₁ n₂)

theorem stageOpen_does {len effPayload : Nat} (here : Here i mac c)
    (small : ackAggReserve + 2 + len ≤ ackWireMax) :
    Does (stageOpen i len mac effPayload : Code ρ Bool) t c (Opened i len c) := by
  refine Does.get (fun c => (c.peers i).aggIdx) (fun _ => rfl) ?_
  cases agg : (c.peers i).aggIdx with
  | some j => exact Does.pure _ (.staged j agg)
  | none =>
    have bounds := stagingAllocCap_le effPayload
    have wire : ackWireMax < 2 ^ 16 := by decide
    have need : (ackAggReserve + 2 + len) % 2 ^ 16 = ackAggReserve + 2 + len :=
      Nat.mod_eq_of_lt (by omega)
    simp only [need]
    refine Does.seq (bufAlloc_does (fun c' still => Does.pure _ (.refused still)) ?_)
    intro j blk n1 empty le1
    refine Does.seq (nowJ_does fun n2 le2 => ?_)
    refine Does.seq (modifyPeer_does ?_)
    refine Does.seq (emit_does _ (Does.pure _ ?_))
    have cap : ackAggReserve + 2 + len ≤
          (if ackAggReserve + 2 + len > stagingAllocCap effPayload
            then ackAggReserve + 2 + len else stagingAllocCap effPayload) ∧
        (if ackAggReserve + 2 + len > stagingAllocCap effPayload
          then ackAggReserve + 2 + len else stagingAllocCap effPayload) ≤ ackWireMax := by
      split <;> omega
    have opened : Opened i len c true (c.stageAt i j blk _ n1 n2) :=
      .fresh j blk _ n1 n2 agg empty cap.1 cap.2 le1 le2
    rw [Core.stageAt, here.2] at opened
    exact opened

theorem stageAppend_does {effPayload : Nat} (agg : (c.peers i).aggIdx = some j)
    (held : c.bufs j = some buf) (block : BlockOk buf)
    (room : (c.peers i).aggLen + 2 + payload.length ≤ buf.cap)
    (subs : (c.peers i).aggNsub + 1 ≤ aggMaxSub) :
    Does (stageAppend i payload effPayload : Code ρ Bool) t c fun _ c' =>
      c' = c.appendAt t i j buf payload := by
  have size := block.size
  have small := block.cap_le
  have wire : ackWireMax < 2 ^ 16 := by decide
  have most : aggMaxSub < 2 ^ 8 := by decide
  refine Does.get (fun c => c.peers i) (fun _ => rfl) ?_
  simp only [agg]
  have first (lo hi : Byte) :
      (writeAt buf.data (c.peers i).aggLen [lo, hi]).length = buf.data.length := by
    apply writeAt_length
    simp only [List.length_cons, List.length_nil]
    omega
  refine Does.seq (bufWrite_does held (by simp only [List.length_cons, List.length_nil]; omega) ?_)
  refine Does.seq (bufWrite_does (update_self ..) (by rw [first]; omega) ?_)
  refine Does.seq (modifyPeer_does ?_)
  refine Does.seq (Does.self ?_)
  refine Does.seq (emit_does _ ?_)
  refine Does.read fun _ _ => ?_
  have len : ((c.peers i).aggLen + 2 + payload.length) % 2 ^ 16 =
      (c.peers i).aggLen + 2 + payload.length := Nat.mod_eq_of_lt (by omega)
  have nsub : ((c.peers i).aggNsub + 1) % 2 ^ 8 = (c.peers i).aggNsub + 1 :=
    Nat.mod_eq_of_lt (by omega)
  simp only [Core.appendAt, Core.setBuf, Core.setPeer, Core.note, update_idem, len, nsub]
  rfl

theorem appendedBy_cons_self {t τ : Nat} {trace : History} :
    appendedBy t i ((τ, .appended t i payload) :: trace) = payload :: appendedBy t i trace ∧
      bundledBy t i ((τ, .appended t i payload) :: trace) = bundledBy t i trace := by
  simp [appendedBy, bundledBy, collect, Event.opens, pickAppended, pickBundled]

theorem appended_owed {t τ : Nat} {trace : History} (settled : Settled t trace) :
    Owed t i payload ((τ, .appended t i payload) :: trace) := by
  refine ⟨fun k ne => ?_, ?_⟩
  · have same := settled k
    simp only [appendedBy, bundledBy] at same
    simp [appendedBy, bundledBy, collect, Event.opens, pickAppended, pickBundled, Ne.symm ne, same]
  · rw [appendedBy_cons_self.1, appendedBy_cons_self.2, settled i]

theorem bundled_settled {t τ : Nat} {trace : History} (owed : Owed t i payload trace) :
    Settled t ((τ, .bundled t i payload) :: trace) := by
  intro k
  by_cases same : k = i
  · subst same
    have own := owed.2
    simp only [appendedBy, bundledBy] at own
    simp [appendedBy, bundledBy, collect, Event.opens, pickAppended, pickBundled, own]
  · have other := owed.1 k same
    simp only [appendedBy, bundledBy] at other
    simp [appendedBy, bundledBy, collect, Event.opens, pickAppended, pickBundled, Ne.symm same,
      other]

def stageIn (i : PeerIx) (payload : List Byte) (dest : Mac) (effPayload : Nat) :
    Code ρ (Option Bool) := do
  let staged ← stageOpen i payload.length dest effPayload
  if staged then
    let full ← stageAppend i payload effPayload
    pure (some full)
  else pure none

theorem appendAt_here (here : Here i mac c) : Here i mac (c.appendAt t i j buf payload) := by
  simpa [Here, Core.appendAt, Core.setPeer, Core.setBuf, Core.note, AckPeer.aggGrow] using here

inductive StagedIn (t : Nat) (i : PeerIx) (payload : List Byte) (c : Core) :
    Option Bool → Core → Prop
  | refused {c' : Core} : Still c c' → StagedIn t i payload c none c'
  | appended (j : BufIx) (buf : AckBuf) (full : Bool) : (c.peers i).aggIdx = some j →
      c.bufs j = some buf → (c.peers i).aggLen + 2 + payload.length ≤ buf.cap →
      (c.peers i).aggNsub + 1 ≤ aggMaxSub →
      StagedIn t i payload c (some full) (c.appendAt t i j buf payload)
  | fresh (j : BufIx) (blk : HeapBlock) (cap n₁ n₂ : Nat) (full : Bool) :
      (c.peers i).aggIdx = none → c.bufs j = none → ackAggReserve + 2 + payload.length ≤ cap →
      cap ≤ ackWireMax → c.clock ≤ n₁ → n₁ ≤ n₂ →
      StagedIn t i payload c (some full) ((c.stageAt i j blk cap n₁ n₂).appendAt t i j
        (freshBuf blk .staging j (c.peers i).mac cap (BitVec.ofNat 32 n₁)) payload)

theorem stageIn_does {effPayload : Nat} (inv : Inv c) (here : Here i mac c)
    (small : ackAggReserve + 2 + payload.length ≤ ackWireMax) (room : Room i payload.length c) :
    Does (stageIn i payload mac effPayload : Code ρ (Option Bool)) t c
      (StagedIn t i payload c) := by
  refine Does.seq (Does.mono (stageOpen_does here small) fun opened c1 how => ?_)
  cases how with
  | refused still => exact Does.pure _ (.refused still)
  | staged j agg =>
    obtain ⟨buf, held, staging, _⟩ := (inv.rep.agg_iff i here.1 j).mp agg
    have fits := room j buf agg held
    have block := inv.layout.block j buf held
    rw [if_pos rfl]
    refine Does.seq (Does.mono (stageAppend_does agg held block fits.1 fits.2) ?_)
    rintro full _ rfl
    exact Does.pure _ (.appended j buf full agg held fits.1 fits.2)
  | fresh j blk cap n1 n2 idle empty fits bound le1 le2 =>
    have named : ((c.stageAt i j blk cap n1 n2).peers i) =
        (c.peers i).aggOpen j (BitVec.ofNat 32 n2) := update_self ..
    rw [if_pos rfl]
    refine Does.seq (Does.mono (stageAppend_does (j := j) (by rw [named]; rfl)
      (update_self ..) (freshBuf_block _ _ _ _ _ bound) (by rw [named]; exact fits)
      (by rw [named]; exact (by decide : 0 + 1 ≤ aggMaxSub))) ?_)
    rintro full _ rfl
    exact Does.pure _ (.fresh j blk cap n1 n2 full idle empty fits bound le1 le2)

section StagedIn

variable {t : Nat} {c c' : Core} {i : PeerIx} {payload : List Byte} {r : Option Bool}

theorem StagedIn.chain (staged : StagedIn t i payload c r c') (inUse : (c.peers i).inUse = true)
    (some : payload ≠ []) : Chain t c c' := by
  cases staged with
  | refused still => exact still.calms.chain
  | appended j buf full agg held room subs =>
    exact .single (.append i j buf payload inUse agg held room subs some)
  | fresh j blk cap n1 n2 full idle empty fits bound le1 le2 =>
    exact .single (.stage i j blk cap n1 n2 payload inUse idle empty fits bound le1 le2 some)

theorem StagedIn.here {mac : Mac} (staged : StagedIn t i payload c r c') (here : Here i mac c) :
    Here i mac c' := by
  cases staged with
  | refused still => exact still.here here
  | appended j buf full agg held room subs => exact appendAt_here here
  | fresh j blk cap n1 n2 full idle empty fits bound le1 le2 =>
    refine appendAt_here ?_
    simpa [Here, Core.stageAt, AckPeer.aggOpen] using here

theorem StagedIn.owed (staged : StagedIn t i payload c r c') (settled : Settled t c.trace)
    (accepted : r.isSome = true) : Owed t i payload c'.trace := by
  cases staged with
  | refused still => cases accepted
  | appended j buf full agg held room subs => exact appended_owed settled
  | fresh j blk cap n1 n2 full idle empty fits bound le1 le2 =>
    have born : Settled t ((n1, .born j) :: c.trace) := settled.cons fun _ => ⟨rfl, rfl⟩
    exact appended_owed (born.cons fun _ => ⟨rfl, rfl⟩)

end StagedIn

def plainLaunch (i : PeerIx) (payload : List Byte) (dest : Mac) :
    Code ρ (Option BufIx) := do
  match ← plainClaim i payload dest with
  | none => pure none
  | some j =>
    markSending j
    pure (some j)

theorem writeAt_whole (d bytes : List Byte) (same : d.length = bytes.length) :
    writeAt d 0 bytes = bytes := by
  simp [writeAt, ← same]

inductive PlainStart (t : Nat) (i : PeerIx) (mac : Mac) (payload : List Byte) (c : Core) :
    Option BufIx → Core → Prop
  | refused {c' : Core} : Still c c' → PlainStart t i mac payload c none c'
  | claimed {c' : Core} (j : BufIx) (blk : HeapBlock) (tx born : Jiffy) : c.bufs j = none →
      Chain t c c' → Neutrally c.trace c'.trace →
      AtHome t i mac j (plainBuf blk j mac payload tx born) c' →
      PlainStart t i mac payload c (some j) c'

theorem plainLaunch_does (here : Here i mac c) (small : payload.length ≤ ackWireMax) :
    Does (plainLaunch i payload mac : Code ρ (Option BufIx)) t c
      (PlainStart t i mac payload c) := by
  refine Does.seq (Does.seq (Does.still halowGetTxVacancy_still fun vacancy c1 still => ?_))
  have here1 := still.here here
  have nothing (c' : Core) (more : Still c1 c') : PlainStart t i mac payload c none c' :=
    .refused (still.trans more)
  by_cases low : vacancy < ackTxVacancyLow
  · rw [if_pos low]
    exact Does.pure _ (Does.pure _ (nothing c1 (.refl c1)))
  rw [if_neg low]
  refine Does.seq (Does.get (fun c => c.inflightN) (fun _ => rfl)
    (Does.get Core.effWindow (fun _ => rfl) ?_))
  by_cases full : c1.inflightN ≥ c1.effWindow
  · rw [if_pos full]
    exact Does.pure _ (Does.pure _ (Does.pure _ (nothing c1 (.refl c1))))
  rw [if_neg full]
  refine bufAlloc_does (fun c' more => Does.pure _ (Does.pure _ (nothing c' more))) ?_
  intro j blk n1 empty le1
  have whole : writeAt (freshBuf blk .inflight j mac payload.length (BitVec.ofNat 32 n1)).data 0
      payload = payload := writeAt_whole _ _ (by simp [freshBuf])
  refine Does.seq (nowJ_does fun n2 le2 => Does.seq (emit_does _ ?_))
  refine Does.seq (bufWrite_does (update_self ..) (by simp [freshBuf]) ?_)
  refine Does.seq (modifyBuf_does (update_self ..) ?_)
  refine Does.seq (peerNoteTx_does fun n3 p le3 same window => ?_)
  refine Does.pure _ (Does.seq (markSending_does (update_self ..) ?_))
  have step := Micro.plain (t := t) (c := c1) i j blk payload n1 n2 here1.1 empty
    (Nat.lt_of_not_le full) small le1 le2
  rw [here1.2] at step
  have chain := (still.calms.chain.tail step).tail
    (.calm (.elapse n3 le3)) |>.tail (.calm (.peer i p same window))
  simp only [Core.alloc, Core.setBuf, Core.setPeer, Core.note, update_idem, whole]
    at same chain ⊢
  have empty0 : c.bufs j = none := (congrFun still.bufs j).symm.trans empty
  refine Does.pure _ (.claimed j blk (BitVec.ofNat 32 n2) (BitVec.ofNat 32 n1) empty0 chain ?_ ?_)
  · exact still.trace.trans (.cons trivial (.cons trivial (.refl _)))
  · refine ⟨⟨update_self .., rfl, update_self ..⟩, rfl, ?_⟩
    simpa [Here] using (show p.inUse = true ∧ p.mac = mac from
      ⟨same.inUse.trans here1.1, same.mac.trans here1.2⟩)

theorem PlainStart.chain {r : Option BufIx} (start : PlainStart t i mac payload c r c') :
    Chain t c c' ∧ Neutrally c.trace c'.trace := by
  cases start with
  | refused still => exact ⟨still.calms.chain, still.trace⟩
  | claimed j blk tx born empty chain news home => exact ⟨chain, news⟩

theorem sendOut_does {pmcs : Byte} (held : c.bufs j = some buf) :
    Does (sendOut j pmcs : Code ρ Unit) t c fun _ c' => Still (c.note (.sent j)) c' := by
  refine Does.get (fun c => c.bufs j) (fun _ => rfl) ?_
  rw [held]
  refine Does.seq (emit_does _ ?_)
  refine Does.seq (Does.still (halowTx_still _ _ _) fun _ c1 one => ?_)
  refine Does.seq (Does.still nowJ_still fun _ c2 two => ?_)
  rintro b rfl
  exact one.trans two

theorem sendDone_does (flight : Flight t j buf c) :
    Does (sendDone j : Code ρ Unit) t c fun _ c' =>
      Chain t c c' ∧ c'.peers = c.peers ∧ c'.trace = c.trace := by
  refine Does.get (fun c => c.bufs j) (fun _ => rfl) ?_
  rw [flight.1]
  simp only [Sec.when, if_pos flight.2.1]
  refine modifyBuf_does flight.1 ⟨.single ?_, rfl, rfl⟩
  exact .sentOff j buf flight.1 flight.2.1 flight.2.2

theorem find_finRange_none {p : PeerIx → Bool} (none : allPeers.find? p = none) (i : PeerIx) :
    p i = false := by
  have miss := List.find?_eq_none.mp none i (List.mem_finRange i)
  simpa using miss

omit [Platform ρ] in
theorem peerFind_some (found : peerFind b mac = some i) :
    (b.peers i).inUse = true ∧ (b.peers i).mac = mac := by
  have hit := List.find?_some found
  simp only [Bool.and_eq_true, macEq_iff] at hit
  exact hit

omit [Platform ρ] in
theorem peerFind_none (missing : peerFind b mac = none) (k : PeerIx)
    (inUse : (b.peers k).inUse = true) : (b.peers k).mac ≠ mac := by
  have miss := find_finRange_none missing k
  simp only [inUse, Bool.true_and] at miss
  intro same
  rw [same, (macEq_iff mac mac).mpr rfl] at miss
  cases miss

omit [Platform ρ] in
theorem bufForPeer_none (missing : bufForPeer b mac = none) (j : BufIx) (buf : AckBuf)
    (held : b.bufs j = some buf) : buf.destMac ≠ mac := by
  have miss := find_finRange_none missing j
  intro same
  simp [held, same, (macEq_iff mac mac).mpr rfl] at miss

omit [Platform ρ] in
theorem peerEvictScan_some {l : List PeerIx} {victim : Option PeerIx} {oldest : Jiffy}
    (picked : peerEvictScan b l victim oldest = some i)
    (good : ∀ k, victim = some k → (b.peers k).inUse = true → bufForPeer b (b.peers k).mac = none) :
    (b.peers i).inUse = true → bufForPeer b (b.peers i).mac = none := by
  induction l generalizing victim oldest with
  | nil => exact good i picked
  | cons k rest ih =>
    simp only [peerEvictScan] at picked
    split at picked
    · rename_i unused
      cases picked
      intro inUse
      rw [inUse] at unused
      cases unused
    · split at picked
      · exact ih picked good
      · rename_i bare
        split at picked
        · refine ih picked ?_
          rintro _ ⟨⟩ _
          simpa using bare
        · exact ih picked good

theorem peerCreate_does {initMcs : Byte}
    (new : ∀ k, (c.peers k).inUse = true → (c.peers k).mac ≠ mac) :
    Does (peerCreate mac initMcs : Code ρ (Option PeerIx)) t c fun r c' =>
      Calms c c' ∧ ∀ i, r = some i → Here i mac c' := by
  refine Does.seq (Does.read fun b eq => ?_)
  subst eq
  cases picked : peerEvictPick b with
  | none => exact Does.pure _ ⟨.refl, by simp⟩
  | some i =>
    have bare := peerEvictScan_some picked (by simp)
    refine Does.seq (nowJ_does fun n1 le1 => Does.seq (nowJ_does fun n2 le2 => ?_))
    rintro b' same
    have first : Calms (core b) { core b with clock := n2 } :=
      .single (.elapse n2 (Nat.le_trans le1 le2))
    have fresh : FreshPeer { AckPeer.zero with
        inUse := true
        mac := mac
        curRetries := b'.cfg.maxRetries
        txMcs := initMcs
        createdJiff := BitVec.ofNat 32 n1
        lastSeen := BitVec.ofNat 32 n2 } mac := ⟨rfl, rfl, rfl, rfl, rfl⟩
    have step := Calm.opened (c := core b') i _ mac fresh (by rw [same]; exact new) (by
      rw [same]
      exact fun inUse => bufForPeer_none (bare inUse))
    refine ⟨(same ▸ first).tail step, ?_⟩
    rintro _ ⟨⟩
    simp [Here, core, emit]

theorem Calms.trans {a b c : Core} (first : Calms a b) (second : Calms b c) : Calms a c :=
  Relation.ReflTransGen.trans first second

theorem forget_does {stale : Prop} [Decidable stale] {f : AckPeer → AckPeer} (here : Here i mac c)
    (place : ∀ p, (f p).place = p.place) (window : ∀ p, (f p).rxWindow = p.rxWindow.forget) :
    Does (Sec.when stale do
      modifyPeer i f
      emit (.forgot i mac) : Code ρ Unit) t c fun _ c' => Calms c c' ∧ Here i mac c' := by
  by_cases old : stale
  · simp only [Sec.when, if_pos old]
    refine Does.seq (modifyPeer_does (emit_does _ ⟨.single ?_, here.setPeer (place _)⟩))
    exact .forget i _ mac here.1 here.2 (place _) (window _)
  · simp only [Sec.when, if_neg old]
    exact Does.pure _ ⟨.refl, here⟩

theorem peerGet_does :
    Does (peerGet mac : Code ρ (Option PeerIx)) t c fun r c' =>
      Calms c c' ∧ ∀ i, r = some i → Here i mac c' := by
  refine Does.seq (Does.read fun b eq => ?_)
  subst eq
  refine Does.seq (Does.still peerInitMcs_still fun initMcs c1 still => ?_)
  cases found : peerFind b mac with
  | none =>
    have new (k : PeerIx) (inUse : (c1.peers k).inUse = true) : (c1.peers k).mac ≠ mac := by
      rw [(still.peers k).mac]
      exact peerFind_none found k ((still.peers k).inUse.symm.trans inUse)
    refine Does.mono (peerCreate_does new) ?_
    rintro r c' ⟨calms, here⟩
    exact ⟨still.calms.trans calms, here⟩
  | some i =>
    have here : Here i mac (core b) := peerFind_some found
    refine Does.seq (Does.still (peerRateStale_still i) fun stale c2 two => ?_)
    refine Does.seq (Does.read fun judged eq => ?_)
    subst eq
    have here2 := (still.trans two).here here
    refine Does.seq (Does.mono (forget_does here2 (fun _ => rfl) fun _ => rfl) ?_)
    rintro _ c3 ⟨three, here3⟩
    refine Does.seq (Does.still nowJ_still fun now c4 four => ?_)
    refine Does.seq (Does.still (modifyPeer_still i fun _ => rfl) fun _ c5 five => ?_)
    refine Does.seq (Does.still (fun _ b => .refl (core b)) fun _ c6 six => ?_)
    have last := (four.trans five).trans six
    refine Does.pure _ ⟨((still.trans two).calms.trans three).trans last.calms, ?_⟩
    rintro _ ⟨⟩
    exact last.here here3

theorem peerGet_calm (mac : Mac) : CalmSec (peerGet mac : Code ρ (Option PeerIx)) :=
  fun _ b => (peerGet_does b rfl).1

end RnodeHalow.Ack
