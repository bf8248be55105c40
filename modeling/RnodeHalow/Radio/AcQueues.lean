import RnodeHalow.Wire

set_option autoImplicit false

namespace RnodeHalow.Radio

open Function (update update_idem update_of_ne update_self)

-- `S` stands for the `struct sk_buff *` that are not NULL.
variable {S : Type}

abbrev Ac := Fin 4

structure Aggr (S : Type) where
  skbList : Fin 64 → Option S
  totalLenBytes : BitVec 32
  symbolLen : BitVec 32
  firstSeq : BitVec 16
  lastSeq : BitVec 16
  selectedCount : Byte
  queuedCount : Byte
  rateCfg : Byte
  txFlags : Byte
  txvec : BitVec 128

namespace Aggr

def frames (a : Aggr S) : List S := (List.finRange 64).filterMap a.skbList

structure Empty (a : Aggr S) : Prop where
  skbList : ∀ i, a.skbList i = none
  totalLenBytes : a.totalLenBytes = 0#32
  symbolLen : a.symbolLen = 0#32
  firstSeq : a.firstSeq = -1#16
  lastSeq : a.lastSeq = -1#16
  selectedCount : a.selectedCount = 0#8
  queuedCount : a.queuedCount = 0#8

theorem Empty.frames {a : Aggr S} (empty : a.Empty) : a.frames = [] := by
  rw [Aggr.frames, List.filterMap_eq_nil_iff]
  exact fun i _ => empty.skbList i

end Aggr

structure TxCtx (S : Type) where
  queues : Ac → List S
  aggr : Ac → Aggr S

namespace TxCtx

def setQueue (ac : Ac) (q : List S) (c : TxCtx S) : TxCtx S :=
  { c with queues := update c.queues ac q }

def setAggr (ac : Ac) (a : Aggr S) (c : TxCtx S) : TxCtx S :=
  { c with aggr := update c.aggr ac a }

def held (c : TxCtx S) (ac : Ac) : List S := (c.aggr ac).frames ++ c.queues ac

@[simp] theorem setQueue_aggr (ac : Ac) (q : List S) (c : TxCtx S) :
    (c.setQueue ac q).aggr = c.aggr := rfl

@[simp] theorem setAggr_queues (ac : Ac) (a : Aggr S) (c : TxCtx S) :
    (c.setAggr ac a).queues = c.queues := rfl

@[simp] theorem setQueue_same (ac : Ac) (q : List S) (c : TxCtx S) :
    (c.setQueue ac q).queues ac = q := update_self ..

@[simp] theorem setAggr_same (ac : Ac) (a : Aggr S) (c : TxCtx S) :
    (c.setAggr ac a).aggr ac = a := update_self ..

theorem setQueue_other {ac other : Ac} (ne : other ≠ ac) (q : List S) (c : TxCtx S) :
    (c.setQueue ac q).queues other = c.queues other := update_of_ne ne ..

theorem setAggr_other {ac other : Ac} (ne : other ≠ ac) (a : Aggr S) (c : TxCtx S) :
    (c.setAggr ac a).aggr other = c.aggr other := update_of_ne ne ..

end TxCtx

def rescueSlot (r : List S × (Fin 64 → Option S)) (i : Fin 64) : List S × (Fin 64 → Option S) :=
  match r.2 i with
  | none => r
  -- `skb_list_queue_head`
  | some skb => (skb :: r.1, update r.2 i none)

def rescueAcAggregate (c : TxCtx S) (ac : Ac) : TxCtx S :=
  let a := c.aggr ac
  let r := (List.finRange 64).reverse.foldl rescueSlot (c.queues ac, a.skbList)
  (c.setQueue ac r.1).setAggr ac
    { a with
      skbList := r.2
      totalLenBytes := 0#32
      symbolLen := 0#32
      firstSeq := -1#16
      lastSeq := -1#16
      selectedCount := 0#8
      queuedCount := 0#8
      txFlags := a.txFlags &&& ~~~0x04#8 }

structure Regs where
  deferAcPd : Bool
  acPd : BitVec 32
  irqEn : BitVec 32
  irqPd : BitVec 32
  boCnt0 : BitVec 32
  ccaStat : BitVec 32
  boFrameType : BitVec 32
  boTxSubstate : BitVec 32
  -- `pPv0_txvec != NULL`
  pv0Txvec : Bool
  txPendingNavDur : BitVec 32
  txCcaSlotCount : BitVec 32

structure Lhw where
  abortFsm : Regs → Regs
  enableIrqAc : Regs → Regs
  updateRxBuffAddr : Regs → Regs
  startRx : Regs → Regs

def kickAcPdIfQueued (c : TxCtx S) (r : Regs) : Regs :=
  if (List.finRange 4).any fun ac => !(c.queues ac).isEmpty then { r with acPd := 0xF#32 } else r

def halowRuntimeReconfigBarrier (hw : Lhw) (ops : Bool) (s : Regs × TxCtx S) : Regs × TxCtx S :=
  if !ops then s
  else
    let halted := hw.abortFsm { s.1 with
      deferAcPd := true, acPd := 0#32, irqEn := 0#32, irqPd := BitVec.allOnes 32 }
    let c := (List.finRange 4).foldl rescueAcAggregate s.2
    let r := hw.startRx (hw.updateRxBuffAddr { halted with
      boFrameType := 0#32, boTxSubstate := 0#32, pv0Txvec := false, txPendingNavDur := 0#32
      txCcaSlotCount := 0#32, boCnt0 := 0#32, ccaStat := 0x0ff0#32 })
    (kickAcPdIfQueued c { r with
      irqEn := s.1.irqEn, irqPd := BitVec.allOnes 32, deferAcPd := false }, c)

theorem rescueSlot_loop (l : List (Fin 64)) (distinct : l.Nodup) (q : List S)
    (entries : Fin 64 → Option S) :
    l.reverse.foldl rescueSlot (q, entries) =
      (l.filterMap entries ++ q, fun i => if i ∈ l then none else entries i) := by
  induction l with
  | nil => simp
  | cons i rest ih =>
    obtain ⟨fresh, distinct⟩ := List.nodup_cons.mp distinct
    rw [List.reverse_cons, List.foldl_append, ih distinct]
    simp only [List.foldl_cons, List.foldl_nil, rescueSlot, if_neg fresh]
    cases entry : entries i with
    | none =>
      rw [List.filterMap_cons_none entry]
      refine Prod.ext rfl (funext fun k => ?_)
      by_cases same : k = i
      · simp [same, entry]
      · simp [same]
    | some skb =>
      rw [List.filterMap_cons_some entry]
      refine Prod.ext rfl (funext fun k => ?_)
      by_cases same : k = i
      · simp [same]
      · simp [same]

theorem rescueSlot_all (q : List S) (a : Aggr S) :
    (List.finRange 64).reverse.foldl rescueSlot (q, a.skbList) = (a.frames ++ q, fun _ => none) := by
  rw [rescueSlot_loop _ (List.nodup_finRange 64)]
  simp [Aggr.frames]

theorem rescueAcAggregate_same (c : TxCtx S) (ac : Ac) :
    (rescueAcAggregate c ac).queues ac = c.held ac ∧ ((rescueAcAggregate c ac).aggr ac).Empty := by
  simp only [rescueAcAggregate, rescueSlot_all, TxCtx.setAggr_queues, TxCtx.setQueue_same,
    TxCtx.setAggr_same]
  exact ⟨rfl, fun _ => rfl, rfl, rfl, rfl, rfl, rfl, rfl⟩

theorem rescueAcAggregate_other {ac other : Ac} (ne : other ≠ ac) (c : TxCtx S) :
    (rescueAcAggregate c ac).queues other = c.queues other ∧
      (rescueAcAggregate c ac).aggr other = c.aggr other :=
  ⟨TxCtx.setQueue_other ne _ c, TxCtx.setAggr_other ne _ _⟩

theorem rescue_loop (acs : List Ac) (distinct : acs.Nodup) (c : TxCtx S) (ac : Ac) :
    let c' := acs.foldl rescueAcAggregate c
    if ac ∈ acs then c'.queues ac = c.held ac ∧ (c'.aggr ac).Empty
    else c'.queues ac = c.queues ac ∧ c'.aggr ac = c.aggr ac := by
  induction acs generalizing c with
  | nil => simp
  | cons first rest ih =>
    obtain ⟨fresh, distinct⟩ := List.nodup_cons.mp distinct
    have later := ih distinct (rescueAcAggregate c first)
    simp only [List.foldl_cons]
    by_cases same : ac = first
    · subst same
      have rescued := rescueAcAggregate_same c ac
      rw [if_neg fresh] at later
      rw [if_pos List.mem_cons_self, later.1, later.2]
      exact rescued
    · have kept := rescueAcAggregate_other same c
      simpa [same, TxCtx.held, kept.1, kept.2] using later

-- The frames of an aggregate go back in front of the queue, in their order; nothing else moves.
theorem reconfig_keeps_order (hw : Lhw) (r : Regs) (c : TxCtx S) (ac : Ac) :
    let c' := (halowRuntimeReconfigBarrier hw true (r, c)).2
    c'.queues ac = (c.aggr ac).frames ++ c.queues ac ∧ (c'.aggr ac).Empty ∧
      c'.held ac = c.held ac := by
  have rescued := rescue_loop (List.finRange 4) (List.nodup_finRange 4) c ac
  rw [if_pos (List.mem_finRange ac)] at rescued
  obtain ⟨queue, empty⟩ := rescued
  refine ⟨queue, empty, ?_⟩
  change (((List.finRange 4).foldl rescueAcAggregate c).aggr ac).frames ++ _ = _
  rw [empty.frames]
  exact queue

inductive PurgeAct (S : Type) where
  -- Interrupts are on again after a part of an aggregate was taken out; this much is left of it.
  | window (left : Aggr S)
  -- `halow_tx_skb_complete`
  | complete (skb : S)

structure Purge (S : Type) where
  regs : Regs
  ctx : TxCtx S
  log : List (PurgeAct S)

namespace Purge

def completeAll (batch : List S) (p : Purge S) : Purge S :=
  { p with log := (batch.map PurgeAct.complete).reverse ++ p.log }

def completed (p : Purge S) : List S :=
  p.log.reverse.filterMap fun
    | .complete skb => some skb
    | .window _ => none

def abortArmedTx (hw : Lhw) (p : Purge S) : Purge S :=
  if p.regs.boFrameType = 0#32 then p
  else
    { p with regs := hw.enableIrqAc { hw.abortFsm p.regs with
        boCnt0 := 0#32, boFrameType := 0#32, boTxSubstate := 0#32 } }

def dequeueBatch : Nat → List S → List S × List S
  | 0, q => ([], q)
  | _, [] => ([], [])
  | n + 1, skb :: q => (skb :: (dequeueBatch n q).1, (dequeueBatch n q).2)

-- The loops of the purge have no bound of their own; `none` says that one has not ended.
def purgeQueue (ac : Ac) : Nat → Purge S → Option (Purge S)
  | 0, _ => none
  | fuel + 1, p =>
    let r := dequeueBatch 8 (p.ctx.queues ac)
    let p := { p with ctx := p.ctx.setQueue ac r.2 }
    if r.1.isEmpty then some p else purgeQueue ac fuel (p.completeAll r.1)

def takeEntries : List (Fin 64) → Nat → (Fin 64 → Option S) → List S × (Fin 64 → Option S)
  | [], _, entries => ([], entries)
  | _, 0, entries => ([], entries)
  | i :: rest, n + 1, entries =>
    match entries i with
    | none => takeEntries rest (n + 1) entries
    | some skb =>
      let r := takeEntries rest n (update entries i none)
      (skb :: r.1, r.2)

-- The abort inside a window; unlike `lhw_abort_armed_tx` it leaves BO_CNT0 alone.
def windowRegs (hw : Lhw) (r : Regs) : Regs :=
  if r.boFrameType = 0#32 then r
  else hw.enableIrqAc { hw.abortFsm r with boFrameType := 0#32, boTxSubstate := 0#32 }

def purgeAggr (hw : Lhw) (ac : Ac) : Nat → Purge S → Option (Purge S)
  | 0, _ => none
  | fuel + 1, p =>
    let a := p.ctx.aggr ac
    let r := takeEntries (List.finRange 64) 8 a.skbList
    let more := (List.finRange 64).any fun j => (r.2 j).isSome
    let left : Aggr S :=
      if more then { a with skbList := r.2 } else ⟨r.2, 0#32, 0#32, -1#16, -1#16, 0#8, 0#8, 0#8, 0#8, 0⟩
    let p := { p with regs := windowRegs hw p.regs, ctx := p.ctx.setAggr ac left }
    let p := { p with log := .window left :: p.log }.completeAll r.1
    if more then purgeAggr hw ac fuel p else some p

def lmacTxPurgeAcQueues (hw : Lhw) (fuel : Nat) (p : Purge S) : Option (Purge S) := do
  let p ← (List.finRange 4).foldlM (fun p ac => purgeQueue ac fuel p) (p.abortArmedTx hw)
  (List.finRange 4).foldlM (fun p ac => purgeAggr hw ac fuel p) p

def windows (p : Purge S) : List (Aggr S) :=
  p.log.filterMap fun
    | .complete _ => none
    | .window left => some left

@[simp] theorem completeAll_ctx (batch : List S) (p : Purge S) :
    (p.completeAll batch).ctx = p.ctx := rfl

@[simp] theorem completeAll_completed (batch : List S) (p : Purge S) :
    (p.completeAll batch).completed = p.completed ++ batch := by
  simp [completeAll, completed]

@[simp] theorem completeAll_windows (batch : List S) (p : Purge S) :
    (p.completeAll batch).windows = p.windows := by
  simp [completeAll, windows]

theorem dequeueBatch_eq (n : Nat) (q : List S) : dequeueBatch n q = (q.take n, q.drop n) := by
  induction n generalizing q with
  | zero => rfl
  | succ n ih =>
    cases q with
    | nil => rfl
    | cons skb q => simp [dequeueBatch, ih]

structure Done (p p' : Purge S) (frames : List S) (queues : Ac → List S) (aggr : Ac → Aggr S) :
    Prop where
  completed : p'.completed = p.completed ++ frames
  queues : p'.ctx.queues = queues
  aggr : p'.ctx.aggr = aggr

theorem purgeQueue_done (ac : Ac) (fuel : Nat) (p : Purge S)
    (enough : (p.ctx.queues ac).length < fuel) :
    ∃ p', purgeQueue ac fuel p = some p' ∧ p'.windows = p.windows ∧
      Done p p' (p.ctx.queues ac) (update p.ctx.queues ac []) p.ctx.aggr := by
  induction fuel generalizing p with
  | zero => exact absurd enough (Nat.not_lt_zero _)
  | succ fuel ih =>
    rw [purgeQueue, dequeueBatch_eq]
    cases queue : p.ctx.queues ac with
    | nil => exact ⟨_, rfl, rfl, by simp [completed], rfl, rfl⟩
    | cons skb rest =>
      rw [queue] at enough
      have step := ih ({ p with ctx := p.ctx.setQueue ac ((skb :: rest).drop 8) }.completeAll
        ((skb :: rest).take 8)) (by simp at enough ⊢; omega)
      obtain ⟨p', ran, windows, done⟩ := step
      refine ⟨p', ran, windows.trans (completeAll_windows _ _), ?_, ?_, done.aggr⟩
      · have completed := done.completed
        rw [completeAll_completed, completeAll_ctx, TxCtx.setQueue_same] at completed
        rw [completed, List.append_assoc, List.take_append_drop]
        rfl
      · rw [done.queues]
        exact update_idem ..

theorem takeEntries_split (l : List (Fin 64)) (n : Nat) (entries : Fin 64 → Option S)
    (distinct : l.Nodup) :
    let r := takeEntries l n entries
    l.filterMap entries = r.1 ++ l.filterMap r.2 ∧ (l.filterMap r.2 = [] ∨ r.1.length = n) ∧
      ∀ i, i ∉ l → r.2 i = entries i := by
  fun_induction takeEntries l n entries with
  | case1 => simp
  | case2 => simp
  | case3 i rest n entries none ih =>
    obtain ⟨fresh, distinct⟩ := List.nodup_cons.mp distinct
    obtain ⟨split, full, others⟩ := ih distinct
    have same := (others i fresh).trans none
    simp only [List.filterMap_cons_none none, List.filterMap_cons_none same]
    exact ⟨split, full, fun k away => others k fun mem => away (List.mem_cons_of_mem i mem)⟩
  | case4 i rest n entries skb some r ih =>
    obtain ⟨fresh, distinct⟩ := List.nodup_cons.mp distinct
    have taken := ih distinct
    change _ = r.1 ++ rest.filterMap r.2 ∧ (rest.filterMap r.2 = [] ∨ r.1.length = n) ∧ _ at taken
    obtain ⟨split, full, others⟩ := taken
    have same : r.2 i = none := (others i fresh).trans (update_self ..)
    have kept : rest.filterMap (update entries i none) = rest.filterMap entries := by
      refine List.filterMap_congr fun k mem => update_of_ne ?_ ..
      rintro rfl
      exact fresh mem
    rw [kept] at split
    simp only [List.filterMap_cons_some some, List.filterMap_cons_none same]
    refine ⟨by rw [split]; rfl, full.imp_right fun len => by rw [List.length_cons, len], ?_⟩
    intro k away
    rw [List.mem_cons, not_or] at away
    rw [others k away.2, update_of_ne away.1]

def Counted (a : Aggr S) : Prop := a.frames = [] → a.queuedCount = 0#8 ∧ a.selectedCount = 0#8

theorem more_iff (entries : Fin 64 → Option S) :
    ((List.finRange 64).any fun j => (entries j).isSome) = false ↔
      (List.finRange 64).filterMap entries = [] := by
  simp [List.filterMap_eq_nil_iff]

theorem purgeAggr_done (hw : Lhw) (ac : Ac) (fuel : Nat) (p : Purge S)
    (enough : (p.ctx.aggr ac).frames.length < fuel) :
    ∃ p' left, purgeAggr hw ac fuel p = some p' ∧ left.Empty ∧
      ((∀ a ∈ p.windows, Counted a) → ∀ a ∈ p'.windows, Counted a) ∧
      Done p p' (p.ctx.aggr ac).frames p.ctx.queues (update p.ctx.aggr ac left) := by
  induction fuel generalizing p with
  | zero => exact absurd enough (Nat.not_lt_zero _)
  | succ fuel ih =>
    obtain ⟨split, full, -⟩ := takeEntries_split (List.finRange 64) 8 (p.ctx.aggr ac).skbList
      (List.nodup_finRange 64)
    rw [purgeAggr]
    generalize takeEntries (List.finRange 64) 8 (p.ctx.aggr ac).skbList = r at split full ⊢
    cases more : (List.finRange 64).any fun j => (r.2 j).isSome with
    | false =>
      have last := (more_iff r.2).mp more
      have none (i : Fin 64) : r.2 i = Option.none :=
        List.filterMap_eq_nil_iff.mp last i (List.mem_finRange i)
      refine ⟨_, _, rfl, ⟨none, rfl, rfl, rfl, rfl, rfl, rfl⟩, ?_, ?_, rfl, rfl⟩
      · intro counted a mem
        rw [completeAll_windows] at mem
        rcases List.mem_cons.mp mem with rfl | mem
        · exact fun _ => ⟨rfl, rfl⟩
        · exact counted a mem
      · rw [last, List.append_nil] at split
        rw [completeAll_completed, Aggr.frames, split]
        simp [completed]
    | true =>
      have some : (List.finRange 64).filterMap r.2 ≠ [] := fun nil => by
        rw [(more_iff r.2).mpr nil] at more
        cases more
      have eight := full.resolve_left some
      let left : Aggr S := { p.ctx.aggr ac with skbList := r.2 }
      have fewer : left.frames.length < fuel := by
        have lengths := congrArg List.length split
        rw [List.length_append, eight] at lengths
        have before : (p.ctx.aggr ac).frames.length = 8 + left.frames.length := lengths
        omega
      have step := ih (Purge.completeAll r.1
        ⟨windowRegs hw p.regs, p.ctx.setAggr ac left, .window left :: p.log⟩)
        (by rw [completeAll_ctx, TxCtx.setAggr_same]; exact fewer)
      obtain ⟨p', last, ran, empty, windows, done⟩ := step
      refine ⟨p', last, ran, empty, ?_, ?_, done.queues, ?_⟩
      · intro counted
        refine windows fun a mem => ?_
        rw [completeAll_windows] at mem
        rcases List.mem_cons.mp mem with rfl | mem
        · exact fun nil => absurd nil some
        · exact counted a mem
      · have completed := done.completed
        rw [completeAll_completed, completeAll_ctx, TxCtx.setAggr_same] at completed
        rw [completed, List.append_assoc]
        have frames : (p.ctx.aggr ac).frames = r.1 ++ left.frames := split
        rw [frames]
        simp [Purge.completed]
      · rw [done.aggr]
        exact update_idem ..

section EachAc

variable {f : Ac → Purge S → Option (Purge S)} {g : TxCtx S → Ac → List S}
  {C : TxCtx S → Ac → Prop} {I : Purge S → Prop}

theorem eachAc_done
    (one : ∀ ac p, I p → ∃ p', f ac p = some p' ∧ I p' ∧
      p'.completed = p.completed ++ g p.ctx ac ∧ C p'.ctx ac ∧
      ∀ other, other ≠ ac → g p'.ctx other = g p.ctx other ∧
        (C p.ctx other → C p'.ctx other))
    (acs : List Ac) (distinct : acs.Nodup) (p : Purge S) (start : I p) :
    ∃ p', acs.foldlM (fun p ac => f ac p) p = some p' ∧ I p' ∧
      p'.completed = p.completed ++ acs.flatMap (g p.ctx) ∧
      ∀ ac, ac ∈ acs ∨ C p.ctx ac → C p'.ctx ac := by
  induction acs generalizing p with
  | nil => exact ⟨p, rfl, start, by simp, by simp⟩
  | cons ac rest ih =>
    obtain ⟨fresh, distinct⟩ := List.nodup_cons.mp distinct
    obtain ⟨p1, ran1, inv1, completed1, clear1, others⟩ := one ac p start
    obtain ⟨p', ran, inv, completed, clears⟩ := ih distinct p1 inv1
    have same : rest.flatMap (g p1.ctx) = rest.flatMap (g p.ctx) := by
      refine List.flatMap_congr fun other mem => (others other ?_).1
      rintro rfl
      exact fresh mem
    refine ⟨p', by rw [List.foldlM_cons, ran1]; exact ran, inv, ?_, fun other done => ?_⟩
    · rw [completed, completed1, same, List.append_assoc]
      rfl
    · by_cases eq : other = ac
      · exact clears other (.inr (eq ▸ clear1))
      · rcases done with mem | done
        · exact clears other (.inl (List.mem_of_ne_of_mem eq mem))
        · exact clears other (.inr ((others other eq).2 done))

end EachAc

end Purge

def TxCtx.stuck (c : TxCtx S) : List S :=
  (List.finRange 4).flatMap c.queues ++ (List.finRange 4).flatMap fun ac => (c.aggr ac).frames

namespace Purge

theorem queues_done (fuel : Nat) (p : Purge S) (enough : ∀ ac, (p.ctx.queues ac).length < fuel) :
    ∃ p', (List.finRange 4).foldlM (fun p ac => purgeQueue ac fuel p) p = some p' ∧
      p'.ctx.aggr = p.ctx.aggr ∧ p'.windows = p.windows ∧
      p'.completed = p.completed ++ (List.finRange 4).flatMap p.ctx.queues ∧
      ∀ ac, p'.ctx.queues ac = [] := by
  have loop := eachAc_done (f := fun ac => purgeQueue ac fuel) (g := TxCtx.queues)
    (C := fun c ac => c.queues ac = [])
    (I := fun q => (∀ ac, (q.ctx.queues ac).length < fuel) ∧ q.ctx.aggr = p.ctx.aggr ∧
      q.windows = p.windows) ?_ (List.finRange 4) (List.nodup_finRange 4) p ⟨enough, rfl, rfl⟩
  · obtain ⟨p', ran, ⟨-, aggr, windows⟩, completed, clears⟩ := loop
    exact ⟨p', ran, aggr, windows, completed, fun ac => clears ac (.inl (List.mem_finRange ac))⟩
  · rintro ac q ⟨enough, aggr, windows⟩
    obtain ⟨q', ran, same, done⟩ := purgeQueue_done ac fuel q (enough ac)
    refine ⟨q', ran, ⟨fun other => ?_, done.aggr.trans aggr, same.trans windows⟩, done.completed,
      by rw [done.queues, update_self], fun other ne => ?_⟩
    · rw [done.queues]
      by_cases eq : other = ac
      · rw [eq, update_self]
        exact Nat.zero_lt_of_lt (enough ac)
      · rw [update_of_ne eq]
        exact enough other
    · rw [done.queues, update_of_ne ne]
      exact ⟨rfl, id⟩

theorem aggrs_done (hw : Lhw) (fuel : Nat) (p : Purge S)
    (enough : ∀ ac, (p.ctx.aggr ac).frames.length < fuel) (none : p.windows = []) :
    ∃ p', (List.finRange 4).foldlM (fun p ac => purgeAggr hw ac fuel p) p = some p' ∧
      p'.ctx.queues = p.ctx.queues ∧ (∀ a ∈ p'.windows, Counted a) ∧
      p'.completed = p.completed ++ (List.finRange 4).flatMap (fun ac => (p.ctx.aggr ac).frames) ∧
      ∀ ac, (p'.ctx.aggr ac).Empty := by
  have loop := eachAc_done (f := fun ac => purgeAggr hw ac fuel)
    (g := fun c ac => (c.aggr ac).frames) (C := fun c ac => (c.aggr ac).Empty)
    (I := fun q => (∀ ac, (q.ctx.aggr ac).frames.length < fuel) ∧ q.ctx.queues = p.ctx.queues ∧
      ∀ a ∈ q.windows, Counted a) ?_ (List.finRange 4) (List.nodup_finRange 4) p
    ⟨enough, rfl, by simp [none]⟩
  · obtain ⟨p', ran, ⟨-, queues, counted⟩, completed, clears⟩ := loop
    exact ⟨p', ran, queues, counted, completed, fun ac => clears ac (.inl (List.mem_finRange ac))⟩
  · rintro ac q ⟨enough, queues, counted⟩
    obtain ⟨q', left, ran, empty, windows, done⟩ := purgeAggr_done hw ac fuel q (enough ac)
    refine ⟨q', ran, ⟨fun other => ?_, done.queues.trans queues, windows counted⟩, done.completed,
      by rw [done.aggr, update_self]; exact empty, fun other ne => ?_⟩
    · rw [done.aggr]
      by_cases eq : other = ac
      · rw [eq, update_self, empty.frames]
        exact Nat.zero_lt_of_lt (enough ac)
      · rw [update_of_ne eq]
        exact enough other
    · rw [done.aggr, update_of_ne ne]
      exact ⟨rfl, id⟩

theorem abortArmedTx_kept (hw : Lhw) (p : Purge S) :
    (p.abortArmedTx hw).ctx = p.ctx ∧ (p.abortArmedTx hw).log = p.log := by
  unfold abortArmedTx
  split
  · exact ⟨rfl, rfl⟩
  · exact ⟨rfl, rfl⟩

-- The purge ends, completes every frame as often as it is there, and leaves nothing behind.
theorem purge_completes_once (hw : Lhw) (r : Regs) (c : TxCtx S) :
    ∃ p', lmacTxPurgeAcQueues hw (c.stuck.length + 1) ⟨r, c, []⟩ = some p' ∧
      p'.completed = c.stuck ∧
      (∀ ac, p'.ctx.queues ac = [] ∧ (p'.ctx.aggr ac).Empty) ∧
      ∀ a ∈ p'.windows, a.frames = [] → a.queuedCount = 0#8 ∧ a.selectedCount = 0#8 := by
  obtain ⟨ctx, log⟩ := abortArmedTx_kept hw ⟨r, c, []⟩
  have bound {f : Ac → List S} (ac : Ac) : (f ac).length ≤ ((List.finRange 4).flatMap f).length :=
    (List.sublist_flatten_of_mem (List.mem_map_of_mem (List.mem_finRange ac))).length_le
  obtain ⟨p₁, ran₁, aggr₁, windows₁, completed₁, queues₁⟩ :=
    queues_done (c.stuck.length + 1) (Purge.abortArmedTx hw ⟨r, c, []⟩) fun ac => by
      rw [ctx, TxCtx.stuck, List.length_append]
      exact Nat.lt_succ_of_le ((bound ac).trans (Nat.le_add_right ..))
  obtain ⟨p', ran, queues, counted, completed, empty⟩ :=
    aggrs_done hw (c.stuck.length + 1) p₁
      (fun ac => by
        rw [aggr₁, ctx, TxCtx.stuck, List.length_append]
        exact Nat.lt_succ_of_le
          ((bound (f := fun ac => (c.aggr ac).frames) ac).trans (Nat.le_add_left ..)))
      (by rw [windows₁, windows, log]; rfl)
  refine ⟨p', ?_, ?_, fun ac => ⟨?_, empty ac⟩, counted⟩
  · rw [lmacTxPurgeAcQueues, ran₁]
    exact ran
  · rw [completed, completed₁, aggr₁, Purge.completed, log, ctx]
    rfl
  · rw [queues, queues₁]

end Purge

end RnodeHalow.Radio
