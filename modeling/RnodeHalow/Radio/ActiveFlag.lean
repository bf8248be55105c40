import RnodeHalow.Radio.Airtime
import RnodeHalow.Radio.BudgetRuns

set_option autoImplicit false

namespace RnodeHalow.Radio

namespace TxBudget

def full (len : Nat) (b : TxBudget) : Bool := decide ((b.vacatedBytes + len) % 2 ^ 32 ≥ txBufferSize)

end TxBudget

namespace Lbt

def txActive (l : Lbt) : Bool := l.ctx.any fun c => c.airtimeTxActive

end Lbt

structure LbtAnswer where
  lock : Int
  nowUs : Int
  activityUs : Int
  deriving DecidableEq, Repr

inductive FramePhase where
  | accepted (len : Nat)
  -- `halow_tx_skb_complete` found the budget full, `halow_lbt_set_tx_as_deactive` is next
  | vacated
  -- `os_sema_up` is next
  | counted
  | freed
  deriving DecidableEq, Repr

inductive SendCall where
  | allocated (len : Nat)
  | waiting (len left : Nat)
  | woken (len left : Nat)
  | granted (len : Nat)
  | rejected (len : Nat)
  -- the refund found the budget full, `halow_lbt_set_tx_as_deactive` is next
  | refunded
  | dropped
  -- accepted by the LMAC; `halow_lbt_set_tx_as_active` is next unless it is `done`
  | handed (done : Bool) (frame : FramePhase)
  deriving DecidableEq, Repr

namespace SendCall

def skbLen (len : Nat) : Nat := ieee80211HdrLen + len

def send (mayBlock : Bool) (answer : Answer) (a : LbtAnswer) (b : TxBudget) (l : Lbt) :
    SendCall → SendCall × TxBudget × Lbt
  | .allocated len =>
    let r := b.txBudgetTake (skbLen len)
    if r.1 then (.granted len, r.2, l)
    else if mayBlock then (.waiting len txBlockIters, r.2, l)
    else (.dropped, r.2, l)
  | .waiting _ 0 => (.dropped, b, l)
  | .waiting len (left + 1) =>
    if answer.semaDown = 0 then (.woken len left, b, l) else (.waiting len left, b, l)
  | .woken len left =>
    let r := b.txBudgetTake (skbLen len)
    if r.1 then (.granted len, r.2, l) else (.waiting len left, r.2, l)
  | .granted len =>
    if answer.lmacTx = 0 then (.handed false (.accepted len), b, l) else (.rejected len, b, l)
  | .rejected len =>
    (if b.full (skbLen len) then .refunded else .dropped, b.vacate (skbLen len), l)
  | .refunded => (.dropped, b, l.halowLbtSetTxAsDeactive a.lock a.nowUs)
  | .dropped => (.dropped, b, l)
  | .handed false frame =>
    (.handed true frame, b, l.halowLbtSetTxAsActive a.lock a.nowUs a.activityUs)
  | .handed true frame => (.handed true frame, b, l)

def complete (a : LbtAnswer) (b : TxBudget) (l : Lbt) : SendCall → SendCall × TxBudget × Lbt
  | .handed done (.accepted len) =>
    (.handed done (if b.full (skbLen len) then .vacated else .counted), b.vacate (skbLen len), l)
  | .handed done .vacated => (.handed done .counted, b, l.halowLbtSetTxAsDeactive a.lock a.nowUs)
  | .handed done .counted => (.handed done .freed, b.perform .signal, l)
  | c => (c, b, l)

def isUnmarked : SendCall → Bool
  | .handed false _ => true
  | _ => false

def isOver : SendCall → Bool
  | .dropped => true
  | .handed true .freed => true
  | _ => false

end SendCall

structure FlagState where
  budget : TxBudget
  lbt : Lbt
  calls : List SendCall
  mayBlock : Bool

inductive FlagAct where
  | call (len : Nat)
  | send (i : Nat) (answer : Answer) (a : LbtAnswer)
  | complete (i : Nat) (a : LbtAnswer)
  | cycle (currentTimeMs nowUs : Int) (doneMs doneMsLater : BitVec 32)
  | mayBlockSet (ok : Bool)

namespace FlagState

def boot (l : Lbt) : FlagState := ⟨⟨txBufferSize, 0⟩, l, [], false⟩

def put (s : FlagState) (i : Nat) (r : SendCall × TxBudget × Lbt) : FlagState :=
  { s with calls := s.calls.set i r.1, budget := r.2.1, lbt := r.2.2 }

def step (s : FlagState) : FlagAct → FlagState
  | .call len => { s with calls := s.calls ++ [.allocated len] }
  | .send i answer a =>
    match s.calls[i]? with
    | none => s
    | some c => s.put i (c.send s.mayBlock answer a s.budget s.lbt)
  | .complete i a =>
    match s.calls[i]? with
    | none => s
    | some c => s.put i (c.complete a s.budget s.lbt)
  | .cycle currentTimeMs nowUs doneMs doneMsLater =>
    { s with lbt := s.lbt.closeCycle currentTimeMs nowUs doneMs doneMsLater }
  | .mayBlockSet ok => { s with mayBlock := ok }

def run (l : Lbt) (acts : List FlagAct) : FlagState := acts.foldl step (boot l)

def Quiet (s : FlagState) : Prop := ∀ c ∈ s.calls, c.isOver = true

end FlagState

def FramePhase.phase : FramePhase → SendPhase
  | .accepted len => .accepted (SendCall.skbLen len)
  | .vacated => .completed
  | .counted => .completed
  | .freed => .finished

namespace SendCall

def phase : SendCall → SendPhase
  | .allocated len => .allocated (skbLen len)
  | .waiting len left => .waiting (skbLen len) left
  | .woken len left => .woken (skbLen len) left
  | .granted len => .granted (skbLen len)
  | .rejected len => .rejected (skbLen len)
  | .refunded => .finished
  | .dropped => .finished
  | .handed _ frame => frame.phase

def Refines (mayBlock : Bool) (b : TxBudget) (c : SendCall) (r : SendCall × TxBudget × Lbt) : Prop :=
  (∃ answer, (r.1.phase, r.2.1) = c.phase.advance mayBlock answer b) ∨
    (r.1.phase = c.phase ∧ r.2.1 = b)

theorem send_refines (mayBlock : Bool) (answer : Answer) (a : LbtAnswer) (b : TxBudget) (l : Lbt)
    (c : SendCall) : c.Refines mayBlock b (c.send mayBlock answer a b l) := by
  cases c with
  | handed done frame => cases done <;> exact .inr ⟨rfl, rfl⟩
  | refunded => exact .inr ⟨rfl, rfl⟩
  | dropped => exact .inr ⟨rfl, rfl⟩
  | rejected len =>
    refine .inl ⟨answer, ?_⟩
    cases filled : b.full (skbLen len) <;>
      simp [send, filled, phase, SendPhase.advance]
  | granted len =>
    refine .inl ⟨answer, ?_⟩
    by_cases taken : answer.lmacTx = 0 <;>
      simp [send, taken, phase, FramePhase.phase, SendPhase.advance]
  | woken len left =>
    refine .inl ⟨answer, ?_⟩
    cases room : (b.txBudgetTake (skbLen len)).1 <;>
      simp [send, room, phase, SendPhase.advance]
  | waiting len left =>
    refine .inl ⟨answer, ?_⟩
    cases left with
    | zero => rfl
    | succ left =>
      by_cases woken : answer.semaDown = 0 <;>
        simp [send, woken, phase, SendPhase.advance]
  | allocated len =>
    refine .inl ⟨answer, ?_⟩
    cases room : (b.txBudgetTake (skbLen len)).1 <;> cases mayBlock <;>
      simp [send, room, phase, SendPhase.advance]

theorem complete_refines (mayBlock : Bool) (a : LbtAnswer) (b : TxBudget) (l : Lbt)
    (c : SendCall) : c.Refines mayBlock b (c.complete a b l) := by
  cases c with
  | handed done frame =>
    cases frame with
    | accepted len =>
      refine .inl ⟨⟨0, 0⟩, ?_⟩
      cases filled : b.full (skbLen len) <;>
        simp [complete, filled, phase, FramePhase.phase, SendPhase.advance]
    | vacated => exact .inr ⟨rfl, rfl⟩
    | counted => exact .inl ⟨⟨0, 0⟩, rfl⟩
    | freed => exact .inr ⟨rfl, rfl⟩
  | _ => exact .inr ⟨rfl, rfl⟩

end SendCall

namespace FlagState

def sends (s : FlagState) : TxState :=
  { TxState.boot with
    budget := s.budget
    sends := s.calls.map SendCall.phase
    mayBlock := s.mayBlock }

theorem put_conserved {s : FlagState} {i : Nat} {c : SendCall} {r : SendCall × TxBudget × Lbt}
    (conserved : s.sends.Conserved) (at_i : s.calls[i]? = some c)
    (refines : c.Refines s.mayBlock s.budget r) : (s.put i r).sends.Conserved := by
  have at_phase : s.sends.sends[i]? = some c.phase := by
    simp [sends, at_i]
  rcases refines with ⟨answer, moved⟩ | ⟨same, budget⟩
  · have next := TxState.sendStep_conserved conserved i answer
    have eq : (s.put i r).sends = s.sends.sendStep i answer := by
      rw [TxState.sendStep, at_phase]
      change _ = { s.sends with
        sends := s.sends.sends.set i (c.phase.advance s.mayBlock answer s.budget).1
        budget := (c.phase.advance s.mayBlock answer s.budget).2 }
      rw [← moved]
      simp [sends, put, List.map_set]
    rwa [eq]
  · have eq : (s.put i r).sends = s.sends := by
      obtain ⟨bound, found⟩ := List.getElem?_eq_some_iff.mp at_phase
      simp only [sends, put, List.map_set, same, budget] at found ⊢
      rw [← found, List.set_getElem_self]
    rwa [eq]

end FlagState

namespace Lbt

variable {l : Lbt}

theorem withCtx_ready (lock : Int) (f : LbtCtx → LbtCtx) :
    (l.withCtx lock f).mutexReady = l.mutexReady := by
  unfold withCtx
  split
  · rfl
  · split <;> rfl

theorem closeCycle_ready (currentTimeMs nowUs : Int) (doneMs doneMsLater : BitVec 32) :
    (l.closeCycle currentTimeMs nowUs doneMs doneMsLater).mutexReady = l.mutexReady := by
  unfold closeCycle
  split <;> rfl

theorem deactive_txActive (ready : l.mutexReady = true) (nowUs : Int) :
    (l.halowLbtSetTxAsDeactive 0 nowUs).txActive = false := by
  cases present : l.ctx with
  | none => simp [halowLbtSetTxAsDeactive, withCtx, ready, txActive, present]
  | some c =>
    have off : (c.markDeactive nowUs).airtimeTxActive = false :=
      LbtEvent.onCtx_active (e := .deactive 0 nowUs) rfl
    simp [halowLbtSetTxAsDeactive, withCtx, ready, txActive, present, off]

theorem closeCycle_txActive {currentTimeMs nowUs : Int} {doneMs doneMsLater : BitVec 32}
    (on : (l.closeCycle currentTimeMs nowUs doneMs doneMsLater).txActive = true) :
    l.txActive = true := by
  cases present : l.ctx with
  | none => simp [closeCycle, txActive, present] at on
  | some c =>
    have kept : (c.settle currentTimeMs nowUs doneMs doneMsLater).2.airtimeTxActive = true →
        c.airtimeTxActive = true := by
      unfold LbtCtx.settle
      split
      · exact id
      · split
        · intro stale
          cases stale
        · exact id
    simp only [closeCycle, present, txActive, LbtCtx.closeCycle, Option.any_some] at on ⊢
    exact kept on

end Lbt

theorem TxBudget.vacate_of_full {len : Nat} {b : TxBudget} (short : b.full len = false) :
    (b.vacate len).vacatedBytes ≠ txBufferSize := by
  simp only [full, decide_eq_false_iff_not] at short
  simp only [vacate]
  omega

namespace SendCall

def owes (c : SendCall) : Nat := c.phase.owes

def clears : SendCall → Bool
  | .refunded => true
  | .handed _ .vacated => true
  | _ => false

inductive Outcome (c : SendCall) (b : TxBudget) (l : Lbt) : SendCall × TxBudget × Lbt → Prop
  | off (c' : SendCall) (b' : TxBudget) (l' : Lbt) : l'.txActive = false → Outcome c b l (c', b', l')
  | owing (c' : SendCall) (b' : TxBudget) (l' : Lbt) : 0 < c'.owes → Outcome c b l (c', b', l')
  | clearing (c' : SendCall) (b' : TxBudget) (l' : Lbt) : c'.clears = true →
      Outcome c b l (c', b', l')
  | short (c' : SendCall) (b' : TxBudget) (l' : Lbt) : b'.vacatedBytes ≠ txBufferSize →
      Outcome c b l (c', b', l')
  | same (c' : SendCall) (b' : TxBudget) : c.owes = 0 → c.clears = false → Outcome c b l (c', b', l)

theorem idle_of_over {c : SendCall} (ended : c.isOver = true) :
    c.phase.owes = 0 ∧ c.clears = false := by
  cases c with
  | dropped => exact ⟨rfl, rfl⟩
  | handed done frame =>
    cases frame with
    | freed => exact ⟨rfl, rfl⟩
    | _ => cases done <;> cases ended
  | _ => cases ended

def inOrder : SendCall → Bool
  | .handed false (.accepted _) => true
  | .handed false _ => false
  | _ => true

variable {l : Lbt} (b : TxBudget)

theorem skbLen_pos (len : Nat) : 0 < skbLen len := by
  unfold skbLen ieee80211HdrLen
  omega

theorem send_outcome {c : SendCall} (ordered : c.inOrder = true) (mayBlock : Bool)
    (answer : Answer) (nowUs activityUs : Int) (ready : l.mutexReady = true) :
    c.Outcome b l (c.send mayBlock answer ⟨0, nowUs, activityUs⟩ b l) := by
  cases c with
  | allocated len =>
    simp only [send]
    split
    · exact .owing _ _ _ (skbLen_pos len)
    · split <;> exact .same _ _ rfl rfl
  | waiting len left =>
    cases left with
    | zero => exact .same _ _ rfl rfl
    | succ left =>
      simp only [send]
      split <;> exact .same _ _ rfl rfl
  | woken len left =>
    simp only [send]
    split
    · exact .owing _ _ _ (skbLen_pos len)
    · exact .same _ _ rfl rfl
  | granted len =>
    simp only [send]
    split <;> exact .owing _ _ _ (skbLen_pos len)
  | rejected len =>
    cases filled : b.full (skbLen len) with
    | true =>
      simp only [send, filled, if_true]
      exact .clearing _ _ _ rfl
    | false => exact .short _ _ _ (TxBudget.vacate_of_full filled)
  | refunded => exact .off _ _ _ (Lbt.deactive_txActive ready nowUs)
  | dropped => exact .same _ _ rfl rfl
  | handed done frame =>
    cases done with
    | true =>
      cases frame with
      | accepted len => exact .owing _ _ _ (skbLen_pos len)
      | vacated => exact .clearing _ _ _ rfl
      | counted => exact .same _ _ rfl rfl
      | freed => exact .same _ _ rfl rfl
    | false =>
      cases frame with
      | accepted len => exact .owing _ _ _ (skbLen_pos len)
      | _ => cases ordered

theorem send_keeps (c : SendCall) (mayBlock : Bool) (answer : Answer) (a : LbtAnswer) :
    (c.send mayBlock answer a b l).1.inOrder = true ∧
      (c.send mayBlock answer a b l).2.2.mutexReady = l.mutexReady := by
  cases c with
  | allocated len =>
    simp only [send]
    split
    · exact ⟨rfl, rfl⟩
    · split <;> exact ⟨rfl, rfl⟩
  | waiting len left =>
    cases left with
    | zero => exact ⟨rfl, rfl⟩
    | succ left =>
      simp only [send]
      split <;> exact ⟨rfl, rfl⟩
  | woken | granted =>
    simp only [send]
    split <;> exact ⟨rfl, rfl⟩
  | rejected len =>
    refine ⟨?_, rfl⟩
    simp only [send]
    split <;> rfl
  | refunded => exact ⟨rfl, Lbt.withCtx_ready ..⟩
  | dropped => exact ⟨rfl, rfl⟩
  | handed done frame =>
    cases done with
    | true => exact ⟨rfl, rfl⟩
    | false => exact ⟨rfl, Lbt.withCtx_ready ..⟩

theorem complete_keeps {c : SendCall} (a : LbtAnswer) (marked : c.isUnmarked = false) :
    (c.complete a b l).1.inOrder = true ∧
      (c.complete a b l).2.2.mutexReady = l.mutexReady := by
  cases c with
  | handed done frame =>
    cases done with
    | false => cases marked
    | true =>
      cases frame with
      | vacated => exact ⟨rfl, Lbt.withCtx_ready ..⟩
      | _ => exact ⟨rfl, rfl⟩
  | _ => exact ⟨rfl, rfl⟩

theorem complete_outcome (c : SendCall) (nowUs activityUs : Int) (ready : l.mutexReady = true) :
    c.Outcome b l (c.complete ⟨0, nowUs, activityUs⟩ b l) := by
  cases c with
  | handed done frame =>
    cases frame with
    | accepted len =>
      cases filled : b.full (skbLen len) with
      | true =>
        simp only [complete, filled, if_true]
        exact .clearing _ _ _ rfl
      | false => exact .short _ _ _ (TxBudget.vacate_of_full filled)
    | vacated => exact .off _ _ _ (Lbt.deactive_txActive ready nowUs)
    | counted => exact .same _ _ rfl rfl
    | freed => exact .same _ _ rfl rfl
  | granted len => exact .owing _ _ _ (skbLen_pos len)
  | rejected len => exact .owing _ _ _ (skbLen_pos len)
  | refunded => exact .clearing _ _ _ rfl
  | _ => exact .same _ _ rfl rfl

end SendCall

namespace FlagAct

def Locks : FlagAct → Prop
  | .send _ _ a => a.lock = 0
  | .complete _ a => a.lock = 0
  | _ => True

end FlagAct

namespace FlagState

def overtakes (s : FlagState) : FlagAct → Bool
  | .complete i _ => s.calls[i]?.any SendCall.isUnmarked
  | _ => false

structure Followed (s : FlagState) : Prop where
  ready : s.lbt.mutexReady = true
  conserved : s.sends.Conserved
  inOrder : ∀ c ∈ s.calls, c.inOrder = true
  flag : s.lbt.txActive = true →
    0 < s.sends.outstanding ∨ ∃ c ∈ s.calls, c.clears = true

variable {s : FlagState}

theorem put_flag {i : Nat} {c : SendCall} {r : SendCall × TxBudget × Lbt} (followed : s.Followed)
    (at_i : s.calls[i]? = some c) (refines : c.Refines s.mayBlock s.budget r)
    (outcome : c.Outcome s.budget s.lbt r) (on : (s.put i r).lbt.txActive = true) :
    0 < (s.put i r).sends.outstanding ∨ ∃ c ∈ (s.put i r).calls, c.clears = true := by
  have conserved := put_conserved followed.conserved at_i refines
  obtain ⟨bound, -⟩ := List.getElem?_eq_some_iff.mp at_i
  have moved : (s.put i r).calls[i]? = some r.1 := by
    simp [put, bound]
  cases outcome with
  | off c' b' l' off => exact absurd on (by simp [put, off])
  | owing c' b' l' owing =>
    have phase : (s.put i (c', b', l')).sends.sends[i]? = some c'.phase := by
      simp [sends, moved]
    exact .inl (Nat.lt_of_lt_of_le owing (TxState.owes_le_outstanding phase))
  | clearing c' b' l' clears => exact .inr ⟨c', List.mem_of_getElem? moved, clears⟩
  | short c' b' l' short =>
    left
    have total : b'.vacatedBytes + (s.put i (c', b', l')).sends.outstanding = txBufferSize :=
      conserved
    omega
  | same c' b' owes clears =>
    rcases followed.flag on with out | ⟨d, mem, d_clears⟩
    · left
      have phase : s.sends.sends[i]? = some c.phase := by simp [sends, at_i]
      have total := TxState.outstanding_set phase c'.phase
      have put_sends : (s.put i (c', b', s.lbt)).sends.sends = s.sends.sends.set i c'.phase := by
        simp [sends, put, List.map_set]
      change c.phase.owes = 0 at owes
      simp only [TxState.outstanding, put_sends] at out total ⊢
      omega
    · right
      obtain ⟨j, at_j⟩ := List.mem_iff_getElem?.mp mem
      have apart : i ≠ j := by
        rintro rfl
        cases at_i.symm.trans at_j
        rw [clears] at d_clears
        cases d_clears
      refine ⟨d, List.mem_of_getElem? (i := j) ?_, d_clears⟩
      simpa [put, apart] using at_j

theorem put_followed {i : Nat} {c : SendCall} {r : SendCall × TxBudget × Lbt}
    (followed : s.Followed) (at_i : s.calls[i]? = some c)
    (refines : c.Refines s.mayBlock s.budget r) (outcome : c.Outcome s.budget s.lbt r)
    (ready : r.2.2.mutexReady = true) (inOrder : r.1.inOrder = true) : (s.put i r).Followed where
  ready := ready
  conserved := put_conserved followed.conserved at_i refines
  inOrder d mem := by
    rcases List.mem_or_eq_of_mem_set mem with old | rfl
    · exact followed.inOrder d old
    · exact inOrder
  flag := put_flag followed at_i refines outcome

theorem step_followed (followed : s.Followed) (act : FlagAct) (locks : act.Locks)
    (ordered : s.overtakes act = false) : (s.step act).Followed := by
  cases act with
  | call len =>
    have same : (s.step (.call len)).sends.outstanding = s.sends.outstanding := by
      simp [TxState.outstanding, sends, step, SendCall.phase, SendPhase.owes]
    refine ⟨followed.ready, ?_, ?_, ?_⟩
    · have total : s.budget.vacatedBytes + s.sends.outstanding = txBufferSize := followed.conserved
      rw [← same] at total
      exact total
    · intro c mem
      rcases List.mem_append.mp mem with old | new
      · exact followed.inOrder c old
      · rw [List.mem_singleton.mp new]
        rfl
    · intro on
      rw [same]
      rcases followed.flag on with out | ⟨c, mem, clears⟩
      · exact .inl out
      · exact .inr ⟨c, List.mem_append_left _ mem, clears⟩
  | send i answer a =>
    simp only [step]
    split <;> rename_i at_i
    · exact followed
    · rename_i c
      obtain ⟨lock, nowUs, activityUs⟩ := a
      obtain rfl : lock = 0 := locks
      obtain ⟨inOrder, ready⟩ := c.send_keeps (l := s.lbt) s.budget s.mayBlock answer
        ⟨0, nowUs, activityUs⟩
      exact put_followed followed at_i (c.send_refines ..)
        (SendCall.send_outcome _ (followed.inOrder c (List.mem_of_getElem? at_i)) _ _ _ _
          followed.ready) (ready.trans followed.ready) inOrder
  | complete i a =>
    simp only [step]
    split <;> rename_i at_i
    · exact followed
    · rename_i c
      obtain ⟨lock, nowUs, activityUs⟩ := a
      obtain rfl : lock = 0 := locks
      have marked : c.isUnmarked = false := by
        simpa [overtakes, at_i] using ordered
      obtain ⟨inOrder, ready⟩ := SendCall.complete_keeps (l := s.lbt) s.budget
        ⟨0, nowUs, activityUs⟩ marked
      exact put_followed followed at_i (c.complete_refines ..)
        (c.complete_outcome _ _ _ followed.ready) (ready.trans followed.ready) inOrder
  | cycle currentTimeMs nowUs doneMs doneMsLater =>
    exact ⟨(Lbt.closeCycle_ready ..).trans followed.ready, followed.conserved, followed.inOrder,
      fun on => followed.flag (Lbt.closeCycle_txActive on)⟩
  | mayBlockSet ok => exact ⟨followed.ready, followed.conserved, followed.inOrder, followed.flag⟩

theorem boot_followed {l : Lbt} (ready : l.mutexReady = true) (off : l.txActive = false) :
    (boot l).Followed where
  ready := ready
  conserved := rfl
  inOrder c mem := absurd mem List.not_mem_nil
  flag on := absurd on (by simp [boot, off])

theorem Quiet.outstanding (quiet : s.Quiet) : s.sends.outstanding = 0 := by
  apply List.sum_eq_zero
  intro n mem
  simp only [sends, List.map_map, List.mem_map] at mem
  obtain ⟨c, here, rfl⟩ := mem
  exact (SendCall.idle_of_over (quiet c here)).1

theorem flag_follows_traffic {l : Lbt} (ready : l.mutexReady = true) (off : l.txActive = false)
    (acts : List FlagAct) (locks : ∀ act ∈ acts, act.Locks)
    (ordered : ∀ before act later, acts = before ++ act :: later →
      (run l before).overtakes act = false)
    (quiet : (run l acts).Quiet) :
    (run l acts).lbt.txActive = false ∧ (run l acts).budget.vacatedBytes = txBufferSize := by
  have along : Runs.Along step (fun s act => act.Locks ∧ s.overtakes act = false) (boot l) acts := by
    intro before act later split
    exact ⟨locks act (by simp [split]), ordered before act later split⟩
  have followed : (run l acts).Followed := along.holds (boot_followed ready off)
    fun s act followed met => step_followed followed act met.1 met.2
  have total : (run l acts).budget.vacatedBytes + (run l acts).sends.outstanding = txBufferSize :=
    followed.conserved
  rw [quiet.outstanding] at total
  refine ⟨?_, total⟩
  by_contra on
  rcases followed.flag (Bool.eq_true_of_not_eq_false on) with out | ⟨c, mem, clears⟩
  · rw [quiet.outstanding] at out
    exact Nat.lt_irrefl 0 out
  · rw [(SendCall.idle_of_over (quiet c mem)).2] at clears
    cases clears

def accepted : Answer := ⟨0, 0⟩

def inTurn : List FlagAct :=
  [.call 100, .send 0 accepted ⟨0, 1, 1⟩, .send 0 accepted ⟨0, 2, 2⟩, .send 0 accepted ⟨0, 3, 3⟩,
    .complete 0 ⟨0, 4, 4⟩, .complete 0 ⟨0, 5, 5⟩, .complete 0 ⟨0, 6, 6⟩]

def overtaken : List FlagAct :=
  [.call 100, .send 0 accepted ⟨0, 1, 1⟩, .send 0 accepted ⟨0, 2, 2⟩, .complete 0 ⟨0, 3, 3⟩,
    .complete 0 ⟨0, 4, 4⟩, .complete 0 ⟨0, 5, 5⟩, .send 0 accepted ⟨0, 6, 6⟩]

theorem flag_follows_traffic_inTurn :
    (run Lbt.atBoot inTurn).lbt.txActive = false ∧
      (run Lbt.atBoot inTurn).budget.vacatedBytes = txBufferSize := by
  refine flag_follows_traffic rfl rfl inTurn ?_ ?_ ?_
  · simp [inTurn, FlagAct.Locks]
  · have checked : Runs.check step (fun s act => !s.overtakes act) (boot Lbt.atBoot) inTurn = true := by
      decide +kernel
    intro before act later split
    simpa [run] using Runs.along_of_check checked before act later split
  · unfold Quiet
    decide +kernel

theorem flag_stuck_overtaken :
    (run Lbt.atBoot overtaken).lbt.txActive = true ∧ (run Lbt.atBoot overtaken).Quiet ∧
      (∀ act ∈ overtaken, act.Locks) ∧
      (run Lbt.atBoot overtaken).budget.vacatedBytes = txBufferSize := by
  refine ⟨by decide +kernel, ?_, ?_, by decide +kernel⟩
  · unfold Quiet
    decide +kernel
  · simp [overtaken, FlagAct.Locks]

end FlagState

end RnodeHalow.Radio
