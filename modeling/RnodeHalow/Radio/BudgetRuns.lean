import RnodeHalow.Radio.BudgetWait
import RnodeHalow.Radio.Watchdog
import RnodeHalow.Shared.Runs

set_option autoImplicit false

-- One step is one section with interrupts off, or one access to a shared variable.

namespace RnodeHalow.Radio

inductive SendPhase where
  -- `alloc_tx_skb` succeeded, `tx_budget_take` is next
  | allocated (len : Nat)
  | waiting (len left : Nat)
  -- `os_sema_down` answered 0, `tx_budget_take` is next
  | woken (len left : Nat)
  -- budget taken, the LMAC is next
  | granted (len : Nat)
  | accepted (len : Nat)
  -- rejected by the LMAC, the refund is next
  | rejected (len : Nat)
  -- completed, `os_sema_up` is next
  | completed
  | finished
  deriving DecidableEq, Repr

structure Answer where
  semaDown : Int
  lmacTx : Int

namespace SendPhase

def owes : SendPhase → Nat
  | .granted len => len
  | .accepted len => len
  | .rejected len => len
  | _ => 0

def advance (mayBlock : Bool) (answer : Answer) (b : TxBudget) : SendPhase → SendPhase × TxBudget
  | .allocated len =>
    let r := b.txBudgetTake len
    if r.1 then (.granted len, r.2)
    else if mayBlock then (.waiting len txBlockIters, r.2)
    else (.finished, r.2)
  | .waiting _ 0 => (.finished, b)
  | .waiting len (left + 1) =>
    if answer.semaDown = 0 then (.woken len left, b) else (.waiting len left, b)
  | .woken len left =>
    let r := b.txBudgetTake len
    if r.1 then (.granted len, r.2) else (.waiting len left, r.2)
  | .granted len => if answer.lmacTx = 0 then (.accepted len, b) else (.rejected len, b)
  -- `halow_tx_skb_complete`
  | .accepted len => (.completed, b.vacate len)
  -- `halow_tx_skb_budget_refund`
  | .rejected len => (.finished, b.vacate len)
  | .completed => (.finished, b.perform .signal)
  | .finished => (.finished, b)

end SendPhase

inductive WatchPhase where
  | asleep
  -- `g_tx_vacated_bytes` is read next
  | budget (now : Jiffies)
  -- the queues of these ACs are still to be looked at
  | queues (now : Jiffies) (acs : List (Fin 4))
  | aggregate (now : Jiffies) (ac : Fin 4) (acs : List (Fin 4))
  | timer (now : Jiffies)
  -- the warning is written and `g_tx_vacated_bytes` is stored next
  | store
  | signal
  deriving DecidableEq, Repr

structure TxState where
  budget : TxBudget
  sends : List SendPhase
  mayBlock : Bool
  watch : WatchPhase
  leakSince : Jiffies
  queued : Fin 4 → Nat
  selected : Fin 4 → Nat

inductive TxAct where
  | call (len : Nat)
  | send (i : Nat) (answer : Answer)
  | watch (now : Jiffies)
  | lmac (queued selected : Fin 4 → Nat)
  | mayBlockSet (ok : Bool)

namespace TxState

def boot : TxState where
  budget := ⟨txBufferSize, 0⟩
  sends := []
  mayBlock := false
  watch := .asleep
  leakSince := 0
  queued := fun _ => 0
  selected := fun _ => 0

def pending (s : TxState) : TxState := { s with leakSince := 0, watch := .asleep }

def watchStep (now : Jiffies) (s : TxState) : TxState :=
  match s.watch with
  | .asleep => { s with watch := .budget now }
  | .budget now =>
    if s.budget.vacatedBytes < txBufferSize then s.pending
    else { s with watch := .queues now (List.finRange 4) }
  | .queues now [] => { s with watch := .timer now }
  | .queues now (ac :: acs) =>
    if s.queued ac ≠ 0 then s.pending else { s with watch := .aggregate now ac acs }
  | .aggregate now ac acs =>
    if s.selected ac ≠ 0 then s.pending else { s with watch := .queues now acs }
  | .timer now =>
    if s.leakSince = 0 then { s with leakSince := now, watch := .asleep }
    else if (now - s.leakSince).toNat < txLeakTmoMs then { s with watch := .asleep }
    else { s with leakSince := 0, watch := .store }
  | .store => { s with budget := { s.budget with vacatedBytes := txBufferSize }, watch := .signal }
  | .signal => { s with budget := s.budget.perform .signal, watch := .asleep }

def sendStep (i : Nat) (answer : Answer) (s : TxState) : TxState :=
  match s.sends[i]? with
  | none => s
  | some phase =>
    let r := phase.advance s.mayBlock answer s.budget
    { s with sends := s.sends.set i r.1, budget := r.2 }

def step (s : TxState) : TxAct → TxState
  | .call len => { s with sends := s.sends ++ [.allocated (ieee80211HdrLen + len)] }
  | .send i answer => s.sendStep i answer
  | .watch now => s.watchStep now
  | .lmac queued selected => { s with queued := queued, selected := selected }
  | .mayBlockSet ok => { s with mayBlock := ok }

def run (acts : List TxAct) : TxState := acts.foldl step boot

def outstanding (s : TxState) : Nat := (s.sends.map SendPhase.owes).sum

def Conserved (s : TxState) : Prop := s.budget.vacatedBytes + s.outstanding = txBufferSize

end TxState

theorem txBudgetTake_owes (b : TxBudget) (len : Nat) :
    (b.txBudgetTake len).2.vacatedBytes + (if (b.txBudgetTake len).1 then len else 0) =
      b.vacatedBytes := by
  unfold TxBudget.txBudgetTake
  split
  · simp
    omega
  · simp

theorem vacate_owes {b : TxBudget} {len : Nat} (room : b.vacatedBytes + len ≤ txBufferSize) :
    (b.vacate len).vacatedBytes = b.vacatedBytes + len := by
  have small : b.vacatedBytes + len < 2 ^ 32 := Nat.lt_of_le_of_lt room (by decide)
  rw [TxBudget.vacate, Nat.mod_eq_of_lt small]
  exact Nat.min_eq_left room

theorem SendPhase.advance_owes (mayBlock : Bool) (answer : Answer) (b : TxBudget)
    (phase : SendPhase) (room : b.vacatedBytes + phase.owes ≤ txBufferSize) :
    (phase.advance mayBlock answer b).2.vacatedBytes + (phase.advance mayBlock answer b).1.owes =
      b.vacatedBytes + phase.owes := by
  cases phase with
  | allocated len =>
    have taken := txBudgetTake_owes b len
    simp only [advance]
    split <;> rename_i took
    · simpa [took, owes] using taken
    · rw [if_neg took] at taken
      split <;> simpa [owes] using taken
  | waiting len left =>
    cases left with
    | zero => rfl
    | succ left =>
      simp only [advance]
      split <;> rfl
  | woken len left =>
    have taken := txBudgetTake_owes b len
    simp only [advance]
    split <;> rename_i took
    · simpa [took, owes] using taken
    · rw [if_neg took] at taken
      simpa [owes] using taken
  | granted len =>
    simp only [advance]
    split <;> rfl
  | accepted | rejected => exact vacate_owes room
  | completed | finished => rfl

namespace TxState

theorem outstanding_set {sends : List SendPhase} {i : Nat} {phase : SendPhase}
    (at_i : sends[i]? = some phase) (phase' : SendPhase) :
    ((sends.set i phase').map SendPhase.owes).sum + phase.owes =
      (sends.map SendPhase.owes).sum + phase'.owes := by
  induction sends generalizing i with
  | nil => cases at_i
  | cons first rest ih =>
    cases i with
    | zero =>
      cases at_i
      simp only [List.set_cons_zero, List.map_cons, List.sum_cons]
      omega
    | succ i =>
      have more := ih at_i
      simp only [List.set_cons_succ, List.map_cons, List.sum_cons]
      omega

variable {s : TxState}

theorem owes_le_outstanding {i : Nat} {phase : SendPhase} (at_i : s.sends[i]? = some phase) :
    phase.owes ≤ s.outstanding := by
  have without := outstanding_set at_i .finished
  simp only [outstanding, SendPhase.owes] at without ⊢
  omega

theorem sendStep_conserved (conserved : s.Conserved) (i : Nat) (answer : Answer) :
    (s.sendStep i answer).Conserved := by
  unfold sendStep
  cases at_i : s.sends[i]? with
  | none => exact conserved
  | some phase =>
    have own := owes_le_outstanding at_i
    have room : s.budget.vacatedBytes + phase.owes ≤ txBufferSize := by
      rw [← conserved]
      omega
    have moved := phase.advance_owes s.mayBlock answer s.budget room
    have rest := outstanding_set at_i (phase.advance s.mayBlock answer s.budget).1
    simp only [Conserved, outstanding] at conserved own ⊢
    omega

theorem watchStep_budget (now : Jiffies) (other : s.watch ≠ .store) :
    (s.watchStep now).budget.vacatedBytes = s.budget.vacatedBytes ∧
      (s.watchStep now).sends = s.sends := by
  unfold watchStep
  split <;> rename_i watch
  · exact ⟨rfl, rfl⟩
  · split <;> exact ⟨rfl, rfl⟩
  · exact ⟨rfl, rfl⟩
  · split <;> exact ⟨rfl, rfl⟩
  · split <;> exact ⟨rfl, rfl⟩
  · split
    · exact ⟨rfl, rfl⟩
    · split <;> exact ⟨rfl, rfl⟩
  · exact absurd watch other
  · exact ⟨rfl, rfl⟩

theorem watchStep_store (now : Jiffies) (store : s.watch = .store) :
    (s.watchStep now).budget.vacatedBytes = txBufferSize ∧
      (s.watchStep now).outstanding = s.outstanding := by
  rw [watchStep, store]
  exact ⟨rfl, rfl⟩

def Storing (s : TxState) : TxAct → Prop
  | .watch _ => s.watch = .store
  | _ => False

theorem step_conserved (conserved : s.Conserved) (act : TxAct)
    (settled : s.Storing act → s.outstanding = 0) : (s.step act).Conserved := by
  cases act with
  | call len => simpa [Conserved, outstanding, step, SendPhase.owes] using conserved
  | send i answer => exact sendStep_conserved conserved i answer
  | watch now =>
    by_cases store : s.watch = .store
    · obtain ⟨full, same⟩ := watchStep_store now store
      change (s.watchStep now).budget.vacatedBytes + (s.watchStep now).outstanding = txBufferSize
      rw [full, same, settled store, Nat.add_zero]
    · obtain ⟨budget, sends⟩ := watchStep_budget now store
      change (s.watchStep now).budget.vacatedBytes + (s.watchStep now).outstanding = txBufferSize
      rw [budget, outstanding, sends]
      exact conserved
  | lmac queued selected => exact conserved
  | mayBlockSet ok => exact conserved

theorem store_conserved_iff {act : TxAct} (storing : s.Storing act) :
    (s.step act).Conserved ↔ s.outstanding = 0 := by
  cases act with
  | watch now =>
    obtain ⟨full, same⟩ := watchStep_store now storing
    change (s.watchStep now).budget.vacatedBytes + (s.watchStep now).outstanding =
      txBufferSize ↔ _
    rw [full, same]
    omega
  | _ => exact storing.elim

def Watches (now : Jiffies) : TxState → TxState → Prop :=
  Relation.ReflTransGen fun s s' => s.watchStep now = s'

theorem Watches.step {now : Jiffies} {s s' : TxState} (rest : Watches now (s.watchStep now) s') :
    Watches now s s' :=
  .head rfl rest

theorem Watches.done {now : Jiffies} {s s' : TxState} (eq : s.watchStep now = s') :
    Watches now s s' :=
  .single eq

theorem watches_empty_queues (now : Jiffies) (s : TxState) (acs : List (Fin 4))
    (empty : ∀ ac ∈ acs, s.queued ac = 0 ∧ s.selected ac = 0) :
    Watches now { s with watch := .queues now acs } { s with watch := .timer now } := by
  induction acs with
  | nil => exact .done rfl
  | cons ac acs ih =>
    obtain ⟨queued, selected⟩ := empty ac (by simp)
    apply Watches.step
    simp only [watchStep, queued, ne_eq, not_true_eq_false, if_false]
    apply Watches.step
    simp only [watchStep, selected, ne_eq, not_true_eq_false, if_false]
    exact ih fun ac' mem => empty ac' (by simp [mem])

theorem watches_filled_queues (now : Jiffies) (s : TxState) (acs : List (Fin 4))
    (filled : ∃ ac ∈ acs, s.queued ac ≠ 0 ∨ s.selected ac ≠ 0) :
    Watches now { s with watch := .queues now acs } s.pending := by
  induction acs with
  | nil =>
    obtain ⟨ac, mem, -⟩ := filled
    cases mem
  | cons ac acs ih =>
    by_cases queued : s.queued ac = 0
    · apply Watches.step
      simp only [watchStep, queued, ne_eq, not_true_eq_false, if_false]
      by_cases selected : s.selected ac = 0
      · apply Watches.step
        simp only [watchStep, selected, ne_eq, not_true_eq_false, if_false]
        apply ih
        obtain ⟨ac', mem, work⟩ := filled
        rcases List.mem_cons.mp mem with rfl | later
        · simp [queued, selected] at work
        · exact ⟨ac', later, work⟩
      · exact .done (by simp [watchStep, selected, pending])
    · exact .done (by simp [watchStep, queued, pending])

structure Sees (s : TxState) (w : Watchdog) (m : Lmac) : Prop where
  leakSince : w.leakSince = s.leakSince
  vacatedBytes : m.vacatedBytes = s.budget.vacatedBytes
  queued : m.queued = s.queued
  selected : m.selected = s.selected

def Ticked (s : TxState) (now : Jiffies) (w : Watchdog) (m : Lmac) (s' : TxState) : Prop :=
  s'.watch = .asleep ∧ s'.outstanding = s.outstanding ∧
    s'.Sees (txWatchdogBudgetLeak now w m).1 (txWatchdogBudgetLeak now w m).2

theorem Sees.pending {w : Watchdog} {m : Lmac} (sees : s.Sees w m) (now : Jiffies)
    (work : m.txWorkPending = true) : s.Ticked now w m s.pending := by
  rw [Ticked, txWatchdogBudgetLeak, if_pos work]
  exact ⟨rfl, rfl, rfl, sees.vacatedBytes, sees.queued, sees.selected⟩

theorem watches_timer {w : Watchdog} {m : Lmac} (sees : s.Sees w m) (now : Jiffies)
    (idle : ¬m.txWorkPending = true) :
    ∃ s', Watches now { s with watch := .timer now } s' ∧ s.Ticked now w m s' := by
  obtain ⟨since, vacated, queued, selected⟩ := sees
  simp only [Ticked]
  rw [txWatchdogBudgetLeak, if_neg idle, since]
  by_cases unset : s.leakSince = 0
  · rw [if_pos unset]
    refine ⟨{ s with leakSince := now, watch := .asleep }, Watches.done ?_, rfl, rfl, rfl, vacated,
      queued, selected⟩
    simp only [watchStep, unset, if_true]
  · rw [if_neg unset]
    by_cases early : (now - s.leakSince).toNat < txLeakTmoMs
    · rw [if_pos early]
      refine ⟨{ s with watch := .asleep }, Watches.done ?_, rfl, rfl, since, vacated, queued,
        selected⟩
      simp only [watchStep, unset, early, if_true, if_false]
    · rw [if_neg early]
      refine ⟨{ s with
        leakSince := 0
        budget := { s.budget with vacatedBytes := txBufferSize }.perform .signal
        watch := .asleep }, ?_, rfl, rfl, rfl, rfl, queued, selected⟩
      apply Watches.step
      simp only [watchStep, unset, early, if_false]
      exact Watches.step (Watches.done rfl)

theorem uninterrupted_watch {w : Watchdog} {m : Lmac} (sees : s.Sees w m) (now : Jiffies)
    (asleep : s.watch = .asleep) : ∃ s', Watches now s s' ∧ s.Ticked now w m s' := by
  have start : s.watchStep now = { s with watch := .budget now } := by rw [watchStep, asleep]
  by_cases missing : s.budget.vacatedBytes < txBufferSize
  · refine ⟨s.pending, ?_, sees.pending now (pending_of_missing (sees.vacatedBytes ▸ missing))⟩
    apply Watches.step
    rw [start]
    exact Watches.done (by simp [watchStep, missing, pending])
  · have looks : Watches now s { s with watch := .queues now (List.finRange 4) } := by
      apply Watches.step
      rw [start]
      exact Watches.done (by simp [watchStep, missing])
    by_cases filled : ∃ ac ∈ List.finRange 4, s.queued ac ≠ 0 ∨ s.selected ac ≠ 0
    · refine ⟨s.pending, looks.trans (watches_filled_queues now s _ filled), sees.pending now ?_⟩
      obtain ⟨ac, -, work⟩ := filled
      simp only [Lmac.txWorkPending, Bool.or_eq_true, decide_eq_true_eq]
      exact .inr ⟨ac, by rw [sees.queued, sees.selected]; exact work⟩
    · have idle : ¬m.txWorkPending = true := by
        simp only [Lmac.txWorkPending, Bool.or_eq_true, decide_eq_true_eq, sees.vacatedBytes,
          sees.queued, sees.selected]
        rintro (short | ⟨ac, work⟩)
        · exact missing short
        · exact filled ⟨ac, List.mem_finRange ac, work⟩
      have empty : ∀ ac ∈ List.finRange 4, s.queued ac = 0 ∧ s.selected ac = 0 := by
        intro ac mem
        by_contra work
        exact filled ⟨ac, mem, by tauto⟩
      obtain ⟨s', rest, ticked⟩ := watches_timer sees now idle
      exact ⟨s', (looks.trans (watches_empty_queues now s _ empty)).trans rest, ticked⟩

theorem run_concat (acts : List TxAct) (act : TxAct) : run (acts ++ [act]) = (run acts).step act := by
  simp [run]

theorem budget_conserved_iff (acts : List TxAct) :
    (∀ before after, acts = before ++ after → (run before).Conserved) ↔
      ∀ before act after, acts = before ++ act :: after → (run before).Storing act →
        (run before).outstanding = 0 := by
  constructor
  · intro always before act after split storing
    have next := always (before ++ [act]) after (by simp [split])
    rw [run_concat] at next
    exact (store_conserved_iff storing).mp next
  · intro settled before after split
    have along : Runs.Along step (fun s act => s.Storing act → s.outstanding = 0) boot acts :=
      settled
    exact along.holds_at (P := Conserved) rfl
      (fun s act conserved settled => step_conserved conserved act settled) split

def raceWithStore : List TxAct :=
  List.replicate 12 (.watch 1) ++ List.replicate 12 (.watch 600) ++
    [.call 100, .send 0 ⟨0, 0⟩, .watch 600]

theorem budget_exceeded_by_race :
    (run raceWithStore).budget.vacatedBytes = txBufferSize ∧
      (run raceWithStore).sends = [.granted 124] ∧ (run raceWithStore).outstanding = 124 := by
  decide +kernel

end TxState

end RnodeHalow.Radio
