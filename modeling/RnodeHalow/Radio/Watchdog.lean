import RnodeHalow.Radio.Board

set_option autoImplicit false

namespace RnodeHalow.Radio

abbrev Jiffies := BitVec 64

def txBoTmoMs : Nat := 500
def txBoTmoGapMs : Nat := 1000
def txWedgeTmoMs : Nat := 5000
def txWedgeContendMs : Nat := 15000
def txWedgeRebootMs : Nat := 30000
def txWedgeStrikes : Nat := 3
def txLeakTmoMs : Nat := 500

structure Watchdog where
  boStuckSince : Jiffies
  boLastAbort : Jiffies
  boLastEndCnt : BitVec 32
  boLastAcpd : BitVec 32
  wedgeSince : Jiffies
  wedgePurgeJiff : Jiffies
  wedgeLastSeq : BitVec 32
  wedgeLastAcpd : BitVec 32
  deadStrikes : Nat
  leakSince : Jiffies

def Watchdog.boot : Watchdog := ⟨0, 0, 0, 0, 0, 0, 0, 0, 0, 0⟩

structure Lmac where
  vacatedBytes : Nat
  vacated_le : vacatedBytes ≤ txBufferSize
  -- `g_tx_complete_seq` and `g_seq`: the frames completed and the frames sent
  completeSeq : BitVec 32
  seq : BitVec 16
  txEndCount : BitVec 32
  acPdCount : BitVec 32
  boFrameType : BitVec 32
  boTxSubstate : BitVec 32
  -- for each AC the length of its queue and `selected_count` of its aggregate
  queued : Fin 4 → Nat
  selected : Fin 4 → Nat
  gateBlocked : Bool
  rfGatesOff : Bool
  otaActive : Bool
  purgeRequest : Bool
  rebooted : Bool
  boTmoRecov : BitVec 32
  wedgeCount : BitVec 32
  vacatedSem : Nat
  txActive : Bool
  resyncs : Nat

namespace Lmac

def txWorkPending (m : Lmac) : Bool :=
  decide (m.vacatedBytes < txBufferSize) ||
    decide (∃ ac : Fin 4, m.queued ac ≠ 0 ∨ m.selected ac ≠ 0)

def lhwAbortArmedTx (m : Lmac) : Bool × Lmac :=
  if m.boFrameType = 0 then (false, m)
  else (true, { m with boFrameType := 0, boTxSubstate := 0 })

def resync (m : Lmac) : Lmac :=
  { m with
    vacatedBytes := txBufferSize
    vacated_le := Nat.le_refl _
    txActive := false
    vacatedSem := m.vacatedSem + 1
    resyncs := m.resyncs + 1 }

end Lmac

def txWatchdogBoTimeout (now : Jiffies) (w : Watchdog) (m : Lmac) : Watchdog × Lmac :=
  let moved := m.txEndCount ≠ w.boLastEndCnt ∨ m.acPdCount ≠ w.boLastAcpd
  let since :=
    if m.boFrameType = 0 then 0
    else if moved then now
    else if w.boStuckSince = 0 then now
    else w.boStuckSince
  let gated := m.boFrameType ≠ 0 ∧ m.gateBlocked = true ∧ m.rfGatesOff = true
  let since := if gated ∧ since = 0 then now else since
  let w := { w with boStuckSince := since, boLastEndCnt := m.txEndCount, boLastAcpd := m.acPdCount }
  if since = 0 ∨ (now - since).toNat < txBoTmoMs ∨
      (w.boLastAbort ≠ 0 ∧ (now - w.boLastAbort).toNat < txBoTmoGapMs) then (w, m)
  else
    let r := m.lhwAbortArmedTx
    if r.1 then
      ({ w with boLastAbort := now, boStuckSince := 0 },
        { r.2 with boTmoRecov := r.2.boTmoRecov + 1 })
    else ({ w with boStuckSince := 0 }, r.2)

def txWatchdogWedgePurge (now : Jiffies) (acpdMoved : Bool) (stuckMs : Nat) (w : Watchdog)
    (m : Lmac) : Watchdog × Lmac :=
  let strikes := if acpdMoved then 0 else w.deadStrikes + 1
  -- The second request, with an update in progress, changes nothing any more.
  let m := { m with purgeRequest := true, wedgeCount := m.wedgeCount + 1 }
  ({ w with wedgePurgeJiff := now, wedgeLastAcpd := m.acPdCount, deadStrikes := strikes },
    if strikes ≥ txWedgeStrikes && stuckMs ≥ txWedgeRebootMs && m.otaActive then
      { m with purgeRequest := true }
    else m)

def txWatchdogHardWedge (now : Jiffies) (w : Watchdog) (m : Lmac) : Watchdog × Lmac :=
  if !m.txWorkPending then
    ({ w with wedgeSince := 0, wedgePurgeJiff := 0, deadStrikes := 0 }, m)
  else if m.completeSeq ≠ w.wedgeLastSeq then
    ({ w with
      wedgeSince := 0
      wedgePurgeJiff := 0
      wedgeLastSeq := m.completeSeq
      wedgeLastAcpd := m.acPdCount }, m)
  else
    let w := { w with wedgeSince := if w.wedgeSince = 0 then now else w.wedgeSince }
    let stuckMs := (now - w.wedgeSince).toNat
    let acpdMoved := m.acPdCount != w.wedgeLastAcpd
    let thresh := if acpdMoved then txWedgeContendMs else txWedgeTmoMs
    if stuckMs ≥ thresh ∧
        (w.wedgePurgeJiff = 0 ∨ (now - w.wedgePurgeJiff).toNat ≥ thresh) then
      txWatchdogWedgePurge now acpdMoved stuckMs w m
    else if stuckMs ≥ txWedgeRebootMs ∧ w.deadStrikes ≥ txWedgeStrikes ∧ m.otaActive = false then
      (w, { m with rebooted := true })
    else (w, m)

def txWatchdogBudgetLeak (now : Jiffies) (w : Watchdog) (m : Lmac) : Watchdog × Lmac :=
  if m.txWorkPending then ({ w with leakSince := 0 }, m)
  else if w.leakSince = 0 then ({ w with leakSince := now }, m)
  else if (now - w.leakSince).toNat < txLeakTmoMs then (w, m)
  else ({ w with leakSince := 0 }, m.resync)

def halowTxVacancyWatchdog (now : Jiffies) (w : Watchdog) (m : Lmac) : Watchdog × Lmac :=
  let r := txWatchdogBoTimeout now w m
  let r := txWatchdogHardWedge now r.1 r.2
  txWatchdogBudgetLeak now r.1 r.2

structure SameBudget (w : Watchdog) (m : Lmac) (w' : Watchdog) (m' : Lmac) : Prop where
  leakSince : w'.leakSince = w.leakSince
  vacatedBytes : m'.vacatedBytes = m.vacatedBytes
  queued : m'.queued = m.queued
  selected : m'.selected = m.selected
  resyncs : m'.resyncs = m.resyncs

theorem SameBudget.pending {w w' : Watchdog} {m m' : Lmac} (same : SameBudget w m w' m') :
    m'.txWorkPending = m.txWorkPending := by
  simp only [Lmac.txWorkPending, same.vacatedBytes, same.queued, same.selected]

theorem SameBudget.ite {c : Prop} [Decidable c] {w : Watchdog} {m : Lmac}
    {r r' : Watchdog × Lmac} (yes : SameBudget w m r.1 r.2) (no : SameBudget w m r'.1 r'.2) :
    SameBudget w m (if c then r else r').1 (if c then r else r').2 := by
  split
  · exact yes
  · exact no

variable (now : Jiffies) (w : Watchdog) (m : Lmac)

theorem lhwAbortArmedTx_same : SameBudget w m w m.lhwAbortArmedTx.2 := by
  unfold Lmac.lhwAbortArmedTx
  split
  · exact ⟨rfl, rfl, rfl, rfl, rfl⟩
  · exact ⟨rfl, rfl, rfl, rfl, rfl⟩

theorem txWatchdogBoTimeout_same :
    SameBudget w m (txWatchdogBoTimeout now w m).1 (txWatchdogBoTimeout now w m).2 := by
  have aborted := lhwAbortArmedTx_same w m
  refine .ite ⟨rfl, rfl, rfl, rfl, rfl⟩ (.ite ?_ ?_)
  · exact ⟨rfl, aborted.vacatedBytes, aborted.queued, aborted.selected, aborted.resyncs⟩
  · exact ⟨rfl, aborted.vacatedBytes, aborted.queued, aborted.selected, aborted.resyncs⟩

theorem txWatchdogWedgePurge_same (acpdMoved : Bool) (stuckMs : Nat) (w : Watchdog) (m : Lmac) :
    SameBudget w m (txWatchdogWedgePurge now acpdMoved stuckMs w m).1
      (txWatchdogWedgePurge now acpdMoved stuckMs w m).2 := by
  dsimp only [txWatchdogWedgePurge]
  generalize (if acpdMoved = true then 0 else w.deadStrikes + 1) = strikes
  split
  · exact ⟨rfl, rfl, rfl, rfl, rfl⟩
  · exact ⟨rfl, rfl, rfl, rfl, rfl⟩

theorem txWatchdogHardWedge_same :
    SameBudget w m (txWatchdogHardWedge now w m).1 (txWatchdogHardWedge now w m).2 := by
  refine .ite ⟨rfl, rfl, rfl, rfl, rfl⟩ (.ite ⟨rfl, rfl, rfl, rfl, rfl⟩ (.ite ?_ (.ite ?_ ?_)))
  · have purged := txWatchdogWedgePurge_same now (m.acPdCount != w.wedgeLastAcpd)
      (now - if w.wedgeSince = 0 then now else w.wedgeSince).toNat
      { w with wedgeSince := if w.wedgeSince = 0 then now else w.wedgeSince } m
    exact ⟨purged.leakSince, purged.vacatedBytes, purged.queued, purged.selected, purged.resyncs⟩
  · exact ⟨rfl, rfl, rfl, rfl, rfl⟩
  · exact ⟨rfl, rfl, rfl, rfl, rfl⟩

structure Seen where
  now : Jiffies
  lmac : Lmac

namespace Watchdog

def tick (w : Watchdog) (s : Seen) : Watchdog := (halowTxVacancyWatchdog s.now w s.lmac).1

def after (w : Watchdog) (seen : List Seen) : Watchdog := seen.foldl tick w

variable (w : Watchdog) (s : Seen)

@[simp]
theorem after_append (before seen : List Seen) :
    w.after (before ++ seen) = (w.after before).after seen :=
  List.foldl_append

@[simp]
theorem after_singleton : w.after [s] = w.tick s := rfl

def Resyncs (w : Watchdog) (s : Seen) : Prop :=
  (halowTxVacancyWatchdog s.now w s.lmac).2.resyncs = s.lmac.resyncs + 1

theorem watchdog_leak :
    ∃ w' m', SameBudget w s.lmac w' m' ∧
      halowTxVacancyWatchdog s.now w s.lmac = txWatchdogBudgetLeak s.now w' m' := by
  have first := txWatchdogBoTimeout_same s.now w s.lmac
  have second := txWatchdogHardWedge_same s.now (txWatchdogBoTimeout s.now w s.lmac).1
    (txWatchdogBoTimeout s.now w s.lmac).2
  exact ⟨_, _,
    { leakSince := second.leakSince.trans first.leakSince
      vacatedBytes := second.vacatedBytes.trans first.vacatedBytes
      queued := second.queued.trans first.queued
      selected := second.selected.trans first.selected
      resyncs := second.resyncs.trans first.resyncs }, rfl⟩

inductive LeakTick (w : Watchdog) (s : Seen) : Jiffies → Prop
  | busy (pending : s.lmac.txWorkPending = true) (no : ¬w.Resyncs s) : LeakTick w s 0
  | arms (idle : s.lmac.txWorkPending = false) (unset : w.leakSince = 0) (no : ¬w.Resyncs s) :
      LeakTick w s s.now
  | waits (idle : s.lmac.txWorkPending = false) (set : w.leakSince ≠ 0)
      (early : (s.now - w.leakSince).toNat < txLeakTmoMs) (no : ¬w.Resyncs s) :
      LeakTick w s w.leakSince
  | fires (idle : s.lmac.txWorkPending = false) (set : w.leakSince ≠ 0)
      (late : txLeakTmoMs ≤ (s.now - w.leakSince).toNat) (yes : w.Resyncs s) : LeakTick w s 0

theorem leakTick : LeakTick w s (w.tick s).leakSince := by
  obtain ⟨w', m', same, eq⟩ := watchdog_leak w s
  have quiet : m'.resyncs ≠ s.lmac.resyncs + 1 := by simp [same.resyncs]
  have stored : m'.resync.resyncs = s.lmac.resyncs + 1 := by simp [Lmac.resync, same.resyncs]
  cases pending : s.lmac.txWorkPending with
  | true =>
    have out : halowTxVacancyWatchdog s.now w s.lmac = ({ w' with leakSince := 0 }, m') := by
      rw [eq, txWatchdogBudgetLeak, if_pos (same.pending.trans pending)]
    rw [tick, out]
    exact .busy pending (by rw [Resyncs, out]; exact quiet)
  | false =>
    have idle : ¬m'.txWorkPending = true := by simp [same.pending, pending]
    rw [txWatchdogBudgetLeak, if_neg idle, same.leakSince] at eq
    by_cases unset : w.leakSince = 0
    · rw [if_pos unset] at eq
      rw [tick, eq]
      exact .arms pending unset (by rw [Resyncs, eq]; exact quiet)
    · rw [if_neg unset] at eq
      by_cases early : (s.now - w.leakSince).toNat < txLeakTmoMs
      · rw [if_pos early] at eq
        rw [tick, eq, same.leakSince]
        exact .waits pending unset early (by rw [Resyncs, eq]; exact quiet)
      · rw [if_neg early] at eq
        rw [tick, eq]
        exact .fires pending unset (Nat.le_of_not_lt early) (by rw [Resyncs, eq]; exact stored)

theorem tick_pending {w : Watchdog} {s : Seen} (pending : s.lmac.txWorkPending = true) :
    (w.tick s).leakSince = 0 := by
  have tick := leakTick w s
  generalize (w.tick s).leakSince = since at tick
  cases tick with
  | busy | fires => rfl
  | arms idle unset no | waits idle set early no => simp [pending] at idle

theorem Resyncs.idle {w : Watchdog} {s : Seen} (resyncs : w.Resyncs s) :
    s.lmac.txWorkPending = false ∧ w.leakSince ≠ 0 ∧
      txLeakTmoMs ≤ (s.now - w.leakSince).toNat := by
  have tick := leakTick w s
  generalize (w.tick s).leakSince = since at tick
  cases tick with
  | busy pending no | arms idle unset no | waits idle set early no => exact absurd resyncs no
  | fires idle set late yes => exact ⟨idle, set, late⟩

theorem Resyncs.of_late {w : Watchdog} {s : Seen} (idle : s.lmac.txWorkPending = false)
    (set : w.leakSince ≠ 0) (late : txLeakTmoMs ≤ (s.now - w.leakSince).toNat) :
    w.Resyncs s := by
  have tick := leakTick w s
  generalize (w.tick s).leakSince = since at tick
  cases tick with
  | busy pending no => simp [idle] at pending
  | arms idle unset no => exact absurd unset set
  | waits idle set early no => exact absurd early (Nat.not_lt.mpr late)
  | fires idle set late yes => exact yes

theorem armed {seen : List Seen} (set : (boot.after seen).leakSince ≠ 0) :
    ∃ before first rest, seen = before ++ first :: rest ∧
      (∀ s ∈ first :: rest, s.lmac.txWorkPending = false) ∧
      first.now = (boot.after seen).leakSince := by
  induction seen using List.reverseRecOn with
  | nil => exact absurd rfl set
  | append_singleton seen s ih =>
    rw [after_append, after_singleton] at set ⊢
    have tick := leakTick (boot.after seen) s
    generalize ((boot.after seen).tick s).leakSince = since at tick set
    cases tick with
    | busy | fires => exact absurd rfl set
    | arms idle unset no => exact ⟨seen, s, [], rfl, by simpa using idle, rfl⟩
    | waits idle set' early no =>
      obtain ⟨before, first, rest, split, quiet, now⟩ := ih set'
      refine ⟨before, first, rest ++ [s], by simp [split], ?_, now⟩
      intro s' mem
      rw [← List.cons_append, List.mem_append, List.mem_singleton] at mem
      rcases mem with old | rfl
      · exact quiet s' old
      · exact idle

theorem stays_armed {w : Watchdog} {first : Seen} {rest : List Seen}
    (idle : ∀ s ∈ first :: rest, s.lmac.txWorkPending = false) (nonzero : first.now ≠ 0)
    (earlier : w.leakSince ≤ first.now)
    (never : ∀ pre s post, first :: rest = pre ++ s :: post → ¬(w.after pre).Resyncs s) :
    (w.after (first :: rest)).leakSince ≠ 0 ∧
      (w.after (first :: rest)).leakSince ≤ first.now := by
  induction rest using List.reverseRecOn with
  | nil =>
    rw [after_singleton]
    have tick := leakTick w first
    generalize (w.tick first).leakSince = since at tick
    cases tick with
    | busy pending no => simp [idle first (by simp)] at pending
    | arms idle unset no => exact ⟨nonzero, BitVec.le_refl _⟩
    | waits idle set early no => exact ⟨set, earlier⟩
    | fires idle set late yes => exact absurd yes (never [] first [] rfl)
  | append_singleton rest s ih =>
    have before := ih (fun s' mem => idle s' (by simp at mem ⊢; tauto))
      fun pre s' post split => never pre s' (post ++ [s]) (by
        rw [← List.cons_append, split, List.append_assoc, List.cons_append])
    have quiet := never (first :: rest) s [] (by simp)
    rw [← List.cons_append, after_append, after_singleton]
    have tick := leakTick (w.after (first :: rest)) s
    generalize ((w.after (first :: rest)).tick s).leakSince = since at tick
    cases tick with
    | busy pending no => simp [idle s (by simp)] at pending
    | arms idle unset no => exact absurd unset before.1
    | waits idle set early no => exact before
    | fires idle set late yes => exact absurd yes quiet

end Watchdog

def Lasts (stretch : List Seen) : Prop :=
  ∃ first last, stretch.head? = some first ∧ stretch.getLast? = some last ∧
    txLeakTmoMs ≤ last.now.toNat - first.now.toNat

def Lmac.QueuesEmpty (m : Lmac) : Prop := ∀ ac : Fin 4, m.queued ac = 0 ∧ m.selected ac = 0

structure LeakStretch (stretch : List Seen) : Prop where
  lasts : Lasts stretch
  empty : ∀ s ∈ stretch, s.lmac.QueuesEmpty
  missing : ∀ s ∈ stretch, s.lmac.vacatedBytes < txBufferSize
  unmoved : ∀ s ∈ stretch, ∀ s' ∈ stretch,
    s.lmac.completeSeq = s'.lmac.completeSeq ∧ s.lmac.seq = s'.lmac.seq

def RepairsLeaks (seen : List Seen) : Prop :=
  ∀ before stretch next after, seen = before ++ stretch ++ next :: after → LeakStretch stretch →
    ∃ pre s post, stretch ++ [next] = pre ++ s :: post ∧
      (Watchdog.boot.after (before ++ pre)).Resyncs s

def ResyncsOnlyLeaks (seen : List Seen) : Prop :=
  ∀ before s after, seen = before ++ s :: after → (Watchdog.boot.after before).Resyncs s →
    s.lmac.vacatedBytes ≠ txBufferSize

def NoLongLeak (seen : List Seen) : Prop :=
  ∀ before stretch next after, seen = before ++ stretch ++ next :: after → ¬LeakStretch stretch

-- The time 0 stands for a timer that is not set.
def NoLongIdle (seen : List Seen) : Prop :=
  ∀ before first rest after, seen = before ++ first :: rest ++ after → first.now ≠ 0 →
    (∀ s ∈ first :: rest, s.lmac.txWorkPending = false) → ¬Lasts (first :: rest)

theorem pending_of_missing {m : Lmac} (missing : m.vacatedBytes < txBufferSize) :
    m.txWorkPending = true := by
  simp [Lmac.txWorkPending, missing]

theorem full_of_idle {m : Lmac} (idle : m.txWorkPending = false) :
    m.vacatedBytes = txBufferSize := by
  by_contra short
  rw [pending_of_missing (Nat.lt_of_le_of_ne m.vacated_le short)] at idle
  cases idle

-- Missing budget counts as pending work, so a leak is never repaired.
theorem leak_not_resynced {before stretch pre post : List Seen} {s next : Seen}
    (leak : LeakStretch stretch) (cut : stretch ++ [next] = pre ++ s :: post) :
    ¬(Watchdog.boot.after (before ++ pre)).Resyncs s := by
  intro resyncs
  have pending (s' : Seen) (mem : s' ∈ stretch) : s'.lmac.txWorkPending = true :=
    pending_of_missing (leak.missing s' mem)
  rcases List.eq_nil_or_concat post with rfl | ⟨post', x, rfl⟩
  · -- The tick after the stretch: the one before it has cleared the timer.
    obtain ⟨rfl, -⟩ := List.append_inj' cut rfl
    obtain ⟨_, last, -, atEnd, -⟩ := leak.lasts
    obtain ⟨rest, rfl⟩ := List.getLast?_eq_some_iff.mp atEnd
    apply resyncs.idle.2.1
    rw [← List.append_assoc, Watchdog.after_append, Watchdog.after_singleton]
    exact Watchdog.tick_pending (pending last (by simp))
  · have mem : s ∈ stretch := by
      have cut' : stretch ++ [next] = (pre ++ s :: post') ++ [x] := by simpa using cut
      obtain ⟨rfl, -⟩ := List.append_inj' cut' rfl
      simp
    have idle := resyncs.idle.1
    rw [pending s mem] at idle
    cases idle

section Run

variable {seen : List Seen} (increasing : seen.Pairwise fun s s' => s.now < s'.now)

include increasing

theorem leakSince_le {before after : List Seen} {s : Seen} (split : seen = before ++ s :: after) :
    (Watchdog.boot.after before).leakSince ≤ s.now := by
  by_cases set : (Watchdog.boot.after before).leakSince = 0
  · rw [set, BitVec.le_def]
    exact Nat.zero_le _
  · obtain ⟨old, first, rest, split', -, now⟩ := Watchdog.armed set
    rw [← now]
    rw [split, split'] at increasing
    have later := (List.pairwise_append.mp increasing).2.2 first (by simp) s (by simp)
    exact BitVec.le_of_lt later

theorem long_idle_resyncs {before rest after : List Seen} {first : Seen}
    (split : seen = before ++ first :: rest ++ after) (nonzero : first.now ≠ 0)
    (idle : ∀ s ∈ first :: rest, s.lmac.txWorkPending = false) (lasts : Lasts (first :: rest)) :
    ∃ pre s post, first :: rest = pre ++ s :: post ∧
      (Watchdog.boot.after (before ++ pre)).Resyncs s := by
  by_contra missing
  have never (pre : List Seen) (s : Seen) (post : List Seen)
      (cut : first :: rest = pre ++ s :: post) :
      ¬((Watchdog.boot.after before).after pre).Resyncs s := by
    intro resyncs
    rw [← Watchdog.after_append] at resyncs
    exact missing ⟨pre, s, post, cut, resyncs⟩
  obtain ⟨_, last, ⟨⟩, atEnd, long⟩ := lasts
  cases rest using List.reverseRecOn with
  | nil =>
    cases atEnd
    simp [txLeakTmoMs] at long
  | append_singleton rest last' =>
    rw [← List.cons_append, List.getLast?_concat] at atEnd
    cases atEnd
    have split' : seen = before ++ first :: (rest ++ [last] ++ after) := by simpa using split
    have earlier := leakSince_le increasing split'
    have held := Watchdog.stays_armed (fun s mem => idle s (by simp at mem ⊢; tauto)) nonzero
      earlier fun pre s post cut => never pre s (post ++ [last]) (by
        rw [← List.cons_append, cut, List.append_assoc, List.cons_append])
    apply never (first :: rest) last [] (by simp)
    refine Watchdog.Resyncs.of_late (idle last (by simp)) held.1 ?_
    have since := BitVec.le_def.mp held.2
    simp only [txLeakTmoMs] at long ⊢
    rw [BitVec.toNat_sub_of_le (BitVec.le_def.mpr (by omega))]
    omega

end Run

theorem repairs_exactly_leaks_iff (seen : List Seen)
    (increasing : seen.Pairwise fun s s' => s.now < s'.now) :
    (RepairsLeaks seen ∧ ResyncsOnlyLeaks seen) ↔ (NoLongLeak seen ∧ NoLongIdle seen) := by
  constructor
  · rintro ⟨repairs, only⟩
    constructor
    · intro before stretch next after split leak
      obtain ⟨pre, s, post, cut, resyncs⟩ := repairs before stretch next after split leak
      exact leak_not_resynced leak cut resyncs
    · intro before first rest after split nonzero idle lasts
      obtain ⟨pre, s, post, cut, resyncs⟩ :=
        long_idle_resyncs increasing split nonzero idle lasts
      apply only (before ++ pre) s (post ++ after) _ resyncs
      · exact full_of_idle resyncs.idle.1
      · rw [split, cut]
        simp
  · rintro ⟨noLeak, noIdle⟩
    constructor
    · intro before stretch next after split leak
      exact absurd leak (noLeak before stretch next after split)
    · intro before s after split resyncs full
      obtain ⟨idle, set, late⟩ := resyncs.idle
      obtain ⟨old, first, rest, split', quiet, now⟩ := Watchdog.armed set
      refine noIdle old first (rest ++ [s]) after ?_ ?_ ?_ ?_
      · rw [split, split']
        simp
      · rw [now]
        exact set
      · intro s' mem
        rw [← List.cons_append, List.mem_append, List.mem_singleton] at mem
        rcases mem with before | rfl
        · exact quiet s' before
        · exact idle
      · refine ⟨first, s, rfl, by rw [← List.cons_append, List.getLast?_concat], ?_⟩
        have order := leakSince_le increasing split
        rw [BitVec.toNat_sub_of_le order, ← now] at late
        exact late

def restingLmac (vacated : Nat) (le : vacated ≤ txBufferSize) : Lmac where
  vacatedBytes := vacated
  vacated_le := le
  completeSeq := 0
  seq := 0
  txEndCount := 0
  acPdCount := 0
  boFrameType := 0
  boTxSubstate := 0
  queued := fun _ => 0
  selected := fun _ => 0
  gateBlocked := false
  rfGatesOff := false
  otaActive := false
  purgeRequest := false
  rebooted := false
  boTmoRecov := 0
  wedgeCount := 0
  vacatedSem := 0
  txActive := false
  resyncs := 0

def restsAt (now : Jiffies) : Seen := ⟨now, restingLmac txBufferSize (Nat.le_refl _)⟩

def leaksAt (now : Jiffies) : Seen := ⟨now, restingLmac (txBufferSize - 24) (Nat.sub_le ..)⟩

theorem not_lasts {stretch seen : List Seen} (part : ∀ s ∈ stretch, s ∈ seen)
    (early : ∀ s ∈ seen, s.now.toNat < txLeakTmoMs) : ¬Lasts stretch := by
  rintro ⟨first, last, -, atEnd, long⟩
  have bound := early last (part last (List.mem_of_getLast? atEnd))
  omega

theorem repairs_exactly_leaks_iff_shortRun :
    RepairsLeaks [restsAt 1, leaksAt 200, restsAt 400] ∧
      ResyncsOnlyLeaks [restsAt 1, leaksAt 200, restsAt 400] := by
  have early : ∀ s ∈ [restsAt 1, leaksAt 200, restsAt 400], s.now.toNat < txLeakTmoMs := by
    simp [restsAt, leaksAt, txLeakTmoMs]
  refine (repairs_exactly_leaks_iff _ (by simp [restsAt, leaksAt])).mpr ⟨?_, ?_⟩
  · intro before stretch next after split leak
    exact not_lasts (fun s mem => by rw [split]; simp [mem]) early leak.lasts
  · intro before first rest after split nonzero idle
    exact not_lasts (fun s mem => by rw [split]; simp at mem ⊢; tauto) early

theorem leak_kept_and_rest_resynced :
    ¬RepairsLeaks [leaksAt 1, leaksAt 501, leaksAt 1001] ∧
      ¬ResyncsOnlyLeaks [restsAt 1, restsAt 501] := by
  constructor
  · intro repairs
    have leak : LeakStretch [leaksAt 1, leaksAt 501] :=
      { lasts := ⟨leaksAt 1, leaksAt 501, rfl, rfl, by decide⟩
        empty := by simp [leaksAt, restingLmac, Lmac.QueuesEmpty]
        missing := by simp [leaksAt, restingLmac, txBufferSize]
        unmoved := by simp [leaksAt, restingLmac] }
    obtain ⟨pre, s, post, cut, resyncs⟩ := repairs [] _ (leaksAt 1001) [] rfl leak
    exact leak_not_resynced leak cut resyncs
  · intro only
    have resyncs : (Watchdog.boot.after [restsAt 1]).Resyncs (restsAt 501) := by
      apply Watchdog.Resyncs.of_late <;> decide
    exact only [restsAt 1] (restsAt 501) [] rfl resyncs rfl

end RnodeHalow.Radio
