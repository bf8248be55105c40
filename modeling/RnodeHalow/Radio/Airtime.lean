import RnodeHalow.Radio.ChannelLoad
import RnodeHalow.Shared.Runs

set_option autoImplicit false

namespace RnodeHalow.Radio

def airtimeUpdatePeriodMs : Nat := 100
def int32Max : Int := 2 ^ 31 - 1

-- `(int32_t)x`
def toInt32 (x : Int) : Int := (BitVec.ofInt 32 x).toInt

structure LbtCtx where
  timeLastCycleUpdateUs : Int
  airtimeTimeLastTxStarted : Int
  airtimeTimeTxFromLastCycleUpdateUs : Int
  airtimeTxActive : Bool
  lastActivityUs : Int
  deriving DecidableEq, Repr

structure Charge where
  airtimeUs : Int
  cycleUs : Int
  deriving DecidableEq, Repr

namespace LbtCtx

def markActive (startUs activityUs : Int) (c : LbtCtx) : LbtCtx :=
  let c := if c.airtimeTxActive then c
    else { c with airtimeTxActive := true, airtimeTimeLastTxStarted := startUs }
  { c with lastActivityUs := activityUs }

def markDeactive (nowUs : Int) (c : LbtCtx) : LbtCtx :=
  if c.airtimeTxActive then
    let startUs := if c.airtimeTimeLastTxStarted = 0 then c.timeLastCycleUpdateUs
      else c.airtimeTimeLastTxStarted
    let dt := nowUs - startUs
    let acc := min (c.airtimeTimeTxFromLastCycleUpdateUs + dt) int32Max
    { c with
      airtimeTimeTxFromLastCycleUpdateUs :=
        if dt > 0 then toInt32 acc else c.airtimeTimeTxFromLastCycleUpdateUs
      airtimeTimeLastTxStarted := 0
      airtimeTxActive := false }
  else c

def stale (currentTimeMs : Int) (doneMs : BitVec 32) (c : LbtCtx) : Bool :=
  c.airtimeTxActive && doneMs != 0#32 &&
    decide ((BitVec.ofInt 32 currentTimeMs - doneMs).toNat > 2 * airtimeUpdatePeriodMs)

def cycleLength (nowUs : Int) (c : LbtCtx) : Int :=
  if nowUs - c.timeLastCycleUpdateUs ≤ 0 then 1 else nowUs - c.timeLastCycleUpdateUs

-- `g_lbt_tx_done_ms` is read for the stale rule, and once more where that rule applies.
def settle (currentTimeMs nowUs : Int) (doneMs doneMsLater : BitVec 32) (c : LbtCtx) :
    Int × LbtCtx :=
  let airtimeUs := c.airtimeTimeTxFromLastCycleUpdateUs
  let startUs := c.airtimeTimeLastTxStarted
  if c.airtimeTxActive && !c.stale currentTimeMs doneMs then
    (toInt32 (airtimeUs + (nowUs - startUs)), { c with airtimeTimeLastTxStarted := nowUs })
  else if c.airtimeTxActive then
    let endUs := max ((doneMsLater.toNat : Int) * 1000) startUs
    (toInt32 (min (airtimeUs + (endUs - startUs)) int32Max),
      { c with airtimeTimeLastTxStarted := 0, airtimeTxActive := false })
  else (airtimeUs, { c with airtimeTimeLastTxStarted := 0 })

def closeCycle (currentTimeMs nowUs : Int) (doneMs doneMsLater : BitVec 32) (c : LbtCtx) :
    Charge × LbtCtx :=
  let cycleUs := c.cycleLength nowUs
  let r := c.settle currentTimeMs nowUs doneMs doneMsLater
  (⟨if r.1 > cycleUs then toInt32 cycleUs else r.1, cycleUs⟩,
    { r.2 with airtimeTimeTxFromLastCycleUpdateUs := 0, timeLastCycleUpdateUs := nowUs })

end LbtCtx

structure Lbt where
  ledTx : Bool
  -- `g_lbt_ctx_mutex.hdl != NULL`
  mutexReady : Bool
  ctx : Option LbtCtx
  chload : Chload

namespace Lbt

def withCtx (lock : Int) (f : LbtCtx → LbtCtx) (l : Lbt) : Lbt :=
  if !l.mutexReady then l else if lock ≠ 0 then l else { l with ctx := l.ctx.map f }

def halowLbtSetTxAsActive (lock startUs activityUs : Int) (l : Lbt) : Lbt :=
  { l with ledTx := true }.withCtx lock (LbtCtx.markActive startUs activityUs)

def halowLbtSetTxAsDeactive (lock nowUs : Int) (l : Lbt) : Lbt :=
  { l with ledTx := false }.withCtx lock (LbtCtx.markDeactive nowUs)

def closeCycle (currentTimeMs nowUs : Int) (doneMs doneMsLater : BitVec 32) (l : Lbt) : Lbt :=
  match l.ctx with
  | none => l
  | some ctx =>
    let r := ctx.closeCycle currentTimeMs nowUs doneMs doneMsLater
    { l with
      ctx := some r.2
      chload := (l.chload.halowChloadNoteTxUs (BitVec.ofInt 32 r.1.airtimeUs)).halowChloadCycle
        (BitVec.ofInt 32 r.1.cycleUs) }

end Lbt

inductive LbtEvent where
  | active (lock startUs activityUs : Int)
  | deactive (lock nowUs : Int)
  | close (currentTimeMs nowUs : Int) (doneMs doneMsLater : BitVec 32)
  deriving DecidableEq, Repr

namespace LbtEvent

def nowUs : LbtEvent → Int
  | .active _ startUs _ => startUs
  | .deactive _ nowUs => nowUs
  | .close _ nowUs _ _ => nowUs

def closes : LbtEvent → Bool
  | .close .. => true
  | _ => false

def Locks : LbtEvent → Prop
  | .active lock _ _ => lock = 0
  | .deactive lock _ => lock = 0
  | .close .. => True

def onCtx (c : LbtCtx) : LbtEvent → LbtCtx
  | .active _ startUs activityUs => c.markActive startUs activityUs
  | .deactive _ nowUs => c.markDeactive nowUs
  | .close currentTimeMs nowUs doneMs doneMsLater =>
    (c.closeCycle currentTimeMs nowUs doneMs doneMsLater).2

def charges (c : LbtCtx) : LbtEvent → List Int
  | .close currentTimeMs nowUs doneMs doneMsLater =>
    [(c.closeCycle currentTimeMs nowUs doneMs doneMsLater).1.airtimeUs]
  | _ => []

def isStale (c : LbtCtx) : LbtEvent → Bool
  | .close currentTimeMs _ doneMs _ => c.stale currentTimeMs doneMs
  | _ => false

def marks (marked : Bool) : LbtEvent → Bool
  | .active .. => true
  | .deactive .. => false
  | .close .. => marked

end LbtEvent

namespace Lbt

def apply (l : Lbt) : LbtEvent → Lbt
  | .active lock startUs activityUs => l.halowLbtSetTxAsActive lock startUs activityUs
  | .deactive lock nowUs => l.halowLbtSetTxAsDeactive lock nowUs
  | .close currentTimeMs nowUs doneMs doneMsLater =>
    l.closeCycle currentTimeMs nowUs doneMs doneMsLater

def charges : Lbt → List LbtEvent → List Int
  | _, [] => []
  | l, e :: rest => (l.ctx.map (e.charges ·)).getD [] ++ (l.apply e).charges rest

end Lbt

-- The time from `sinceUs` to the last event during which transmission is marked active.
def activeUs : Bool → Int → List LbtEvent → Int
  | _, _, [] => 0
  | marked, sinceUs, e :: rest =>
    (if marked then e.nowUs - sinceUs else 0) + activeUs (e.marks marked) e.nowUs rest

theorem activeUs_append (marked : Bool) (sinceUs : Int) (events : List LbtEvent) (e : LbtEvent)
    (rest : List LbtEvent) :
    activeUs marked sinceUs (events ++ e :: rest) = activeUs marked sinceUs (events ++ [e]) +
      activeUs ((events ++ [e]).foldl LbtEvent.marks marked) e.nowUs rest := by
  induction events generalizing marked sinceUs with
  | nil => simp [activeUs]
  | cons d events ih =>
    simp only [List.cons_append, activeUs, ih, List.foldl_cons]
    omega

theorem toInt32_of_bounds {x : Int} (low : 0 ≤ x) (high : x < 2 ^ 31) : toInt32 x = x := by
  rw [toInt32, BitVec.toInt_ofInt]
  exact Int.bmod_eq_of_le (by omega) (by omega)

namespace LbtCtx

def openUs (c : LbtCtx) (atUs : Int) : Int :=
  if c.airtimeTxActive then atUs - c.airtimeTimeLastTxStarted else 0

structure Books (c : LbtCtx) (sinceUs atUs spentUs : Int) : Prop where
  last : c.timeLastCycleUpdateUs = sinceUs
  started : c.airtimeTxActive = true → 0 < c.airtimeTimeLastTxStarted ∧
    sinceUs ≤ c.airtimeTimeLastTxStarted ∧ c.airtimeTimeLastTxStarted ≤ atUs
  stored : 0 ≤ c.airtimeTimeTxFromLastCycleUpdateUs
  spent : c.airtimeTimeTxFromLastCycleUpdateUs + c.openUs atUs = spentUs
  bound : spentUs ≤ atUs - sinceUs

def passedUs (c : LbtCtx) (atUs nowUs : Int) : Int := if c.airtimeTxActive then nowUs - atUs else 0

variable {c : LbtCtx} {sinceUs atUs spentUs nowUs : Int}

theorem openUs_add_passedUs (c : LbtCtx) (atUs nowUs : Int) :
    c.openUs atUs + c.passedUs atUs nowUs = c.openUs nowUs := by
  unfold openUs passedUs
  split <;> omega

theorem Books.wait (books : c.Books sinceUs atUs spentUs) (later : atUs ≤ nowUs) :
    c.Books sinceUs nowUs (spentUs + c.passedUs atUs nowUs) where
  last := books.last
  started on := by
    have started := books.started on
    omega
  stored := books.stored
  spent := by
    rw [← openUs_add_passedUs c atUs, ← books.spent, Int.add_assoc]
  bound := by
    have bound := books.bound
    unfold passedUs
    split <;> omega

theorem Books.active (books : c.Books sinceUs nowUs spentUs) (positive : 0 < nowUs)
    (begun : sinceUs ≤ nowUs) (activityUs : Int) :
    (c.markActive nowUs activityUs).Books sinceUs nowUs spentUs := by
  obtain ⟨last, started, stored, spent, bound⟩ := books
  by_cases on : c.airtimeTxActive = true
  · rw [markActive, if_pos on]
    exact ⟨last, started, stored, spent, bound⟩
  · rw [openUs, if_neg on] at spent
    rw [markActive, if_neg on]
    refine ⟨last, fun _ => ⟨positive, begun, Int.le_refl _⟩, stored, ?_, bound⟩
    change c.airtimeTimeTxFromLastCycleUpdateUs + (nowUs - nowUs) = spentUs
    omega

theorem Books.markDeactive (books : c.Books sinceUs nowUs spentUs) (on : c.airtimeTxActive = true)
    (short : nowUs - sinceUs < 2 ^ 31) :
    c.markDeactive nowUs =
      { c with
        airtimeTimeTxFromLastCycleUpdateUs := spentUs
        airtimeTimeLastTxStarted := 0
        airtimeTxActive := false } := by
  obtain ⟨last, started, stored, spent, bound⟩ := books
  obtain ⟨positive, begun, past⟩ := started on
  rw [openUs, if_pos on] at spent
  have known : c.airtimeTimeLastTxStarted ≠ 0 := by omega
  have cut : min (c.airtimeTimeTxFromLastCycleUpdateUs +
      (nowUs - c.airtimeTimeLastTxStarted)) int32Max = spentUs := by
    unfold int32Max
    omega
  rw [LbtCtx.markDeactive, if_pos on]
  simp only [if_neg known, cut]
  rw [toInt32_of_bounds (by omega) (by omega)]
  split
  · rfl
  · rw [show c.airtimeTimeTxFromLastCycleUpdateUs = spentUs by omega]

theorem Books.deactive (books : c.Books sinceUs nowUs spentUs) (short : nowUs - sinceUs < 2 ^ 31) :
    (c.markDeactive nowUs).Books sinceUs nowUs spentUs := by
  by_cases on : c.airtimeTxActive = true
  · rw [books.markDeactive on short]
    obtain ⟨last, started, stored, spent, bound⟩ := books
    have past := started on
    rw [openUs, if_pos on] at spent
    have whole : 0 ≤ spentUs := by omega
    exact ⟨last, fun off => absurd off Bool.false_ne_true, whole, Int.add_zero _, bound⟩
  · rw [LbtCtx.markDeactive, if_neg on]
    exact books

section Closing

variable {currentTimeMs : Int} {doneMs : BitVec 32} (doneMsLater : BitVec 32)

theorem settle_of_active (on : c.airtimeTxActive = true)
    (fresh : c.stale currentTimeMs doneMs = false) :
    c.settle currentTimeMs nowUs doneMs doneMsLater =
      (toInt32 (c.airtimeTimeTxFromLastCycleUpdateUs + (nowUs - c.airtimeTimeLastTxStarted)),
        { c with airtimeTimeLastTxStarted := nowUs }) := by
  rw [settle, on, fresh]
  rfl

theorem settle_of_idle (off : ¬c.airtimeTxActive = true) :
    c.settle currentTimeMs nowUs doneMs doneMsLater =
      (c.airtimeTimeTxFromLastCycleUpdateUs, { c with airtimeTimeLastTxStarted := 0 }) := by
  rw [settle, eq_false_of_ne_true off]
  rfl

theorem Books.settle (books : c.Books sinceUs nowUs spentUs) (short : nowUs - sinceUs < 2 ^ 31)
    (fresh : c.stale currentTimeMs doneMs = false) :
    (c.settle currentTimeMs nowUs doneMs doneMsLater).1 = spentUs := by
  obtain ⟨last, started, stored, spent, bound⟩ := books
  by_cases on : c.airtimeTxActive = true
  · have past := started on
    rw [openUs, if_pos on] at spent
    rw [settle_of_active doneMsLater on fresh, spent]
    exact toInt32_of_bounds (by omega) (by omega)
  · rw [openUs, if_neg on, Int.add_zero] at spent
    rw [settle_of_idle doneMsLater on, spent]

theorem Books.close (books : c.Books sinceUs nowUs spentUs) (begun : sinceUs ≤ nowUs)
    (short : nowUs - sinceUs < 2 ^ 31) (fresh : c.stale currentTimeMs doneMs = false) :
    (c.closeCycle currentTimeMs nowUs doneMs doneMsLater).1.airtimeUs = spentUs := by
  have length : spentUs ≤ c.cycleLength nowUs := by
    have bound := books.bound
    rw [cycleLength, books.last]
    split <;> omega
  simp only [closeCycle, books.settle doneMsLater short fresh]
  exact if_neg (Int.not_lt.mpr length)

theorem books_of_close (c : LbtCtx) (fresh : c.stale currentTimeMs doneMs = false)
    (positive : 0 < nowUs) :
    (c.closeCycle currentTimeMs nowUs doneMs doneMsLater).2.Books nowUs nowUs 0 := by
  by_cases on : c.airtimeTxActive = true
  · rw [closeCycle, settle_of_active doneMsLater on fresh]
    refine ⟨rfl, fun _ => ⟨positive, Int.le_refl _, Int.le_refl _⟩, Int.le_refl _, ?_, by omega⟩
    change 0 + (if c.airtimeTxActive = true then nowUs - nowUs else 0) = 0
    split <;> omega
  · rw [closeCycle, settle_of_idle doneMsLater on]
    refine ⟨rfl, fun off => absurd off on, Int.le_refl _, ?_, by omega⟩
    change 0 + (if c.airtimeTxActive = true then nowUs - 0 else 0) = 0
    rw [if_neg on, Int.add_zero]

theorem closeCycle_active (c : LbtCtx) (fresh : c.stale currentTimeMs doneMs = false) :
    (c.closeCycle currentTimeMs nowUs doneMs doneMsLater).2.airtimeTxActive =
      c.airtimeTxActive := by
  by_cases on : c.airtimeTxActive = true
  · rw [closeCycle, settle_of_active doneMsLater on fresh]
  · rw [closeCycle, settle_of_idle doneMsLater on]

end Closing

end LbtCtx

def LbtCtx.charges : LbtCtx → List LbtEvent → List Int
  | _, [] => []
  | c, e :: rest => e.charges c ++ charges (e.onCtx c) rest

theorem LbtCtx.charges_append (c : LbtCtx) (events rest : List LbtEvent) :
    c.charges (events ++ rest) = c.charges events ++ charges (events.foldl LbtEvent.onCtx c) rest := by
  induction events generalizing c with
  | nil => rfl
  | cons e events ih =>
    rw [List.cons_append, charges, charges, ih, List.append_assoc, List.foldl_cons]

namespace LbtEvent

variable {c : LbtCtx} {e : LbtEvent} {sinceUs atUs spentUs : Int}

theorem onCtx_active (fresh : e.isStale c = false) :
    (e.onCtx c).airtimeTxActive = e.marks c.airtimeTxActive := by
  cases e with
  | active lock startUs activityUs =>
    change (c.markActive startUs activityUs).airtimeTxActive = true
    unfold LbtCtx.markActive
    split <;> rename_i on
    · exact on
    · rfl
  | deactive lock nowUs =>
    change (c.markDeactive nowUs).airtimeTxActive = false
    unfold LbtCtx.markDeactive
    split <;> rename_i on
    · rfl
    · exact eq_false_of_ne_true on
  | close currentTimeMs nowUs doneMs doneMsLater =>
    exact LbtCtx.closeCycle_active doneMsLater c fresh

theorem marks_of_close {marked : Bool} (closing : e.closes = true) : e.marks marked = marked := by
  cases e with
  | close => rfl
  | _ => cases closing

theorem isStale_of_mark (c : LbtCtx) (mark : e.closes = false) : e.isStale c = false := by
  cases e with
  | close => cases mark
  | _ => rfl

theorem charges_of_mark (c : LbtCtx) (mark : e.closes = false) : e.charges c = [] := by
  cases e with
  | close => cases mark
  | _ => rfl

theorem books_mark (books : c.Books sinceUs e.nowUs spentUs) (mark : e.closes = false)
    (begun : sinceUs ≤ e.nowUs) (positive : 0 < e.nowUs) (short : e.nowUs - sinceUs < 2 ^ 31) :
    (e.onCtx c).Books sinceUs e.nowUs spentUs := by
  cases e with
  | active lock startUs activityUs => exact books.active positive begun activityUs
  | deactive lock nowUs => exact books.deactive short
  | close => cases mark

theorem books_close (books : c.Books sinceUs e.nowUs spentUs) (closing : e.closes = true)
    (begun : sinceUs ≤ e.nowUs) (short : e.nowUs - sinceUs < 2 ^ 31)
    (fresh : e.isStale c = false) : e.charges c = [spentUs] := by
  cases e with
  | close currentTimeMs nowUs doneMs doneMsLater =>
    exact congrArg (fun us => [us]) (books.close doneMsLater begun short fresh)
  | _ => cases closing

theorem books_closed (c : LbtCtx) (closing : e.closes = true) (positive : 0 < e.nowUs)
    (fresh : e.isStale c = false) : (e.onCtx c).Books e.nowUs e.nowUs 0 := by
  cases e with
  | close currentTimeMs nowUs doneMs doneMsLater =>
    exact LbtCtx.books_of_close doneMsLater c fresh positive
  | _ => cases closing

theorem charges_of_marks {events : List LbtEvent} (mark : ∀ e ∈ events, e.closes = false) :
    c.charges events = [] := by
  induction events generalizing c with
  | nil => rfl
  | cons e events ih =>
    rw [LbtCtx.charges, charges_of_mark c (mark e (by simp)), List.nil_append]
    exact ih fun d mem => mark d (by simp [mem])

def Ordered (events : List LbtEvent) : Prop := events.Pairwise fun e e' => e.nowUs ≤ e'.nowUs

end LbtEvent

open LbtEvent

theorem LbtCtx.Books.charges_cycle {c : LbtCtx} {sinceUs atUs spentUs : Int} {close : LbtEvent}
    (middle : List LbtEvent) (books : c.Books sinceUs atUs spentUs) (begun : sinceUs ≤ atUs)
    (positive : 0 < atUs) (marks : ∀ e ∈ middle, e.closes = false) (closing : close.closes = true)
    (ordered : Ordered (middle ++ [close])) (later : ∀ e ∈ middle ++ [close], atUs ≤ e.nowUs)
    (short : close.nowUs - sinceUs < 2 ^ 31)
    (fresh : close.isStale (middle.foldl onCtx c) = false) :
    c.charges (middle ++ [close]) =
      [spentUs + activeUs c.airtimeTxActive atUs (middle ++ [close])] := by
  induction middle generalizing c atUs spentUs with
  | nil =>
    have next : atUs ≤ close.nowUs := later close (by simp)
    have paid := books_close (books.wait next) closing (by omega) short fresh
    rw [List.nil_append, charges, paid, charges, activeUs, activeUs, passedUs, Int.add_zero,
      List.append_nil]
  | cons e middle ih =>
    obtain ⟨after, ordered⟩ := List.pairwise_cons.mp ordered
    have next : atUs ≤ e.nowUs := later e (by simp)
    have last : e.nowUs ≤ close.nowUs := after close (by simp)
    have mark := marks e (by simp)
    have moved := books_mark (books.wait next) mark (by omega) (by omega) (by omega)
    have rest := ih moved (by omega) (by omega) (fun d mem => marks d (by simp [mem])) ordered
      after fresh
    rw [List.cons_append, charges, charges_of_mark c mark, List.nil_append, rest,
      onCtx_active (isStale_of_mark c mark), activeUs, passedUs, Int.add_assoc]

section Run

variable {c : LbtCtx} {events : List LbtEvent}

def Fresh (c : LbtCtx) (events : List LbtEvent) : Prop :=
  Runs.Along onCtx (fun c e => e.isStale c = false) c events

-- Consecutive closings are less than 2^31 us apart.
def ShortCycles (events : List LbtEvent) : Prop :=
  ∀ before first middle second after, events = before ++ first :: (middle ++ second :: after) →
    first.closes = true → second.closes = true → (∀ e ∈ middle, e.closes = false) →
      second.nowUs - first.nowUs < 2 ^ 31

theorem marked_eq (fresh : Fresh c events) :
    (events.foldl onCtx c).airtimeTxActive = events.foldl marks c.airtimeTxActive := by
  induction events generalizing c with
  | nil => rfl
  | cons e events ih =>
    rw [List.foldl_cons, List.foldl_cons, ih fresh.tail, onCtx_active fresh.head]

variable (ordered : Ordered events) (positive : ∀ e ∈ events, 0 < e.nowUs) (fresh : Fresh c events)
  (short : ShortCycles events)

include ordered positive fresh short in
theorem charges_cycle {before middle after : List LbtEvent} {first second : LbtEvent}
    (split : events = before ++ first :: (middle ++ second :: after))
    (opening : first.closes = true) (closing : second.closes = true)
    (mark : ∀ e ∈ middle, e.closes = false) :
    LbtCtx.charges ((before ++ [first]).foldl onCtx c) (middle ++ [second]) =
      [activeUs (before.foldl marks c.airtimeTxActive) first.nowUs (middle ++ [second])] := by
  have length := short before first middle second after split opening closing mark
  have begins : 0 < first.nowUs := positive first (by simp [split])
  have books : (first.onCtx (before.foldl onCtx c)).Books first.nowUs first.nowUs 0 :=
    books_closed _ opening begins (fresh before first _ split)
  rw [split, Ordered, List.pairwise_append] at ordered
  obtain ⟨-, ordered, -⟩ := ordered
  obtain ⟨later, ordered⟩ := List.pairwise_cons.mp ordered
  have upTo : middle ++ second :: after = (middle ++ [second]) ++ after := by simp
  rw [upTo] at ordered later
  have found : events = (before ++ first :: middle) ++ second :: after := by simp [split]
  have still : second.isStale (middle.foldl onCtx (first.onCtx (before.foldl onCtx c))) = false := by
    have closed := fresh (before ++ first :: middle) second after found
    rwa [List.foldl_append, List.foldl_cons] at closed
  have paid := books.charges_cycle middle (Int.le_refl _) begins mark closing
    (List.pairwise_append.mp ordered).1 (fun e mem => later e (List.mem_append_left _ mem)) length
    still
  have flag : (first.onCtx (before.foldl onCtx c)).airtimeTxActive =
      before.foldl marks c.airtimeTxActive := by
    have early : Fresh c before := Runs.Along.left (split ▸ fresh)
    rw [onCtx_active (fresh before first _ split), marked_eq early, marks_of_close opening]
  rw [List.foldl_concat, paid, flag, Int.zero_add]

include ordered positive fresh short in
theorem sum_charges_span {before span after : List LbtEvent} {first second : LbtEvent}
    (split : events = before ++ first :: (span ++ second :: after))
    (opening : first.closes = true) (closing : second.closes = true) :
    (LbtCtx.charges ((before ++ [first]).foldl onCtx c) (span ++ [second])).sum =
      activeUs (before.foldl marks c.airtimeTxActive) first.nowUs (span ++ [second]) := by
  -- the induction is on the closings within the span
  induction h : span.length using Nat.strong_induction_on generalizing before first span with
  | _ n ih =>
    cases found : span.find? closes with
    | none =>
      have mark : ∀ e ∈ span, e.closes = false := by
        simpa using found
      rw [charges_cycle ordered positive fresh short split opening closing mark, List.sum_singleton]
    | some close =>
      obtain ⟨ends, middle, rest, rfl, mark⟩ := List.find?_eq_some_iff_append.mp found
      have mark : ∀ e ∈ middle, e.closes = false := by
        simpa using mark
      have one : events = before ++ first :: (middle ++ close :: (rest ++ second :: after)) := by
        simp [split]
      have more : events = (before ++ first :: middle) ++ close :: (rest ++ second :: after) := by
        simp [split]
      have shorter : rest.length < n := by
        rw [← h, List.length_append, List.length_cons]
        omega
      have paid := charges_cycle ordered positive fresh short one opening ends mark
      have later := ih rest.length shorter more ends rfl
      have state : ((before ++ first :: middle) ++ [close]).foldl onCtx c =
          (middle ++ [close]).foldl onCtx ((before ++ [first]).foldl onCtx c) := by
        simp
      have marked : (before ++ first :: middle).foldl marks c.airtimeTxActive =
          (middle ++ [close]).foldl marks (before.foldl marks c.airtimeTxActive) := by
        simp [marks_of_close opening, marks_of_close ends]
      rw [state, marked] at later
      have joined : (middle ++ close :: rest) ++ [second] =
          (middle ++ [close]) ++ (rest ++ [second]) := by simp
      rw [joined, LbtCtx.charges_append, List.sum_append, paid, List.sum_singleton, later,
        List.append_assoc, List.singleton_append, activeUs_append _ _ middle close (rest ++ [second])]

end Run

namespace Lbt

variable {l : Lbt} {c : LbtCtx}

theorem apply_ctx {e : LbtEvent} (ready : l.mutexReady = true) (present : l.ctx = some c)
    (locks : e.Locks) :
    (l.apply e).mutexReady = true ∧ (l.apply e).ctx = some (e.onCtx c) := by
  cases e with
  | active lock startUs activityUs =>
    simp only [Locks] at locks
    simp [apply, halowLbtSetTxAsActive, withCtx, ready, present, locks, onCtx]
  | deactive lock nowUs =>
    simp only [Locks] at locks
    simp [apply, halowLbtSetTxAsDeactive, withCtx, ready, present, locks, onCtx]
  | close currentTimeMs nowUs doneMs doneMsLater =>
    simp [apply, closeCycle, ready, present, onCtx]

theorem run_ctx {events : List LbtEvent} (ready : l.mutexReady = true) (present : l.ctx = some c)
    (locks : ∀ e ∈ events, e.Locks) :
    (events.foldl apply l).mutexReady = true ∧
      (events.foldl apply l).ctx = some (events.foldl onCtx c) := by
  induction events generalizing l c with
  | nil => exact ⟨ready, present⟩
  | cons e events ih =>
    obtain ⟨ready, present⟩ := apply_ctx ready present (locks e (by simp))
    exact ih ready present fun d mem => locks d (by simp [mem])

theorem charges_eq {events : List LbtEvent} (ready : l.mutexReady = true)
    (present : l.ctx = some c) (locks : ∀ e ∈ events, e.Locks) :
    l.charges events = c.charges events := by
  induction events generalizing l c with
  | nil => rfl
  | cons e events ih =>
    have next := apply_ctx ready present (locks e (by simp))
    rw [charges, LbtCtx.charges, present, ih next.1 next.2 fun d mem => locks d (by simp [mem])]
    rfl

theorem run_charges_eq {before rest : List LbtEvent} (ready : l.mutexReady = true)
    (present : l.ctx = some c) (locks : ∀ e ∈ before ++ rest, e.Locks) :
    (before.foldl apply l).charges rest = LbtCtx.charges (before.foldl onCtx c) rest := by
  have state := run_ctx ready present fun e mem => locks e (List.mem_append_left rest mem)
  exact charges_eq state.1 state.2 fun e mem => locks e (List.mem_append_right before mem)

theorem airtime_exact (events : List LbtEvent) (ready : l.mutexReady = true)
    (present : l.ctx = some c) (locks : ∀ e ∈ events, e.Locks) (ordered : Ordered events)
    (positive : ∀ e ∈ events, 0 < e.nowUs) (fresh : Fresh c events) (short : ShortCycles events) :
    (∀ before first middle second after,
      events = before ++ first :: (middle ++ second :: after) → first.closes = true →
      second.closes = true → (∀ e ∈ middle, e.closes = false) →
        ((before ++ first :: middle).foldl apply l).charges [second] =
          [activeUs (before.foldl marks c.airtimeTxActive) first.nowUs (middle ++ [second])]) ∧
      ∀ before first span second after,
        events = before ++ first :: (span ++ second :: after) → first.closes = true →
        second.closes = true →
          (((before ++ [first]).foldl apply l).charges (span ++ [second])).sum =
            activeUs (before.foldl marks c.airtimeTxActive) first.nowUs (span ++ [second]) := by
  have upTo (part after : List LbtEvent) : events = part ++ after → ∀ e ∈ part, e.Locks := by
    intro split e mem
    apply locks
    rw [split]
    exact List.mem_append_left after mem
  constructor
  · intro before first middle second after split opening closing mark
    have paid := charges_cycle ordered positive fresh short split opening closing mark
    rw [LbtCtx.charges_append, charges_of_marks mark, List.nil_append] at paid
    rw [run_charges_eq ready present (upTo _ after (by simp [split])), ← paid]
    simp
  · intro before first span second after split opening closing
    rw [run_charges_eq ready present (upTo _ after (by simp [split]))]
    exact sum_charges_span ordered positive fresh short split opening closing

def twoTransmissions : List LbtEvent :=
  [.active 0 40 41, .close 100 100 0#32 0#32, .deactive 0 12100, .active 0 20100 20101,
    .deactive 0 25100, .close 130 30100 0#32 0#32]

def atBoot : Lbt := ⟨false, true, some ⟨0, 0, 0, false, 0⟩, ChannelLoad.usedMeter⟩

theorem stale_zero (c : LbtCtx) (currentTimeMs : Int) : c.stale currentTimeMs 0#32 = false := by
  simp [LbtCtx.stale]

theorem airtime_exact_twoTransmissions :
    ((twoTransmissions.take 5).foldl apply atBoot).charges [.close 130 30100 0#32 0#32] =
      [17000] := by
  have fresh : Fresh ⟨0, 0, 0, false, 0⟩ twoTransmissions := by
    intro before e later split
    have mem : e ∈ twoTransmissions := by simp [split]
    simp only [twoTransmissions, List.mem_cons, List.not_mem_nil, or_false] at mem
    rcases mem with rfl | rfl | rfl | rfl | rfl | rfl <;> first | rfl | exact stale_zero _ _
  have short : ShortCycles twoTransmissions := by
    intro before first middle second after split _ _ _
    have within : ∀ e ∈ twoTransmissions, 40 ≤ e.nowUs ∧ e.nowUs ≤ 30100 := by decide
    have begins := within first (by simp [split])
    have ends := within second (by simp [split])
    omega
  have all := airtime_exact (l := atBoot) (c := ⟨0, 0, 0, false, 0⟩) twoTransmissions rfl rfl
    (by simp [twoTransmissions, Locks]) (by unfold Ordered; decide) (by decide) fresh short
  exact all.1 [.active 0 40 41] (.close 100 100 0#32 0#32)
    [.deactive 0 12100, .active 0 20100 20101, .deactive 0 25100] _ [] rfl rfl rfl (by decide)

end Lbt

end RnodeHalow.Radio
