import RnodeHalow.Wire
import RnodeHalow.Shared.Rolling
import Mathlib.Data.Rat.Floor

set_option autoImplicit false

namespace RnodeHalow.Radio

namespace ChannelLoad

def windows : Nat := 10
def symUs : Nat := 36
def sifsUs : Nat := 64
def ndbps : List Nat := [12, 24, 36, 48, 72, 96, 108, 120, 6]

def rxFrameUs (len : BitVec 16) (mcs : Byte) : BitVec 32 :=
  let idx := if mcs.toNat = 10 then 8 else mcs.toNat
  let idx := if idx > 8 then 0 else idx
  let bits := len.toNat * 8 + 14
  let syms := (bits + ndbps.getD idx 0 - 1) / ndbps.getD idx 0
  let syms := if syms = 0 then 1 else syms
  BitVec.ofNat 32 (syms * symUs + sifsUs)

structure Window where
  txUs : BitVec 32
  rxUs : BitVec 32
  deriving DecidableEq, Repr

end ChannelLoad

open ChannelLoad

structure Chload where
  ring : Rolling Window windows
  txOpenUs : BitVec 32
  rxOpenUs : BitVec 32

namespace Chload

def halowChloadReset (_ : Chload) : Chload where
  ring := ⟨fun _ => ⟨0#32, 0#32⟩, ⟨0, by decide⟩⟩
  txOpenUs := 0#32
  rxOpenUs := 0#32

-- The sum wrapped around exactly when it is less than what was added.
def accumulate (sum us : BitVec 32) : BitVec 32 :=
  if sum + us < us then 0xFFFFFFFF#32 else sum + us

def halowChloadNoteTxUs (us : BitVec 32) (c : Chload) : Chload :=
  { c with txOpenUs := accumulate c.txOpenUs us }

def halowChloadNoteRx (len : BitVec 16) (mcs : Byte) (c : Chload) : Chload :=
  { c with rxOpenUs := accumulate c.rxOpenUs (rxFrameUs len mcs) }

def halowChloadCycle (_cycleUs : BitVec 32) (c : Chload) : Chload where
  ring := c.ring.push ⟨c.txOpenUs, c.rxOpenUs⟩
  txOpenUs := 0#32
  rxOpenUs := 0#32

def winUs : Nat := 100000 * windows

def halowChloadPercent (c : Chload) : Byte :=
  let tx := Tally.total (fun w => w.txUs.toNat) c.ring.cells
  let rx := Tally.total (fun w => w.rxUs.toNat) c.ring.cells
  let big := if tx > rx then tx else rx
  if big = 0 then 0#8
  else if big ≥ winUs then 100#8
  else BitVec.ofNat 8 ((big * 100 + winUs / 2) / winUs)

end Chload

namespace ChannelLoad

inductive Call where
  | noteTxUs (us : BitVec 32)
  | noteRx (len : BitVec 16) (mcs : Byte)
  | cycle (cycleUs : BitVec 32)
  deriving DecidableEq, Repr

namespace Call

def apply (c : Chload) : Call → Chload
  | .noteTxUs us => c.halowChloadNoteTxUs us
  | .noteRx len mcs => c.halowChloadNoteRx len mcs
  | .cycle cycleUs => c.halowChloadCycle cycleUs

def isCycle : Call → Bool
  | .cycle _ => true
  | _ => false

def txUs : Call → Nat
  | .noteTxUs us => us.toNat
  | _ => 0

def rxUs : Call → Nat
  | .noteRx len mcs => (rxFrameUs len mcs).toNat
  | _ => 0

end Call

def run (c : Chload) (calls : List Call) : Chload :=
  calls.foldl Call.apply c.halowChloadReset

def closedCycles (calls : List Call) : List (List Call) :=
  (calls.splitOnP Call.isCycle).dropLast

def saturated (us : Nat) : Nat := min us (2 ^ 32 - 1)

def cycleUs (us : Call → Nat) (cycle : List Call) : Nat := saturated (cycle.map us).sum

def windowUs (us : Call → Nat) (calls : List Call) : Nat :=
  (((closedCycles calls).reverse.take 10).map (cycleUs us)).sum

def busierUs (calls : List Call) : Nat := max (windowUs Call.txUs calls) (windowUs Call.rxUs calls)

def AtMost (cycle more : List Call) : Prop :=
  (cycle.map Call.txUs).sum ≤ (more.map Call.txUs).sum ∧
    (cycle.map Call.rxUs).sum ≤ (more.map Call.rxUs).sum

theorem accumulate_toNat (sum us : BitVec 32) :
    (Chload.accumulate sum us).toNat = saturated (sum.toNat + us.toNat) := by
  have left := sum.isLt
  have right := us.isLt
  unfold Chload.accumulate saturated
  split <;> rename_i wrapped <;> simp only [BitVec.lt_def, BitVec.toNat_add] at wrapped ⊢
  · rw [Nat.min_eq_right (by omega)]
    rfl
  · omega

theorem saturated_add (a b : Nat) : saturated (saturated a + b) = saturated (a + b) := by
  unfold saturated
  omega

theorem saturated_mono {a b : Nat} (le : a ≤ b) : saturated a ≤ saturated b := by
  unfold saturated
  omega

theorem cycleUs_concat (us : Call → Nat) (cycle : List Call) (note : Call) :
    cycleUs us (cycle ++ [note]) = saturated (cycleUs us cycle + us note) := by
  rw [cycleUs, cycleUs, saturated_add, List.map_append, List.sum_append, List.map_singleton,
    List.sum_singleton]

theorem splitOnP_concat {α : Type} {p : α → Bool} {x : α} (other : p x = false) (xs : List α)
    {front : List (List α)} {last : List α} (split : xs.splitOnP p = front ++ [last]) :
    (xs ++ [x]).splitOnP p = front ++ [last ++ [x]] := by
  induction xs generalizing front last with
  | nil =>
    have alone : front = [] ∧ last = [] := by
      cases front <;> simp_all
    simp [alone, List.splitOnP_cons_eq_if_modifyHead, other]
  | cons y ys ih =>
    obtain ⟨front', last', tail⟩ : ∃ front' last', ys.splitOnP p = front' ++ [last'] :=
      ⟨_, _, (List.dropLast_concat_getLast (List.splitOnP_ne_nil p ys)).symm⟩
    have more := ih tail
    rw [List.splitOnP_cons_eq_if_modifyHead, tail] at split
    rw [List.cons_append, List.splitOnP_cons_eq_if_modifyHead, more]
    by_cases sep : p y = true
    · rw [if_pos sep] at split ⊢
      have ends : ([] :: front') ++ [last'] = front ++ [last] := split
      obtain ⟨rfl, same⟩ := List.append_inj' ends rfl
      cases same
      rfl
    · rw [if_neg sep] at split ⊢
      cases front' with
      | nil =>
        have ends : [] ++ [y :: last'] = front ++ [last] := split
        obtain ⟨rfl, same⟩ := List.append_inj' ends rfl
        cases same
        rfl
      | cons first front' =>
        have ends : ((y :: first) :: front') ++ [last'] = front ++ [last] := split
        obtain ⟨rfl, same⟩ := List.append_inj' ends rfl
        cases same
        rfl

variable (c : Chload) (calls : List Call)

theorem splitOnP_closedCycles :
    ∃ current, calls.splitOnP Call.isCycle = closedCycles calls ++ [current] :=
  ⟨_, (List.dropLast_concat_getLast (List.splitOnP_ne_nil _ _)).symm⟩

theorem closedCycles_note {calls : List Call} {note : Call} (noted : note.isCycle = false) :
    closedCycles (calls ++ [note]) = closedCycles calls := by
  obtain ⟨current, split⟩ := splitOnP_closedCycles calls
  rw [closedCycles, splitOnP_concat noted calls split, List.dropLast_concat]

structure Meters (c : Chload) (calls : List Call) (current : List Call) : Prop where
  split : calls.splitOnP Call.isCycle = closedCycles calls ++ [current]
  tx : c.txOpenUs.toNat = cycleUs Call.txUs current
  rx : c.rxOpenUs.toNat = cycleUs Call.rxUs current
  ring : ∃ past, c.ring.Holds ⟨0#32, 0#32⟩ past ∧
    past.map (fun w => w.txUs.toNat) = (closedCycles calls).reverse.map (cycleUs Call.txUs) ∧
    past.map (fun w => w.rxUs.toNat) = (closedCycles calls).reverse.map (cycleUs Call.rxUs)

theorem meters_reset : Meters c.halowChloadReset [] [] where
  split := rfl
  tx := rfl
  rx := rfl
  ring := ⟨[], Rolling.holds_nil _ fun _ => rfl, rfl, rfl⟩

theorem Meters.note {c c' : Chload} {calls current : List Call} (meters : Meters c calls current)
    {note : Call} (noted : note.isCycle = false) (ring : c'.ring = c.ring)
    (tx : c'.txOpenUs.toNat = saturated (c.txOpenUs.toNat + note.txUs))
    (rx : c'.rxOpenUs.toNat = saturated (c.rxOpenUs.toNat + note.rxUs)) :
    Meters c' (calls ++ [note]) (current ++ [note]) where
  split := by
    rw [splitOnP_concat noted calls meters.split, closedCycles_note noted]
  tx := by rw [tx, meters.tx, cycleUs_concat]
  rx := by rw [rx, meters.rx, cycleUs_concat]
  ring := by
    rw [ring, closedCycles_note noted]
    exact meters.ring

theorem Meters.cycle {c : Chload} {calls current : List Call} (meters : Meters c calls current)
    (us : BitVec 32) : Meters (c.halowChloadCycle us) (calls ++ [.cycle us]) [] := by
  have split : (calls ++ [Call.cycle us]).splitOnP Call.isCycle =
      (closedCycles calls ++ [current]) ++ [[]] := by
    rw [List.splitOnP_append_cons calls [] rfl, meters.split]
    rfl
  have closed : closedCycles (calls ++ [Call.cycle us]) = closedCycles calls ++ [current] := by
    rw [closedCycles, split, List.dropLast_concat]
  obtain ⟨past, holds, tx, rx⟩ := meters.ring
  refine ⟨by rw [split, closed], rfl, rfl, ⟨c.txOpenUs, c.rxOpenUs⟩ :: past, holds.push _, ?_, ?_⟩
  · rw [closed, List.reverse_concat, List.map_cons, List.map_cons, tx, meters.tx]
  · rw [closed, List.reverse_concat, List.map_cons, List.map_cons, rx, meters.rx]

theorem run_meters : ∃ current, Meters (run c calls) calls current := by
  induction calls using List.reverseRecOn with
  | nil => exact ⟨[], meters_reset c⟩
  | append_singleton calls call ih =>
    obtain ⟨current, meters⟩ := ih
    have last : run c (calls ++ [call]) = call.apply (run c calls) := by
      rw [run, List.foldl_append]
      rfl
    rw [last]
    have unchanged (x : BitVec 32) : x.toNat = saturated (x.toNat + 0) := by
      have := x.isLt
      unfold saturated
      omega
    cases call with
    | noteTxUs us =>
      exact ⟨_, meters.note rfl rfl (accumulate_toNat _ us) (unchanged _)⟩
    | noteRx len mcs =>
      exact ⟨_, meters.note rfl rfl (unchanged _) (accumulate_toNat _ (rxFrameUs len mcs))⟩
    | cycle us => exact ⟨_, meters.cycle us⟩

def load (us : Nat) : Nat := min 100 ((us * 100 + Chload.winUs / 2) / Chload.winUs)

theorem load_mono {a b : Nat} (le : a ≤ b) : load a ≤ load b := by
  unfold load Chload.winUs windows
  omega

theorem load_eq_round (us : Nat) : (load us : ℤ) = min 100 (round (100 * (us : ℚ) / 1000000)) := by
  have whole : round (100 * (us : ℚ) / 1000000) = ((us * 100 + 500000) / 1000000 : ℕ) := by
    rw [round_eq, Int.natCast_div, ← Rat.floor_natCast_div_natCast]
    congr 1
    push_cast
    ring
  rw [whole, load]
  norm_cast

theorem percent_eq_load :
    c.halowChloadPercent.toNat =
      load (max (Tally.total (fun w => w.txUs.toNat) c.ring.cells)
        (Tally.total (fun w => w.rxUs.toNat) c.ring.cells)) := by
  unfold Chload.halowChloadPercent
  generalize Tally.total (fun w : Window => w.txUs.toNat) c.ring.cells = tx
  generalize Tally.total (fun w : Window => w.rxUs.toNat) c.ring.cells = rx
  have busier : (if tx > rx then tx else rx) = max tx rx := by
    split <;> omega
  simp only [busier]
  generalize max tx rx = big
  unfold load Chload.winUs windows
  split <;> rename_i none
  · subst none
    rfl
  · split
    · change 100 = _
      omega
    · rw [BitVec.toNat_ofNat]
      omega

theorem total_eq_windowUs {ring : Rolling Window windows} {past : List Window} {calls : List Call}
    {w : Window → Nat} {us : Call → Nat} (weightless : w ⟨0#32, 0#32⟩ = 0)
    (holds : ring.Holds ⟨0#32, 0#32⟩ past)
    (sums : past.map w = (closedCycles calls).reverse.map (cycleUs us)) :
    Tally.total w ring.cells = windowUs us calls := by
  rw [holds.total w weightless, List.map_take, sums, ← List.map_take]
  rfl

theorem run_percent : (run c calls).halowChloadPercent.toNat = load (busierUs calls) := by
  obtain ⟨current, meters⟩ := run_meters c calls
  obtain ⟨past, holds, tx, rx⟩ := meters.ring
  rw [percent_eq_load, total_eq_windowUs rfl holds tx, total_eq_windowUs rfl holds rx, busierUs]

theorem windowUs_mono {us : Call → Nat} {calls calls' : List Call}
    (more : (closedCycles calls).Forall₂
      (fun cycle cycle' => (cycle.map us).sum ≤ (cycle'.map us).sum) (closedCycles calls')) :
    windowUs us calls ≤ windowUs us calls' := by
  apply List.Forall₂.sum_le_sum
  rw [List.forall₂_map_left_iff, List.forall₂_map_right_iff]
  apply List.forall₂_take
  rw [List.forall₂_reverse_iff]
  exact more.imp fun _ _ le => saturated_mono le

theorem load_le_of_more {calls calls' : List Call}
    (more : (closedCycles calls).Forall₂ AtMost (closedCycles calls')) :
    load (busierUs calls) ≤ load (busierUs calls') := by
  apply load_mono
  exact max_le_max (windowUs_mono (more.imp fun _ _ le => le.1))
    (windowUs_mono (more.imp fun _ _ le => le.2))

theorem AtMost.refl (cycle : List Call) : AtMost cycle cycle := ⟨Nat.le_refl _, Nat.le_refl _⟩

theorem AtMost.trans {cycle more most : List Call} (le : AtMost cycle more)
    (le' : AtMost more most) : AtMost cycle most :=
  ⟨le.1.trans le'.1, le.2.trans le'.2⟩

theorem AtMost.cons {cycle more : List Call} (le : AtMost cycle more) (call : Call) :
    AtMost (call :: cycle) (call :: more) := by
  obtain ⟨tx, rx⟩ := le
  simp only [AtMost, List.map_cons, List.sum_cons]
  omega

theorem atMost_note (cycle : List Call) (note : Call) : AtMost cycle (note :: cycle) := by
  simp only [AtMost, List.map_cons, List.sum_cons]
  omega

theorem forall₂_modifyHead {R : List Call → List Call → Prop} {cycles cycles' : List (List Call)}
    {f g : List Call → List Call} (each : ∀ cycle cycle', R cycle cycle' → R (f cycle) (g cycle'))
    (related : cycles.Forall₂ R cycles') :
    (cycles.modifyHead f).Forall₂ R (cycles'.modifyHead g) := by
  cases related with
  | nil => exact .nil
  | cons first rest => exact .cons (each _ _ first) rest

theorem splitOnP_insert {note : Call} (noted : note.isCycle = false) (before after : List Call) :
    ((before ++ after).splitOnP Call.isCycle).Forall₂ AtMost
      ((before ++ note :: after).splitOnP Call.isCycle) := by
  induction before with
  | nil =>
    have same : (after.splitOnP Call.isCycle).Forall₂ AtMost (after.splitOnP Call.isCycle) :=
      List.forall₂_same.mpr fun cycle _ => .refl cycle
    have added := forall₂_modifyHead (f := id) (g := List.cons note)
      (fun _ cycle le => le.trans (atMost_note cycle note)) same
    rw [List.modifyHead_id] at added
    rw [List.nil_append, List.nil_append, List.splitOnP_cons_eq_if_modifyHead, noted]
    exact added
  | cons call before ih =>
    rw [List.cons_append, List.cons_append, List.splitOnP_cons_eq_if_modifyHead,
      List.splitOnP_cons_eq_if_modifyHead]
    split
    · exact .cons (.refl []) ih
    · exact forall₂_modifyHead (fun _ _ le => le.cons call) ih

theorem closedCycles_insert {note : Call} (noted : note.isCycle = false)
    (before after : List Call) :
    (closedCycles (before ++ after)).Forall₂ AtMost (closedCycles (before ++ note :: after)) := by
  have all := splitOnP_insert noted before after
  rw [closedCycles, closedCycles, List.dropLast_eq_take, List.dropLast_eq_take, all.length_eq]
  exact List.forall₂_take _ all

theorem closedCycles_notes (notes : List Call) (noted : ∀ note ∈ notes, note.isCycle = false) :
    closedCycles (calls ++ notes) = closedCycles calls := by
  induction notes using List.reverseRecOn with
  | nil => rw [List.append_nil]
  | append_singleton notes note ih =>
    have last : note.isCycle = false := noted note (by simp)
    rw [← List.append_assoc, closedCycles_note last]
    exact ih fun note mem => noted note (by simp [mem])

-- The meter reads the busier direction of the last ten closed cycles, in percent of a second.
theorem percent_of_window (c : Chload) (calls : List Call) :
    ((run c calls).halowChloadPercent.toNat : ℤ) =
        min 100 (round (100 * (busierUs calls : ℚ) / 1000000)) ∧
      (∀ notes : List Call, (∀ note ∈ notes, note.isCycle = false) →
        (run c (calls ++ notes)).halowChloadPercent = (run c calls).halowChloadPercent) ∧
      (∀ calls', (closedCycles calls).Forall₂ AtMost (closedCycles calls') →
        (run c calls).halowChloadPercent ≤ (run c calls').halowChloadPercent) ∧
      ∀ before after note, calls = before ++ after → note.isCycle = false →
        (run c calls).halowChloadPercent ≤ (run c (before ++ note :: after)).halowChloadPercent := by
  have adding : ∀ calls', (closedCycles calls).Forall₂ AtMost (closedCycles calls') →
      (run c calls).halowChloadPercent ≤ (run c calls').halowChloadPercent := by
    intro calls' more
    rw [BitVec.le_def, run_percent, run_percent]
    exact load_le_of_more more
  refine ⟨?_, ?_, adding, ?_⟩
  · rw [run_percent, load_eq_round]
  · intro notes noted
    apply BitVec.eq_of_toNat_eq
    rw [run_percent, run_percent, busierUs, busierUs, windowUs, windowUs, windowUs, windowUs,
      closedCycles_notes calls notes noted]
  · rintro before after note rfl noted
    exact adding _ (closedCycles_insert noted before after)

def usedMeter : Chload := ⟨⟨fun _ => ⟨7#32, 9#32⟩, ⟨3, by decide⟩⟩, 1#32, 2#32⟩

def twoCycles : List Call := [.noteTxUs 5000#32, .cycle 100000#32, .noteTxUs 5000#32, .cycle 0#32]

def firstLonger : List Call :=
  [.noteTxUs 5000#32] ++ .noteTxUs 0xFFFFFFFF#32 :: twoCycles.tail

theorem percent_of_window_twoCycles :
    (run usedMeter (twoCycles ++ [.noteRx 65535#16 10#8])).halowChloadPercent = 1#8 ∧
      (run usedMeter twoCycles).halowChloadPercent ≤
        (run usedMeter firstLonger).halowChloadPercent ∧
      (run usedMeter firstLonger).halowChloadPercent = 100#8 := by
  have all := percent_of_window usedMeter twoCycles
  refine ⟨?_, all.2.2.2 [.noteTxUs 5000#32] twoCycles.tail _ rfl rfl, by decide +kernel⟩
  rw [all.2.1 _ (by decide)]
  decide +kernel

end ChannelLoad

end RnodeHalow.Radio
