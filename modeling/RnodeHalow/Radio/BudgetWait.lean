import RnodeHalow.Radio.Board

set_option autoImplicit false

namespace RnodeHalow.Radio

structure TxBudget where
  vacatedBytes : Nat
  vacatedSem : Nat
  deriving DecidableEq, Repr

inductive TxWork where
  | vacate (len : Nat)
  | signal
  | take (len : Nat)
  deriving DecidableEq, Repr

def halowTxSkbBudgetRefund (len : Nat) : List TxWork := [.vacate len]

def halowTxSkbComplete (len : Nat) : List TxWork := [.vacate len, .signal]

namespace TxBudget

def vacate (len : Nat) (b : TxBudget) : TxBudget :=
  { b with vacatedBytes := min ((b.vacatedBytes + len) % 2 ^ 32) txBufferSize }

def txBudgetTake (len : Nat) (b : TxBudget) : Bool × TxBudget :=
  if b.vacatedBytes ≥ len then (true, { b with vacatedBytes := b.vacatedBytes - len })
  else (false, b)

def perform : TxWork → TxBudget → TxBudget
  | .vacate len, b => b.vacate len
  | .signal, b => { b with vacatedSem := b.vacatedSem + 1 }
  | .take len, b => (b.txBudgetTake len).2

def performAll (work : List TxWork) (b : TxBudget) : TxBudget :=
  work.foldl (fun b w => b.perform w) b

def semaTaken (b : TxBudget) : TxBudget := { b with vacatedSem := b.vacatedSem - 1 }

def osSemaDown : List TxWork → TxBudget → Int × TxBudget
  | [], b => if 0 < b.vacatedSem then (1, b.semaTaken) else (0, b)
  | w :: rest, b =>
    if 0 < b.vacatedSem then (1, b.semaTaken.performAll (w :: rest))
    else osSemaDown rest (b.perform w)

end TxBudget

structure WaitRound where
  during : List TxWork
  after : List TxWork

namespace TxBudget

variable (len : Nat) (rounds : Nat → WaitRound)

def txBudgetWaitLoop : Nat → Nat → TxBudget → Bool × TxBudget
  | 0, _, b => (false, b)
  | n + 1, i, b =>
    let woken := b.osSemaDown (rounds i).during
    let tested := woken.2.performAll (rounds i).after
    if woken.1 = 0 ∧ (tested.txBudgetTake len).1 = true then tested.txBudgetTake len
    else txBudgetWaitLoop n (i + 1) tested

def txBudgetWait (mayBlock : Bool) (b : TxBudget) : Bool × TxBudget :=
  if !mayBlock then (false, b) else txBudgetWaitLoop len rounds txBlockIters 0 b

def enter (b : TxBudget) : Nat → TxBudget
  | 0 => b
  | i + 1 => ((enter b i).osSemaDown (rounds i).during).2.performAll (rounds i).after

def answer (b : TxBudget) (i : Nat) : Int := ((b.enter rounds i).osSemaDown (rounds i).during).1

def woken (b : TxBudget) (i : Nat) : TxBudget :=
  ((b.enter rounds i).osSemaDown (rounds i).during).2

def Offered (b : TxBudget) (i : Nat) : Prop :=
  len ≤ (b.woken rounds i).vacatedBytes ∧ ∀ n, TxWork.take n ∉ (rounds i).after

def Claimed (b : TxBudget) (i : Nat) : Prop :=
  b.answer rounds i = 0 ∧ len ≤ (b.enter rounds (i + 1)).vacatedBytes

def taken (b : TxBudget) : TxBudget := { b with vacatedBytes := b.vacatedBytes - len }

theorem txBudgetTake_of_le {b : TxBudget} (room : len ≤ b.vacatedBytes) :
    b.txBudgetTake len = (true, b.taken len) := if_pos room

theorem txBudgetTake_fst {b : TxBudget} : (b.txBudgetTake len).1 = true ↔ len ≤ b.vacatedBytes := by
  unfold txBudgetTake
  split <;> simp_all

variable (n i : Nat) (b : TxBudget)

theorem txBudgetWaitLoop_succ :
    txBudgetWaitLoop len rounds (n + 1) i (b.enter rounds i) =
      if b.answer rounds i = 0 ∧ ((b.enter rounds (i + 1)).txBudgetTake len).1 = true then
        (b.enter rounds (i + 1)).txBudgetTake len
      else txBudgetWaitLoop len rounds n (i + 1) (b.enter rounds (i + 1)) := rfl

theorem txBudgetWaitLoop_claimed {n i : Nat} {b : TxBudget} (now : b.Claimed len rounds i) :
    txBudgetWaitLoop len rounds (n + 1) i (b.enter rounds i) =
      (true, (b.enter rounds (i + 1)).taken len) := by
  rw [txBudgetWaitLoop_succ, if_pos ⟨now.1, (txBudgetTake_fst len).mpr now.2⟩]
  exact txBudgetTake_of_le len now.2

theorem txBudgetWaitLoop_goes_on {n i : Nat} {b : TxBudget} (later : ¬ b.Claimed len rounds i) :
    txBudgetWaitLoop len rounds (n + 1) i (b.enter rounds i) =
      txBudgetWaitLoop len rounds n (i + 1) (b.enter rounds (i + 1)) := by
  rw [txBudgetWaitLoop_succ, if_neg]
  intro now
  exact later ⟨now.1, (txBudgetTake_fst len).mp now.2⟩

theorem txBudgetWaitLoop_claims (some : ∃ j, i ≤ j ∧ j < i + n ∧ b.Claimed len rounds j) :
    ∃ j, j < i + n ∧ b.Claimed len rounds j ∧
      txBudgetWaitLoop len rounds n i (b.enter rounds i) =
        (true, (b.enter rounds (j + 1)).taken len) := by
  induction n generalizing i with
  | zero =>
    obtain ⟨j, low, high, _⟩ := some
    omega
  | succ n ih =>
    by_cases now : b.Claimed len rounds i
    · exact ⟨i, by omega, now, txBudgetWaitLoop_claimed len rounds now⟩
    · obtain ⟨j, low, high, later⟩ := some
      have ne : j ≠ i := fun same => now (same ▸ later)
      obtain ⟨k, bound, claimed, result⟩ := ih (i + 1) ⟨j, by omega, by omega, later⟩
      exact ⟨k, by omega, claimed, (txBudgetWaitLoop_goes_on len rounds now).trans result⟩

theorem txBudgetWaitLoop_refuses (never : ∀ j, i ≤ j → j < i + n → ¬ b.Claimed len rounds j) :
    txBudgetWaitLoop len rounds n i (b.enter rounds i) = (false, b.enter rounds (i + n)) := by
  induction n generalizing i with
  | zero => rfl
  | succ n ih =>
    rw [txBudgetWaitLoop_goes_on len rounds (never i (Nat.le_refl i) (by omega)),
      ih (i + 1) (fun j low high => never j (by omega) (by omega))]
    congr 2
    omega

-- A wake-up that is no timeout does not look at the budget again.
theorem txBudgetWait_succeeds_iff (b : TxBudget) :
    ((∃ i < txBlockIters, b.Offered len rounds i) →
        ∃ i < txBlockIters, len ≤ (b.enter rounds (i + 1)).vacatedBytes ∧
          b.txBudgetWait len rounds true = (true, (b.enter rounds (i + 1)).taken len)) ↔
      ((∃ i < txBlockIters, b.Offered len rounds i) →
        ∃ i < txBlockIters, b.Claimed len rounds i) := by
  have loop : b.txBudgetWait len rounds true =
      txBudgetWaitLoop len rounds txBlockIters 0 (b.enter rounds 0) := rfl
  constructor
  · intro succeeds offered
    obtain ⟨i, _, _, result⟩ := succeeds offered
    by_contra never
    push Not at never
    rw [loop, txBudgetWaitLoop_refuses len rounds _ _ b
      (fun j _ high => never j (by omega))] at result
    cases result
  · intro claims offered
    obtain ⟨i, bound, claimed⟩ := claims offered
    obtain ⟨j, high, first, result⟩ :=
      txBudgetWaitLoop_claims len rounds txBlockIters 0 b ⟨i, Nat.zero_le i, by omega, claimed⟩
    exact ⟨j, by omega, first.2, loop.trans result⟩

def backlog : TxBudget := ⟨0, 100⟩

def backlogRounds (i : Nat) : WaitRound := ⟨if i = 0 then halowTxSkbComplete 1000 else [], []⟩

theorem wait_refused_with_budget :
    (∀ i < txBlockIters, backlog.Offered 124 backlogRounds i) ∧
      backlog.txBudgetWait 124 backlogRounds true = (false, ⟨1000, 1⟩) := by
  refine ⟨fun i bound => ⟨?_, fun n => List.not_mem_nil⟩, by decide +kernel⟩
  have room : ∀ i < txBlockIters, 124 ≤ (backlog.woken backlogRounds i).vacatedBytes := by
    decide +kernel
  exact room i bound

end TxBudget

namespace Board

variable (len : Nat) (rounds : Nat → WaitRound)

structure Follows (b : TxBudget) (board : Board) (i : Nat) : Prop where
  semaDown : board.fate.semaDown = b.answer rounds i
  vacated : board.advance.vacatedBytes = (b.enter rounds (i + 1)).vacatedBytes

def advances (board : Board) : Nat → Board
  | 0 => board
  | i + 1 => (advances board i).advance

theorem txBudgetWaitLoop_follows (n i : Nat) (b : TxBudget) (board : Board)
    (start : (board.advances i).vacatedBytes = (b.enter rounds i).vacatedBytes)
    (follows : ∀ j, i ≤ j → j < i + n → Follows rounds b (board.advances j) j) :
    ((board.advances i).txBudgetWaitLoop len n).1 =
        (TxBudget.txBudgetWaitLoop len rounds n i (b.enter rounds i)).1 ∧
      ((board.advances i).txBudgetWaitLoop len n).2.vacatedBytes =
        (TxBudget.txBudgetWaitLoop len rounds n i (b.enter rounds i)).2.vacatedBytes := by
  induction n generalizing i with
  | zero => exact ⟨rfl, start⟩
  | succ n ih =>
    have now := follows i (Nat.le_refl i) (by omega)
    have later := ih (i + 1) now.vacated (fun j low high => follows j (by omega) (by omega))
    simp only [txBudgetWaitLoop]
    by_cases claimed : b.Claimed len rounds i
    · have room : (board.advances i).advance.vacatedBytes ≥ len := now.vacated ▸ claimed.2
      have board' : (board.advances i).advance.txBudgetTake len =
          (true, { (board.advances i).advance with
            vacatedBytes := (board.advances i).advance.vacatedBytes - len }) := if_pos room
      rw [if_pos ⟨now.semaDown.trans claimed.1, by rw [board']⟩, board',
        TxBudget.txBudgetWaitLoop_claimed len rounds claimed]
      exact ⟨rfl, congrArg (· - len) now.vacated⟩
    · rw [TxBudget.txBudgetWaitLoop_goes_on len rounds claimed, if_neg]
      · exact later
      · rintro ⟨timeout, took⟩
        apply claimed
        refine ⟨now.semaDown.symm.trans timeout, ?_⟩
        rw [← now.vacated]
        by_contra short
        simp [txBudgetTake, short] at took

theorem txBudgetWait_follows (b : TxBudget) (board : Board)
    (start : board.vacatedBytes = b.vacatedBytes)
    (follows : ∀ i < txBlockIters, Follows rounds b (board.advances i) i) :
    (board.txBudgetWait len).1 = (b.txBudgetWait len rounds board.mayBlock).1 ∧
      (board.txBudgetWait len).2.vacatedBytes =
        (b.txBudgetWait len rounds board.mayBlock).2.vacatedBytes := by
  unfold txBudgetWait TxBudget.txBudgetWait
  split
  · exact ⟨rfl, start⟩
  · exact txBudgetWaitLoop_follows len rounds txBlockIters 0 b board start
      (fun i _ bound => follows i (by omega))

end Board

end RnodeHalow.Radio
