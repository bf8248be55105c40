import RnodeHalow.Ack.Entry
import RnodeHalow.Shared.Solo
import RnodeHalow.Radio.Board

set_option autoImplicit false

namespace RnodeHalow.Ack

open Resumption

variable {ρ : Type} [Platform ρ] {n : Nat}

theorem bufTxSend_held (j : BufIx) (pmcs : Byte) :
    Balanced (Locked.Held n) (bufTxSend j pmcs : Prog (Node ρ) Unit) (Locked.Held n) :=
  (Balanced.held _).bind fun _ => Balanced.unlock.bind fun _ => (Balanced.free _).bind fun _ =>
    Balanced.lock.bind fun _ => Balanced.held _

variable (i : PeerIx) (now : Jiffy) (payload : List Byte) (src dest : Mac)

theorem aggFlushLocked_held :
    Balanced (Locked.Held n) (aggFlushLocked i : Prog (Node ρ) Bool) (Locked.Held n) := by
  refine (Balanced.held _).bind fun r => ?_
  cases r with
  | nothing => exact .pure _
  | blocked => exact .pure _
  | sealed j pmcs => exact (bufTxSend_held j pmcs).bind fun _ => .pure _

omit [Platform ρ] in
theorem answer_free (r : Int) :
    Balanced (Locked.Held n) (do unlock; pure r : Prog (Node ρ) Int) (Locked.Free n) :=
  Balanced.unlock.bind fun _ => .pure r

theorem txBundleAppend_free (effPayload : Nat) :
    Balanced (Locked.Held n) (txBundleAppend i payload dest effPayload : Prog (Node ρ) Int)
      (Locked.Free n) := by
  refine (Balanced.held _).bind fun staged => ?_
  cases staged with
  | false => exact answer_free _
  | true =>
    refine (Balanced.held _).bind fun full => ?_
    refine (Balanced.when ((aggFlushLocked_held i).bind fun _ => .pure ())).bind fun _ => ?_
    exact (Balanced.held _).bind fun _ => answer_free 0

theorem txBundleLocked_free (effPayload : Nat) :
    Balanced (Locked.Held n) (txBundleLocked i payload dest effPayload : Prog (Node ρ) Int)
      (Locked.Free n) := by
  unfold txBundleLocked
  by_cases empty : payload.length = 0
  · rw [if_pos empty]
    exact (Balanced.held _).bind fun _ => answer_free 0
  rw [if_neg empty]
  refine (Balanced.held _).bind fun blocked => ?_
  cases blocked with
  | true => exact answer_free _
  | false =>
    refine (Balanced.held _).bind fun full => ?_
    cases full with
    | false => exact txBundleAppend_free i payload dest effPayload
    | true =>
      refine (aggFlushLocked_held i).bind fun _ => (Balanced.held _).bind fun still => ?_
      cases still with
      | true => exact answer_free _
      | false => exact txBundleAppend_free i payload dest effPayload

-- `plainClaim` gets a slot: budget, window, a free slot and heap for the frame.
def claimable (len : Nat) (b : Body ρ) : Bool :=
  let asked := Platform.halowGetTxVacancy b.plat
  decide (ackTxVacancyLow ≤ asked.1) && (decide (b.inflightN < effWindow b) && ((freeSlot b).isSome &&
    (Platform.osMalloc (bufAllocSz len) asked.2).1.isSome))

-- A frame of this length goes to the peer without an envelope.
def unwrapped (i : PeerIx) (len : Nat) (b : Body ρ) : Bool :=
  decide (ackWireMax < len + (envBundleHdr + 2)) &&
    (decide (b.cfg.agg = 0) || decide (effAggBytes b (b.peers i).txMcs < len))

-- A unicast frame without an envelope keeps the mutex. The tables are read after the look-up.
def Call.leaks (t : Nat) (b : Body ρ) : Call → Bool
  | .tx payload dest =>
    let len := payload.length
    !noack b.cfg len dest &&
      match peerGet dest t (txRegister payload dest t b).2 with
      | (none, _) => false
      | (some i, b) => decide ((b.peers i).curRetries ≠ 0) && unwrapped i len b && claimable len b
  | _ => false

theorem bufAlloc_isSome (state : BufState) (mac : Mac) (cap t : Nat) (b : Body ρ) :
    (bufAlloc state mac cap t b).1.isSome =
      ((freeSlot b).isSome && (Platform.osMalloc (bufAllocSz cap) b.plat).1.isSome) := by
  rw [bufAlloc, Sec.bind_apply, Sec.read_apply]
  cases freeSlot b with
  | none => rfl
  | some j =>
    simp only [Sec.bind_apply, platform]
    cases (Platform.osMalloc (bufAllocSz cap) b.plat).1 <;> rfl

theorem bufClaimInflight_isSome (mac : Mac) (len t : Nat) (b : Body ρ) :
    (bufClaimInflight mac len t b).1.isSome = (decide (b.inflightN < effWindow b) &&
      ((freeSlot b).isSome && (Platform.osMalloc (bufAllocSz len) b.plat).1.isSome)) := by
  have claim : bufClaimInflight mac len t b =
      if b.inflightN ≥ effWindow b then (none, b) else bufAlloc .inflight mac len t b := by
    rw [bufClaimInflight, Sec.bind_apply, Sec.bind_apply, Sec.ite_apply]
    rfl
  rw [claim, ← bufAlloc_isSome .inflight mac len t]
  by_cases full : b.inflightN ≥ effWindow b
  · rw [if_pos full, decide_eq_false (Nat.not_lt.mpr full)]
    rfl
  · rw [if_neg full, decide_eq_true (Nat.not_le.mp full)]
    rfl

theorem plainClaim_isSome (t : Nat) (b : Body ρ) :
    (plainClaim i payload dest t b).1.isSome = claimable payload.length b := by
  let asked : Body ρ := { b with plat := (Platform.halowGetTxVacancy b.plat).2 }
  have asks : halowGetTxVacancy t b = ((Platform.halowGetTxVacancy b.plat).1, asked) := rfl
  rw [plainClaim, Sec.bind_apply, asks, Sec.ite_apply, claimable]
  by_cases low : (Platform.halowGetTxVacancy b.plat).1 < ackTxVacancyLow
  · rw [if_pos low, decide_eq_false (Nat.not_le.mpr low)]
    rfl
  · have claimed := bufClaimInflight_isSome dest payload.length t asked
    rw [if_neg low, decide_eq_true (Nat.not_lt.mp low), Bool.true_and, Sec.bind_apply]
    refine Eq.trans ?_ claimed
    cases (bufClaimInflight dest payload.length t asked).1 <;> rfl

theorem txRoute_apply (len t : Nat) (b : Body ρ) :
    txRoute len dest t b = match peerGet dest t b with
      | (none, b') => (.untracked halowMcsDefault, b')
      | (some i, b') =>
        if (b'.peers i).curRetries = 0 then (.untracked (b'.peers i).txMcs, b')
        else if unwrapped i len b' then
          (.plain i (b'.peers i).txMcs, { b' with stats :=
            { b'.stats with dbgPathPlainl := b'.stats.dbgPathPlainl + 1 } })
        else (.bundle i (effAggBytes b' (b'.peers i).txMcs), { b' with stats :=
            { b'.stats with dbgPathBundle := b'.stats.dbgPathBundle + 1 } }) := by
  rw [txRoute, Sec.bind_apply]
  generalize peerGet dest t b = out
  obtain ⟨found, b'⟩ := out
  cases found with
  | none => rfl
  | some i =>
    by_cases spent : (b'.peers i).curRetries = 0
    · simp [spent]
    by_cases bundled : (b'.cfg.agg ≠ 0 ∧ len ≤ effAggBytes b' (b'.peers i).txMcs) ∨
        len + (envBundleHdr + 2) ≤ ackWireMax
    · have wrapped : unwrapped i len b' = false := by grind [unwrapped]
      simp [spent, bundled, wrapped, modifyStats]
    · have plain : unwrapped i len b' = true := by grind [unwrapped]
      simp [spent, bundled, plain, modifyStats]

def Locked.Ends {σ : Type} : Bool → Nat → Locked σ → Prop
  | true => Locked.Held
  | false => Locked.Free

theorem Locked.Ends.body {σ : Type} {leak : Bool} {s : Locked σ} (h : Locked.Ends leak n s)
    (b : σ) : Locked.Ends leak n { s with body := b } := by
  cases leak with
  | false => exact h
  | true => exact h

theorem txPlainLocked_ends {i : PeerIx} {payload : List Byte} {dest : Mac} {pmcs : Byte}
    {s : Node ρ} (held : s.Held n) :
    Alone (txPlainLocked i payload dest pmcs) s fun _ s' =>
      Locked.Ends (plainClaim i payload dest s.active s.body).1.isSome n s' := by
  refine .seq (.sec ?_)
  have held' : Locked.Held n { s with body := (plainClaim i payload dest s.active s.body).2 } :=
    held
  cases (plainClaim i payload dest s.active s.body).1 with
  | none => exact answer_free _ _ held'
  | some j => exact .seq ((bufTxSend_held j pmcs _ held').mono fun _ _ h => .pure 0 h)

theorem ackTxUc_ends {s : Node ρ} (free : s.Free n) :
    Alone (ackTxUc payload dest) s fun _ s' =>
      Locked.Ends (!noack s.body.cfg payload.length dest &&
        match peerGet dest s.active s.body with
        | (none, _) => false
        | (some i, b) => decide ((b.peers i).curRetries ≠ 0) && unwrapped i payload.length b &&
          claimable payload.length b) n s' := by
  refine .read ?_
  by_cases off : noack s.body.cfg payload.length dest = true
  · rw [if_pos off]
    simp only [off, Bool.not_true, Bool.false_and]
    exact .sec free
  rw [if_neg off]
  refine .seq (.lock free.acquire.1 (.seq (.sec ?_)))
  simp only [off, Bool.not_false, Bool.true_and, Locked.acquire_active, Locked.acquire_body]
  have held (b : Body ρ) : Locked.Held n { s.acquire with body := b } := free.acquire.2
  rw [txRoute_apply]
  simp only [Locked.acquire_active] at held
  generalize peerGet dest s.active s.body = out
  obtain ⟨found, b⟩ := out
  cases found with
  | none => exact .seq (.unlock (.sec (held b).release))
  | some i =>
    dsimp only
    by_cases spent : (b.peers i).curRetries = 0
    · simp only [spent, if_true, ne_eq, not_true_eq_false, decide_false, Bool.false_and]
      exact .seq (.unlock (.sec (held b).release))
    rw [if_neg spent, decide_eq_true spent, Bool.true_and]
    cases plain : unwrapped i payload.length b with
    | true =>
      refine (txPlainLocked_ends (held _)).mono fun _ s' ends => ?_
      rw [plainClaim_isSome] at ends
      exact ends
    | false => exact txBundleLocked_free i payload dest _ _ (held _)

theorem halowAckTx_ends {payload : List Byte} {dest : Mac} {s : Node ρ} (free : s.Free n) :
    Alone (halowAckTx payload dest) s fun _ s' =>
      Locked.Ends (Call.leaks s.active s.body (.tx payload dest)) n s' := by
  refine .seq (.sec (.seq ?_))
  have ends := ackTxUc_ends payload dest (n := n)
    (s := { s with body := (txRegister payload dest s.active s.body).2 }) free
  exact ends.mono fun r s' h => .seq (.sec (.pure r (Locked.Ends.body h _)))

theorem halowAckFlush_free :
    Balanced (Locked.Free n) (halowAckFlush : Prog (Node ρ) Unit) (Locked.Free n) := by
  refine Balanced.lock.bind fun _ => ?_
  refine (Balanced.forEach (fun i => ?_) _).bind fun _ => Balanced.unlock
  exact (Balanced.held _).bind fun p =>
    .when ((aggFlushLocked_held i).bind fun _ => .pure ())

theorem sendAck_free (evm : Byte) (dest : Mac) (fids : List (BitVec 16)) :
    Balanced (Locked.Free n) (sendAck evm dest fids : Prog (Node ρ) Unit) (Locked.Free n) := by
  have rate : Balanced (Locked.Free n) (ackMcsForPeer dest : Prog (Node ρ) Byte)
      (Locked.Free n) :=
    Balanced.lock.bind fun _ => (Balanced.held _).bind fun _ => Balanced.unlock.bind fun _ =>
      .pure _
  refine rate.bind fun ackMcs => (Balanced.free _).bind fun _ => Balanced.lock.bind fun _ => ?_
  refine (Balanced.held _).bind fun env => Balanced.unlock.bind fun _ => ?_
  cases env with
  | none => exact .free _
  | some e => exact .free _

theorem rxEnv_free :
    Balanced (Locked.Free n) (rxEnv payload src : Prog (Node ρ) Bool) (Locked.Free n) := by
  unfold rxEnv
  split
  · exact Balanced.lock.bind fun _ => (Balanced.held _).bind fun _ => Balanced.unlock.bind fun _ =>
      .pure _
  · split
    · exact Balanced.lock.bind fun _ => (Balanced.held _).bind fun _ =>
        Balanced.unlock.bind fun _ => .pure _
    · exact (Balanced.free _).bind fun _ => .pure _

theorem rxData_free (dst : Option Mac) (evm : Byte) :
    Balanced (Locked.Free n) (rxData payload src dst evm : Prog (Node ρ) Bool)
      (Locked.Free n) := by
  refine Balanced.lock.bind fun _ => (Balanced.held _).bind fun r => ?_
  refine Balanced.unlock.bind fun _ => ?_
  obtain ⟨deliver, fids⟩ := r
  cases fids with
  | none => exact .pure _
  | some fids => exact (sendAck_free evm src fids).bind fun _ => .pure _

theorem halowAckOnRx_free (dst : Option Mac) (evm : Byte) :
    Balanced (Locked.Free n) (halowAckOnRx payload src dst evm : Prog (Node ρ) Bool)
      (Locked.Free n) := by
  unfold halowAckOnRx
  split
  · refine (rxEnv_free payload src).bind fun consumed => ?_
    split
    · exact .pure _
    · exact rxData_free payload src dst evm
  · split
    · have read : Balanced (Locked.Free n) (rxAck payload src : Prog (Node ρ) Unit)
          (Locked.Free n) :=
        (Balanced.free _).bind fun _ => Balanced.lock.bind fun _ => (Balanced.held _).bind fun _ =>
          Balanced.unlock
      exact read.bind fun _ => .pure _
    · exact rxData_free payload src dst evm

theorem tickServiceBufs_held :
    Balanced (Locked.Held n) (tickServiceBufs now : Prog (Node ρ) Unit) (Locked.Held n) := by
  refine (Balanced.held _).bind fun times => Balanced.forEach (fun j => ?_) _
  refine (Balanced.held _).bind fun due => .when ?_
  refine (Balanced.held _).bind fun r => ?_
  cases r with
  | none => exact .pure ()
  | some mcs => exact bufTxSend_held j mcs

theorem tickFlushHeldBundles_held :
    Balanced (Locked.Held n) (tickFlushHeldBundles now : Prog (Node ρ) Unit) (Locked.Held n) := by
  refine Balanced.forEach (fun i => ?_) _
  refine (Balanced.held _).bind fun p => .when ?_
  exact (aggFlushLocked_held i).bind fun flushed => .when (.held _)

theorem tickFlushDeferredAcks_held :
    Balanced (Locked.Held n) (tickFlushDeferredAcks now : Prog (Node ρ) Unit)
      (Locked.Held n) := by
  refine (Balanced.held _).bind fun cfg => .when (Balanced.forEach (fun i => ?_) _)
  refine (Balanced.held _).bind fun r => ?_
  cases r with
  | none => exact .pure ()
  | some due =>
    exact Balanced.unlock.bind fun _ => (sendAck_free _ _ _).bind fun _ => Balanced.lock

theorem halowAckTick_free :
    Balanced (Locked.Free n) (halowAckTick : Prog (Node ρ) Unit) (Locked.Free n) := by
  refine (Balanced.free _).bind fun _ => (Balanced.free _).bind fun cfg => .when ?_
  refine (Balanced.free _).bind fun now => (Balanced.free _).bind fun _ => ?_
  refine Balanced.lock.bind fun _ => (tickServiceBufs_held now).bind fun _ => ?_
  refine (tickFlushHeldBundles_held now).bind fun _ => ?_
  refine (tickFlushDeferredAcks_held now).bind fun _ => ?_
  exact (Balanced.held _).bind fun _ => Balanced.unlock

theorem halowAckTxReady_free :
    Balanced (Locked.Free n) (halowAckTxReady : Prog (Node ρ) Bool) (Locked.Free n) := by
  refine (Balanced.free _).bind fun cfg => ?_
  split
  · exact .pure _
  · refine (Balanced.free _).bind fun vacancy => ?_
    split
    · exact .pure _
    · exact Balanced.lock.bind fun _ => (Balanced.held _).bind fun _ =>
        Balanced.unlock.bind fun _ => .pure _

theorem halowAckConfigApply_free (cfg : Config) :
    Balanced (Locked.Free n) (halowAckConfigApply cfg : Prog (Node ρ) Unit) (Locked.Free n) :=
  (Balanced.free _).bind fun _ => Balanced.lock.bind fun _ => (Balanced.held _).bind fun _ =>
    Balanced.unlock.bind fun _ => Balanced.lock.bind fun _ => (Balanced.held _).bind fun _ =>
      Balanced.unlock.bind fun _ => Balanced.free _

theorem Call.ends (call : Call) {s : Node ρ} (free : s.Free n) :
    Alone call.prog s fun _ s' => Locked.Ends (call.leaks s.active s.body) n s' := by
  have quiet {α : Type} {m : Prog (Node ρ) α} (balanced : Balanced (Locked.Free n) m (Locked.Free n))
      (f : α → Result) : Alone (do let r ← m; pure (f r)) s fun _ s' => s'.Free n :=
    .seq ((balanced s free).mono fun a _ h => .pure (f a) h)
  cases call with
  | tx payload dest => exact .seq ((halowAckTx_ends free).mono fun r _ h => .pure (Result.code r) h)
  | flush => exact quiet halowAckFlush_free fun _ => .void
  | onRx payload src dst evm => exact quiet (halowAckOnRx_free payload src dst evm) .flag
  | tick => exact quiet halowAckTick_free fun _ => .void
  | txReady => exact quiet halowAckTxReady_free .flag
  | configApply cfg => exact quiet (halowAckConfigApply_free cfg) fun _ => .void

theorem mutex_released_iff (s : Node ρ) (free : s.owner = none) (call : Call) :
    Alone call.prog s fun _ s' =>
      (s'.owner = none ∧ s'.misuse = s.misuse) ↔ call.leaks s.active s.body = false := by
  refine (call.ends (s := s) (n := s.misuse) ⟨free, rfl⟩).mono fun _ s' ends => ?_
  cases leak : call.leaks s.active s.body with
  | false =>
    rw [leak] at ends
    exact ⟨fun _ => rfl, fun _ => ends⟩
  | true =>
    rw [leak] at ends
    have kept : s'.owner = some s'.active := ends.1
    simp [kept]

def idleNode : Node Radio.Board :=
  { boot halowAckConfigSetDefault (.quiet 7 8) with active := 1 }

def fullBundle : Call := .tx (List.replicate 4000 0) ⟨2, 0, 0, 0, 0, 1⟩

theorem mutex_released_iff_fullBundle : idleNode.owner = none ∧
    (fullBundle.prog.run idleNode).map (fun r => r.2.body.trace.any (·.2 = .sent 0)) = some true ∧
    Alone fullBundle.prog idleNode fun _ s' => s'.owner = none ∧ s'.misuse = idleNode.misuse := by
  have kept : fullBundle.leaks idleNode.active idleNode.body = false := by decide +kernel
  refine ⟨rfl, by decide +kernel, ?_⟩
  exact (mutex_released_iff idleNode rfl fullBundle).mono fun _ _ released => released.mpr kept

def longFrame : Call := .tx (List.replicate 4015 0) ⟨2, 0, 0, 0, 0, 1⟩

theorem mutex_kept_longFrame : idleNode.owner = none ∧
    (longFrame.prog.run idleNode).map (fun r => r.2.owner) = some (some 1) :=
  ⟨rfl, by decide +kernel⟩

end RnodeHalow.Ack
