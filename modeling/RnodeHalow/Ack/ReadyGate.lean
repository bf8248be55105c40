import RnodeHalow.Ack.Schedule
import RnodeHalow.Ack.StrokeRuns

set_option autoImplicit false

namespace RnodeHalow.Ack

open Resumption Tally

variable {ρ : Type} [Platform ρ] {W : Config → Prop}

def Call.within (W : Config → Prop) : Call → Prop
  | .configApply cfg => W cfg
  | _ => True

structure Idle (c : Threads ρ) (t : Nat) : Prop where
  empty : ∀ j, c.body.bufs j = none
  vacancy : ackTxVacancyLow ≤ (Platform.halowGetTxVacancy c.body.plat).1
  free : Locked.available { c.shared with active := t } = true

def Ready (c : Threads ρ) (t : Nat) : Prop :=
  ∃ s, halowAckTxReady.run { c.shared with active := t } = some (true, s)

theorem effWindow_cwnd {b : Body ρ} (inv : Inv (core b)) : effWindow b = b.cwnd := by
  have bound : b.cwnd ≤ b.window := inv.cwnd_le
  unfold effWindow
  split
  · rfl
  · omega

theorem halowAckTxReady_alone {s : Node ρ} (free : s.available = true)
    (vacancy : ackTxVacancyLow ≤ (Platform.halowGetTxVacancy s.body.plat).1) :
    Alone halowAckTxReady s fun r _ => (r = true ↔ s.body.cfg.maxRetries = 0 ∨
      s.body.inflightN + 2 ≤ effWindow s.body ∧ ackBufN - s.body.usedN ≥ 2) := by
  refine .read ?_
  split
  next off => exact .pure _ (by simp [off])
  next on =>
    refine .seq (.sec ?_)
    split
    next low => exact absurd vacancy (Nat.not_le_of_lt low)
    · refine .seq (.lock free (.read (.seq (.unlock (.pure _ ?_)))))
      rw [Locked.acquire_body, Bool.and_eq_true, decide_eq_true_eq, decide_eq_true_eq,
        or_iff_right on]
      rfl

theorem Idle.ready_iff {c : Threads ρ} {t : Nat} (inv : Inv (core c.body))
    (idle : Idle c t) : Ready c t ↔ c.body.cfg.maxRetries = 0 ∨ 2 ≤ c.body.cwnd := by
  have empty (j : BufIx) : (core c.body).bufs j = none := idle.empty j
  have flying : c.body.inflightN = 0 :=
    inv.rep.inflightN_eq.trans (total_eq_zero _ _ fun j => by rw [empty j]; rfl)
  have used : c.body.usedN = 0 :=
    inv.rep.usedN_eq.trans (total_eq_zero _ _ fun j => by rw [empty j]; rfl)
  obtain ⟨r, last, run, answer⟩ := halowAckTxReady_alone idle.free idle.vacancy
  simp only [flying, used, effWindow_cwnd inv] at answer
  rw [Ready, run]
  simp [ackBufN] at answer ⊢
  exact answer

structure Wide (b : Body ρ) : Prop where
  cwnd : 2 ≤ b.cwnd
  window : 2 ≤ b.window
  live : b.cfg.window = b.window

theorem cwndShed_ge {window cwnd : Nat} (wide : 2 ≤ window) (open' : 2 ≤ cwnd) :
    2 ≤ cwndShed window cwnd := by
  simp only [cwndShed, if_pos wide]
  split
  · split <;> omega
  · exact open'

theorem wide_of_ne {cfg : Config} (wide : (configClamp cfg).window ≠ 1) :
    2 ≤ (configClamp cfg).window := by
  have pos := (configClamp_clamped cfg).window_pos
  omega

theorem Aside.wide {b b' : Body ρ} (aside : Aside b b') (wide : Wide b) : Wide b' where
  cwnd := aside.cwnd ▸ wide.cwnd
  window := aside.window ▸ wide.window
  live := by rw [aside.cfg, aside.window, wide.live]

theorem Stroke.wide (each : ∀ cfg, W cfg → (configClamp cfg).window ≠ 1) {b b' : Body ρ}
    (stroke : Stroke (Call.within W) b b') (wide : Wide b) : Wide b' := by
  cases stroke with
  | aside aside => exact aside.wide wide
  | grown =>
    have before := wide.cwnd
    exact ⟨by dsimp only; split <;> omega, wide.window, wide.live⟩
  | shed => exact ⟨cwndShed_ge (wide.live ▸ wide.window) wide.cwnd, wide.window, wide.live⟩
  | installed cfg ok =>
    have next := wide_of_ne (each cfg ok)
    have before := wide.cwnd
    exact ⟨by dsimp only; split <;> omega, next, rfl⟩
  | cached => exact ⟨wide.cwnd, wide.window, wide.live⟩
  | refreshed aside | tuned i p _ aside | stepped _ _ _ _ _ _ aside | dated news _ aside =>
    exact aside.wide ⟨wide.cwnd, wide.window, wide.live⟩

theorem ReachableBy.wide (each : ∀ cfg, W cfg → (configClamp cfg).window ≠ 1) {c : Threads ρ}
    (h : ReachableBy (Call.within W) c) : Wide c.body := by
  refine h.keeps ?_ fun b b' stroke wide => stroke.wide each wide
  intro stored r ok
  have next := wide_of_ne (each stored ok)
  refine ⟨?_, next, rfl⟩
  rw [boot_cwnd]
  split <;> omega

theorem ReachableBy.untracked (each : ∀ cfg, W cfg → (configClamp cfg).maxRetries = 0)
    {c : Threads ρ} (h : ReachableBy (Call.within W) c) : c.body.cfg.maxRetries = 0 := by
  refine h.keeps (J := fun b => b.cfg.maxRetries = 0) ?_ fun b b' stroke off => ?_
  · exact fun stored r ok => each stored ok
  · rcases stroke.cfg with same | ⟨cfg, ok, new⟩
    · exact same ▸ off
    · exact new ▸ each cfg ok

def keepsGate : Frame (Body ρ) where
  rel b b' := b'.cfg = b.cfg ∧ b'.cwnd = b.cwnd ∧ b'.bufs = b.bufs
  refl _ := ⟨rfl, rfl, rfl⟩
  trans first second := ⟨second.1.trans first.1, second.2.1.trans first.2.1,
    second.2.2.trans first.2.2⟩

theorem dfltMcsRefresh_gate : keepsGate.Around (dfltMcsRefresh : Code ρ Unit) := by
  refine .bind (fun _ _ => ⟨rfl, rfl, rfl⟩) fun now => .bind (.read _) fun _ => .ite (.pure _) ?_
  exact fun _ _ => ⟨rfl, rfl, rfl⟩

theorem configApplyPeer_gate (cfg : Config) (i : PeerIx) :
    keepsGate.Around (configApplyPeer cfg i : Code ρ Unit) := by
  have entry (f : AckPeer → AckPeer) : keepsGate.Around (modifyPeer i f : Code ρ Unit) :=
    fun _ _ => ⟨rfl, rfl, rfl⟩
  have initial : keepsGate.Around (peerInitMcs : Code ρ Byte) :=
    .bind (.read _) fun _ => .ite (.pure _) (.bind dfltMcsRefresh_gate fun _ => .read _)
  refine .bind (.read _) fun p => .when (.bind (.when (entry _)) fun _ => .bind ?_ fun _ => entry _)
  exact .ite (entry _) (.when (.bind initial fun _ => entry _))

theorem configInstall_gate (cfg : Config) (t : Nat) (b : Body ρ) :
    (configInstall cfg t b).2.cfg = cfg ∧
      (configInstall cfg t b).2.cwnd = (if b.cwnd > cfg.window then cfg.window else b.cwnd) ∧
      (configInstall cfg t b).2.bufs = b.bufs :=
  Frame.Around.forEach (F := keepsGate) (configApplyPeer_gate cfg) allPeers t _

theorem halowAckConfigApply_alone (cfg : Config) {s : Node ρ} {n : Nat} (free : s.Free n) :
    Alone (halowAckConfigApply cfg) s fun _ s' => s'.owner = none ∧
      s'.body.cfg = configClamp cfg ∧ s'.body.bufs = s.body.bufs ∧
      s'.body.cwnd = if s.body.cwnd > (configClamp cfg).window then (configClamp cfg).window
        else s.body.cwnd := by
  have refreshed := dfltMcsRefresh_gate s.active s.body
  refine .seq (.sec (.locked (n := n) free fun s1 free1 _ body1 => ?_))
  refine .locked (n := n) free1 fun s2 free2 _ body2 => .sec ⟨free2.1, ?_⟩
  have installed := configInstall_gate (configClamp cfg) s.active (dfltMcsRefresh s.active s.body).2
  rw [refreshed.2.1, refreshed.2.2, ← body1] at installed
  change s2.body.cfg = _ ∧ s2.body.bufs = _ ∧ s2.body.cwnd = _
  rw [body2]
  exact ⟨installed.1, installed.2.2, installed.2.1⟩

theorem halowAckConfigApply_stays (cfg : Config) :
    Stays (Call.prog (.configApply cfg) : Prog (Node ρ) Result) := by
  refine .bind (.bind (.sec _) fun _ => .bind .lock fun _ => .bind (.sec _) fun _ => ?_) fun _ =>
    .pure _
  refine .bind .unlock fun _ => .bind .lock fun _ => .bind (.sec _) fun _ => ?_
  exact .bind .unlock fun _ => .sec _

theorem stall_reachable {first second : Config} (stored : W first) (live : W second)
    (narrow : (configClamp first).window = 1) (retries : (configClamp second).maxRetries ≠ 0) :
    ∃ c : Threads Board, ReachableBy (Call.within W) c ∧ Idle c 0 ∧
      c.body.cfg = configClamp second ∧ ¬ Ready c 0 := by
  let board : Board := .quiet 7 8
  have booted : ReachableBy (Call.within W)
      (⟨boot first board, fun _ => none⟩ : Threads Board) := .start _ ⟨first, _, stored, rfl⟩
  obtain ⟨_, s, run, free, cfg, bufs, cwnd⟩ := halowAckConfigApply_alone second
    (s := boot first board) (n := 0) ⟨rfl, rfl⟩
  have applied : ReachableBy (Call.within W) (⟨s, fun _ => none⟩ : Threads Board) := by
    refine Pool.Reachable.alone booted (t := 0) (a := Result.void)
      ⟨.configApply second, live, rfl, by simp⟩ rfl (halowAckConfigApply_stays second) ?_
    change (do halowAckConfigApply second; pure .void : Prog (Node Board) Result).run
      (boot first board) = _
    rw [Prog.run_bind, run]
    rfl
  let later : Board := { board with jiffies := s.body.plat.jiffies }
  let vacant : Body Board := { s.body with plat := later }
  have drifted : ReachableBy (Call.within W)
      (⟨{ s with body := vacant }, fun _ => none⟩ : Threads Board) :=
    .step applied (.drift _ _ ⟨vacant, ⟨later, Nat.le_refl _, rfl⟩, rfl⟩)
  have idle : Idle (⟨{ s with body := vacant }, fun _ => none⟩ : Threads Board) 0 :=
    { empty := fun j => (congrFun bufs j).trans (boot_bufs first board j)
      vacancy := (by decide : ackTxVacancyLow ≤ Radio.txBufferSize)
      free := by simp [Locked.available, free] }
  refine ⟨_, drifted, idle, cfg, ?_⟩
  rw [idle.ready_iff drifted.reachable.inv, not_or]
  have small : s.body.cwnd ≤ 1 := by
    have before : (boot first board).body.cwnd = 1 := by rw [boot_cwnd, narrow]; rfl
    rw [cwnd, before]
    split <;> omega
  refine ⟨?_, Nat.not_le_of_lt (Nat.lt_succ_of_le small)⟩
  change s.body.cfg.maxRetries ≠ 0
  rw [cfg]
  exact retries

theorem idle_gate_open_iff (W : Config → Prop) :
    (∀ (ρ : Type) [Platform ρ] (c : Threads ρ) (t : Nat), ReachableBy (Call.within W) c →
      Idle c t → Ready c t) ↔
      (∀ cfg, W cfg → (configClamp cfg).maxRetries = 0) ∨
        ∀ cfg, W cfg → (configClamp cfg).window ≠ 1 := by
  constructor
  · intro always
    by_contra some
    push Not at some
    obtain ⟨⟨second, live, retries⟩, first, stored, narrow⟩ := some
    obtain ⟨c, reach, idle, -, stalled⟩ := stall_reachable stored live narrow retries
    exact stalled (always Board c 0 reach idle)
  · rintro (off | wide) ρ inst c t reach idle
    · exact (idle.ready_iff reach.reachable.inv).mpr (.inl (reach.untracked off))
    · exact (idle.ready_iff reach.reachable.inv).mpr (.inr (reach.wide wide).cwnd)

theorem idle_gate_open_wide : (∀ cfg, 2 ≤ cfg.window → (configClamp cfg).window ≠ 1) ∧
    ∀ (ρ : Type) [Platform ρ] (c : Threads ρ) (t : Nat),
      ReachableBy (Call.within fun cfg => 2 ≤ cfg.window) c → Idle c t → Ready c t := by
  have wide (cfg : Config) (two : 2 ≤ cfg.window) : (configClamp cfg).window ≠ 1 := by
    simp only [configClamp, slotsMax]
    split <;> split <;> omega
  exact ⟨wide, (idle_gate_open_iff _).mpr (.inr wide)⟩

theorem idle_gate_closed :
    ∃ c : Threads Board, ReachableBy (Call.within fun cfg => cfg = halowAckConfigSetDefault ∨
      cfg = { halowAckConfigSetDefault with window := 1 }) c ∧ Idle c 0 ∧
      c.body.cfg = halowAckConfigSetDefault ∧ ¬ Ready c 0 :=
  stall_reachable (W := fun cfg => cfg = halowAckConfigSetDefault ∨
    cfg = { halowAckConfigSetDefault with window := 1 }) (.inr rfl) (.inl rfl) rfl (by decide)

end RnodeHalow.Ack
