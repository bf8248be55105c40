import RnodeHalow.Ack.RateSteps
import RnodeHalow.Ack.StaleReset

set_option autoImplicit false

namespace RnodeHalow.Ack

open Resumption
open Platform (jiffies elapse)
open Function (update update_of_ne update_self)

variable {ρ : Type} [Platform ρ]

structure Collapse where
  time : Nat
  rate : Byte

def Collapse.stamp (d : Collapse) : Jiffy := BitVec.ofNat 32 d.time

def Collapse.follows (d e : Collapse) : Prop :=
  e.stamp ≠ 0#32 ∧ d.stamp - e.stamp < msJ raProbeCooldownMs

instance (d e : Collapse) : Decidable (d.follows e) :=
  inferInstanceAs (Decidable (e.stamp ≠ 0#32 ∧ d.stamp - e.stamp < msJ raProbeCooldownMs))

def failureTop : List Collapse → Byte
  | [] => 0
  | [d] => d.rate
  | d :: e :: older =>
    if d.follows e then (if d.rate > failureTop (e :: older) then d.rate else failureTop (e :: older))
    else d.rate

-- An episode is a chain of downshifts, each less than `raProbeCooldownMs` after the one before.
def episodeTop : List Collapse → Byte
  | [] => 0
  | [d] => d.rate
  | d :: e :: older =>
    if d.time < e.time + raProbeCooldownMs then
      (if d.rate > episodeTop (e :: older) then d.rate else episodeTop (e :: older))
    else d.rate

def SameTurn : List Collapse → Prop
  | d :: e :: older =>
    (d.time < e.time + raProbeCooldownMs ∨ raProbeCooldownMs ≤ (d.time - e.time) % 2 ^ 32) ∧
      SameTurn (e :: older)
  | _ => True

def NewestFirst (history : List Collapse) : Prop := history.Pairwise fun d e => e.time ≤ d.time

theorem stamp_sub {d e : Collapse} (order : e.time ≤ d.time) :
    (d.stamp - e.stamp).toNat = (d.time - e.time) % 2 ^ 32 := by
  have split : d.stamp - e.stamp = BitVec.ofNat 32 (d.time - e.time) := by
    rw [BitVec.sub_eq_iff_eq_add, Collapse.stamp, Collapse.stamp, ← BitVec.ofNat_add,
      Nat.sub_add_cancel order]
  rw [split, BitVec.toNat_ofNat]

theorem failureTop_le_episodeTop {history : List Collapse} (order : NewestFirst history)
    (turn : SameTurn history) : failureTop history ≤ episodeTop history := by
  induction history with
  | nil => exact BitVec.le_refl _
  | cons d older ih =>
    cases older with
    | nil => exact BitVec.le_refl _
    | cons e older =>
      have before := ih (List.pairwise_cons.mp order).2 turn.2
      have earlier : e.time ≤ d.time := (List.pairwise_cons.mp order).1 e (List.mem_cons_self ..)
      have judged : d.follows e → d.time < e.time + raProbeCooldownMs := by
        rintro ⟨-, near⟩
        rw [BitVec.lt_def, stamp_sub earlier] at near
        refine turn.1.resolve_right (Nat.not_le.mpr near)
      simp only [failureTop, episodeTop]
      split
      next follows =>
        rw [if_pos (judged follows)]
        split <;> split <;> bv_omega
      next =>
        split
        · split <;> bv_omega
        · exact BitVec.le_refl _

theorem sameTurn_first {history : List Collapse} (young : ∀ d ∈ history, d.time < 2 ^ 32) :
    SameTurn history := by
  induction history with
  | nil => trivial
  | cons d older ih =>
    cases older with
    | nil => trivial
    | cons e older =>
      refine ⟨?_, ih fun d mem => young d (List.mem_cons_of_mem _ mem)⟩
      have last := young d (List.mem_cons_self ..)
      rw [Nat.mod_eq_of_lt (lt_of_le_of_lt (Nat.sub_le _ _) last)]
      omega

theorem failureTop_ne_zero {history : List Collapse} (rates : ∀ d ∈ history, d.rate ≠ 0#8)
    (some : history ≠ []) : failureTop history ≠ 0#8 := by
  cases history with
  | nil => exact absurd rfl some
  | cons d older =>
    have own := rates d (List.mem_cons_self ..)
    cases older with
    | nil => exact own
    | cons e older =>
      simp only [failureTop]
      split
      · split
        · exact own
        · bv_omega
      · exact own

structure Unshaken (b b' : Body ρ) : Prop where
  txMcs : ∀ k, (b'.peers k).txMcs = (b.peers k).txMcs
  failedTop : ∀ k, (b'.peers k).failedTop = (b.peers k).failedTop
  lastCollapse : ∀ k, (b'.peers k).lastCollapseJiff = (b.peers k).lastCollapseJiff
  clock : jiffies b.plat ≤ jiffies b'.plat

def collapseTime (b : Body ρ) : Nat :=
  jiffies (Platform.elapse (Platform.elapse (Platform.elapse b.plat)))

def downTo (i : PeerIx) (b b' : Body ρ) (H : PeerIx → List Collapse) : PeerIx → List Collapse :=
  if (b'.peers i).txMcs = (b.peers i).txMcs then H
  else Function.update H i (⟨collapseTime b, (b.peers i).txMcs⟩ :: H i)

def uncleared (b' : Body ρ) (H : PeerIx → List Collapse) : PeerIx → List Collapse :=
  fun i => if (b'.peers i).failedTop = 0#8 then [] else H i

inductive Lapses : (PeerIx → List Collapse) → Body ρ → Prop
  | boot (stored : Config) (r : ρ) : Lapses (fun _ => []) (boot stored r).body
  | other {H : PeerIx → List Collapse} {b b' : Body ρ} : Lapses H b → Unshaken b b' → Lapses H b'
  | down {H : PeerIx → List Collapse} {b : Body ρ} (i : PeerIx) (t : Nat) : Lapses H b →
      Lapses (downTo i b (raDownStep i t b).2 H) (raDownStep i t b).2
  | up {H : PeerIx → List Collapse} {b : Body ρ} (i : PeerIx) (t : Nat) : Lapses H b →
      Lapses H (raUpStep i t b).2
  | get {H : PeerIx → List Collapse} {b : Body ρ} (mac : Mac) (t : Nat) : Lapses H b →
      Lapses (uncleared (peerGet mac t b).2 H) (peerGet mac t b).2
  | stale {H : PeerIx → List Collapse} {b : Body ρ} (i : PeerIx) (t : Nat) : Lapses H b →
      Lapses (uncleared (raCheckStale i t b).2 H) (raCheckStale i t b).2
  | install {H : PeerIx → List Collapse} {b : Body ρ} (c : Config) (t : Nat) : Lapses H b →
      Lapses H (configInstall c t b).2

variable {b b' : Body ρ} {α : Type}

theorem Beside.unshaken (beside : Beside b b') : Unshaken b b' where
  txMcs := beside.txMcs
  failedTop := beside.failedTop
  lastCollapse := beside.lastCollapseJiff
  clock := beside.clock

def lapsing : Frame (Body ρ) where
  rel b b' := ∀ H, Lapses H b → ∃ H', Lapses H' b'
  refl _ H run := ⟨H, run⟩
  trans first second H run := by
    obtain ⟨H', run'⟩ := first H run
    exact second H' run'

theorem Unshaken.lapsing (unshaken : Unshaken b b') : Ack.lapsing.rel b b' :=
  fun H run => ⟨H, run.other unshaken⟩

def unshakes : Frame (Body ρ) where
  rel := Unshaken
  refl _ := ⟨fun _ => rfl, fun _ => rfl, fun _ => rfl, Nat.le_refl _⟩
  trans first second := {
    txMcs := fun k => (second.txMcs k).trans (first.txMcs k)
    failedTop := fun k => (second.failedTop k).trans (first.failedTop k)
    lastCollapse := fun k => (second.lastCollapse k).trans (first.lastCollapse k)
    clock := Nat.le_trans first.clock second.clock }

theorem unshakes_lapsing {m : Code ρ α} (around : unshakes.Around m) :
    lapsing.Around m := fun t b => (around t b).lapsing

theorem hushed_lapsing {m : Code ρ α} (around : hushes.Around m) :
    lapsing.Around m := fun t b => (around t b).toBeside.unshaken.lapsing

variable (i : PeerIx) (t : Nat)

theorem raDownStep_lapsing : lapsing.Around (raDownStep i : Code ρ Unit) :=
  fun t _ _ run => ⟨_, run.down i t⟩

theorem raUpStep_lapsing : lapsing.Around (raUpStep i : Code ρ Unit) :=
  fun t _ _ run => ⟨_, run.up i t⟩

theorem modifyPeer_unshaken {f : AckPeer → AckPeer}
    (same : ∀ p, (f p).txMcs = p.txMcs ∧ (f p).failedTop = p.failedTop ∧
      (f p).lastCollapseJiff = p.lastCollapseJiff) :
    unshakes.Around (modifyPeer i f : Code ρ Unit) := by
  intro t b
  have entry := entry_rel (R := fun p q => q.txMcs = p.txMcs ∧ q.failedTop = p.failedTop ∧
    q.lastCollapseJiff = p.lastCollapseJiff) (fun _ => ⟨rfl, rfl, rfl⟩) (same (b.peers i))
  exact ⟨fun k => (entry k).1, fun k => (entry k).2.1, fun k => (entry k).2.2, Nat.le_refl _⟩

theorem raOnAck_lapsing : lapsing.Around (raOnAck i : Code ρ Unit) := by
  refine .bind (hushed_lapsing nowJ_hushed) fun now => ?_
  refine .bind (unshakes_lapsing (modifyPeer_unshaken i fun _ => ⟨rfl, rfl, rfl⟩)) fun _ => ?_
  refine .bind (.read _) fun p => .bind (.read _) fun b => .when ?_
  refine .bind (hushed_lapsing (modifyStats_hushed _)) fun _ => ?_
  refine .bind (hushed_lapsing (modifyPeer_hushed i fun _ => rfl)) fun _ => ?_
  exact .ite (raDownStep_lapsing i) (raUpStep_lapsing i)

theorem ackNotePeer_lapsing (evm : Byte) : lapsing.Around (ackNotePeer i evm : Code ρ Unit) := by
  refine .bind (.read _) fun _ => .bind (hushed_lapsing (modifyPeer_hushed i fun _ => rfl)) fun _ => ?_
  exact raOnAck_lapsing i

theorem lapsing_recollects : Recollects (lapsing : Frame (Body ρ)) where
  beside moved := moved.unshaken.lapsing
  get mac t _ _ run := ⟨_, run.get mac t⟩
  envAck payload src _ _ := rxEnvAckSection_around (fun moved => moved.toBeside.unshaken.lapsing)
    payload src ackNotePeer_lapsing
  fidAck payload src _ _ := rxAckLocked_around (fun moved => moved.toBeside.unshaken.lapsing)
    payload src ackNotePeer_lapsing
  bundle payload src _ _ := hushed_lapsing (hushes_lax.rxBundleLocked payload src)
  data payload src := rxDataNoted_around (fun moved => moved.toBeside.unshaken.lapsing) payload src
    fun mac t _ _ run => ⟨_, run.get mac t⟩
  drop i := by
    refine .bind (hushed_lapsing (hushes_lax.raInGrace i)) fun grace => .when (.bind ?_ fun _ => ?_)
    · exact hushed_lapsing (modifyPeer_hushed i fun _ => rfl)
    · exact .bind (.read _) fun p => .bind (.read _) fun b => .when (raDownStep_lapsing i)
  stale i t _ _ run := ⟨_, run.stale i t⟩
  install c t _ _ run := ⟨_, run.install c t⟩
  cache _ b := Unshaken.lapsing ⟨fun _ => rfl, fun _ => rfl, fun _ => rfl, Nat.le_refl _⟩

theorem Reachable.lapses {c : Threads ρ} (h : Reachable c) : ∃ H, Lapses H c.body := by
  induction h with
  | start s first =>
    obtain ⟨stored, r, rfl⟩ := first
    exact ⟨_, .boot stored r⟩
  | step before move ih =>
    obtain ⟨H, run⟩ := ih
    exact lapsing_recollects.step before move H run

structure Steady (b b' : Body ρ) : Prop where
  failedTop : ∀ k, (b'.peers k).failedTop = (b.peers k).failedTop
  lastCollapse : ∀ k, (b'.peers k).lastCollapseJiff = (b.peers k).lastCollapseJiff
  clock : jiffies b.plat ≤ jiffies b'.plat

def steadies : Frame (Body ρ) where
  rel := Steady
  refl _ := ⟨fun _ => rfl, fun _ => rfl, Nat.le_refl _⟩
  trans first second := {
    failedTop := fun k => (second.failedTop k).trans (first.failedTop k)
    lastCollapse := fun k => (second.lastCollapse k).trans (first.lastCollapse k)
    clock := Nat.le_trans first.clock second.clock }

theorem Unshaken.steady (unshaken : Unshaken b b') : Steady b b' :=
  ⟨unshaken.failedTop, unshaken.lastCollapse, unshaken.clock⟩

theorem hushed_steady {m : Code ρ α} (around : hushes.Around m) :
    steadies.Around m := fun t b => (around t b).toBeside.unshaken.steady

theorem modifyPeer_steady {f : AckPeer → AckPeer}
    (same : ∀ p, (f p).failedTop = p.failedTop ∧ (f p).lastCollapseJiff = p.lastCollapseJiff) :
    steadies.Around (modifyPeer i f : Code ρ Unit) := by
  intro t b
  have entry := entry_rel (R := fun p q => q.failedTop = p.failedTop ∧
    q.lastCollapseJiff = p.lastCollapseJiff) (fun _ => ⟨rfl, rfl⟩) (same (b.peers i))
  exact ⟨fun k => (entry k).1, fun k => (entry k).2, Nat.le_refl _⟩

theorem steady_tunes : Tunes (steadies : Frame (Body ρ)) where
  clock := hushed_steady nowJ_hushed
  count _ := hushed_steady (modifyStats_hushed _)
  tune i _ same := modifyPeer_steady i fun p => ⟨(congrArg AckPeer.failedTop (same p) :),
    (congrArg AckPeer.lastCollapseJiff (same p) :)⟩
  log _ _ _ := ⟨fun _ => rfl, fun _ => rfl, Nat.le_refl _⟩

theorem configInstall_steady (c : Config) : steadies.Around (configInstall c : Code ρ Unit) :=
  steady_tunes.configInstall (hushed_steady peerInitMcs_hushed)
    (fun _ => hushed_steady (emit_hushed _ rfl rfl))
    (fun _ _ => ⟨fun _ => rfl, fun _ => rfl, Nat.le_refl _⟩) c

structure Clears (b b' : Body ρ) : Prop where
  entries : ∀ k, ((b'.peers k).failedTop = (b.peers k).failedTop ∧
    (b'.peers k).lastCollapseJiff = (b.peers k).lastCollapseJiff) ∨ (b'.peers k).failedTop = 0#8
  clock : jiffies b.plat ≤ jiffies b'.plat

theorem Steady.clears (steady : Steady b b') : Clears b b' :=
  ⟨fun k => .inl ⟨steady.failedTop k, steady.lastCollapse k⟩, steady.clock⟩

def clears : Frame (Body ρ) where
  rel := Clears
  refl b := (steadies.refl b).clears
  trans := by
    intro a b c first second
    refine ⟨fun k => ?_, Nat.le_trans first.clock second.clock⟩
    rcases second.entries k with ⟨top, last⟩ | cleared
    · rw [top, last]
      exact first.entries k
    · exact .inr cleared

theorem hushed_clears {m : Code ρ α} (around : hushes.Around m) :
    clears.Around m := fun t b => (hushed_steady around t b).clears

theorem modifyPeer_clears {f : AckPeer → AckPeer} (cleared : ∀ p, (f p).failedTop = 0#8) :
    clears.Around (modifyPeer i f : Code ρ Unit) := by
  refine fun t b => ⟨fun k => ?_, Nat.le_refl _⟩
  by_cases here : k = i
  · subst here
    exact .inr (by simpa [modifyPeer] using cleared (b.peers k))
  · exact .inl (by simp [modifyPeer, update_of_ne here])

theorem peerGet_clears (mac : Mac) : clears.Around (peerGet mac : Code ρ (Option PeerIx)) := by
  have clock : clears.Around (nowJ : Code ρ Jiffy) := hushed_clears nowJ_hushed
  refine .bind (.read _) fun found => .bind (hushed_clears peerInitMcs_hushed) fun mcs => ?_
  cases found with
  | some i =>
    refine .bind (hushed_clears (hushes_lax.peerRateStale i)) fun stale => ?_
    refine .bind (.read _) fun judged => .bind (.when ?_) fun _ => ?_
    · refine .bind (modifyPeer_clears i fun _ => rfl) fun _ => fun t b => Steady.clears ?_
      exact ⟨fun _ => rfl, fun _ => rfl, Nat.le_refl _⟩
    · refine .bind clock fun now => .bind ?_ fun _ => .bind (fun t b => Steady.clears ?_) fun _ => .pure _
      · exact hushed_clears (modifyPeer_hushed i fun _ => rfl)
      · exact ⟨fun _ => rfl, fun _ => rfl, Nat.le_refl _⟩
  | none =>
    refine .bind (.read _) fun picked => ?_
    cases picked with
    | none => exact .pure _
    | some i =>
      refine .bind clock fun created => .bind clock fun seen => .bind (fun t b => ?_) fun _ => ?_
      · refine ⟨fun k => ?_, Nat.le_refl _⟩
        by_cases here : k = i
        · subst here
          exact .inr (by simp [AckPeer.zero])
        · exact .inl (by simp [update_of_ne here])
      · exact .bind (hushed_clears (emit_hushed _ rfl rfl)) fun _ => .pure _

theorem raCheckStale_clears : clears.Around (raCheckStale i : Code ρ Unit) := by
  refine .bind (hushed_clears (hushes_lax.peerRateStale i)) fun stale => .when ?_
  refine .bind (hushed_clears peerInitMcs_hushed) fun mcs => ?_
  exact .bind (hushed_clears nowJ_hushed) fun now => modifyPeer_clears i fun _ => rfl

def AckPeer.noteCollapse (p : AckPeer) (now : Jiffy) : AckPeer :=
  { p with
    failedTop :=
      if ¬ (p.lastCollapseJiff ≠ 0 ∧ now - p.lastCollapseJiff < msJ raProbeCooldownMs) ∨
          p.txMcs + 1 > p.failedTop then p.txMcs + 1
      else p.failedTop
    lastCollapseJiff := now }

def topAfter (p : AckPeer) (now : Nat) : Byte :=
  if ¬ (p.lastCollapseJiff ≠ 0 ∧ BitVec.ofNat 32 now - p.lastCollapseJiff < msJ raProbeCooldownMs) ∨
      p.txMcs > p.failedTop then p.txMcs
  else p.failedTop

structure Downshift (i : PeerIx) (b b' : Body ρ) : Prop where
  above : (b.peers i).txMcs ≠ 0#8
  rate : (b'.peers i).txMcs = (b.peers i).txMcs - 1
  top : (b'.peers i).failedTop = topAfter (b.peers i) (collapseTime b)
  last : (b'.peers i).lastCollapseJiff = BitVec.ofNat 32 (collapseTime b)
  others : ∀ k, k ≠ i → (b'.peers k).memory = (b.peers k).memory
  begun : jiffies b.plat ≤ collapseTime b
  ended : collapseTime b ≤ jiffies b'.plat

theorem raNoteCollapse_memory (b : Body ρ) :
    ((raNoteCollapse i t b).2.peers i).memory = ((b.peers i).noteCollapse
      (BitVec.ofNat 32 (jiffies (elapse b.plat)))).memory ∧
    (∀ k, k ≠ i → ((raNoteCollapse i t b).2.peers k).memory = (b.peers k).memory) ∧
    jiffies (elapse b.plat) ≤
      jiffies (raNoteCollapse i t b).2.plat := by
  let noted : Body ρ := { b with
    plat := elapse b.plat
    peers := update b.peers i ((b.peers i).noteCollapse
      (BitVec.ofNat 32 (jiffies (elapse b.plat)))) }
  have kick : Beside noted (raNoteCollapse i t b).2 := (hushes_lax.raKickInflight i t noted).toBeside
  refine ⟨(kick.memory i).trans ?_, fun k ne => (kick.memory k).trans ?_, kick.clock⟩
  · simp [noted]
  · simp [noted, update_of_ne ne]

theorem raDownStep_cases (b : Body ρ) :
    Unshaken b (raDownStep i t b).2 ∨ Downshift i b (raDownStep i t b).2 := by
  rw [raDownStep_apply]
  split
  next above =>
    split
    next due =>
      right
      rw [Sec.bind_apply]
      generalize stats : (modifyStats (fun st => { st with raDownshifts := st.raDownshifts + 1 }) t
        (steppedDown i b)).2 = c
      obtain ⟨next, entry⟩ : ∃ next, c.peers i = (b.peers i).stepDown next := by
        rw [← stats]
        exact ⟨_, update_self ..⟩
      have apart (k : PeerIx) (ne : k ≠ i) : c.peers k = b.peers k := by
        rw [← stats]
        exact update_of_ne ne ..
      have plat : c.plat = elapse (elapse b.plat) := by rw [← stats]; rfl
      obtain ⟨noted, others, ended⟩ := raNoteCollapse_memory i t c
      rw [entry, plat] at noted
      rw [plat] at ended
      have back : (b.peers i).txMcs - 1 + 1 = (b.peers i).txMcs := BitVec.sub_add_cancel ..
      refine ⟨fun zero => ?_, congrArg Memory.txMcs noted, ?_, congrArg Memory.lastCollapseJiff noted,
        fun k ne => (others k ne).trans (congrArg AckPeer.memory (apart k ne)), ?_, ended⟩
      · rw [zero] at above
        bv_omega
      · refine (congrArg Memory.failedTop noted).trans ?_
        simp only [AckPeer.memory, AckPeer.noteCollapse, AckPeer.stepDown, back]
        rfl
      · exact ((Platform.elapse_le _).trans (Platform.elapse_le _)).trans (Platform.elapse_le _)
    next => exact .inl ⟨fun _ => rfl, fun _ => rfl, fun _ => rfl, Platform.elapse_le b.plat⟩
  next => exact .inl ⟨fun _ => rfl, fun _ => rfl, fun _ => rfl, Nat.le_refl _⟩

structure HistoryKept (H : PeerIx → List Collapse) (b : Body ρ) : Prop where
  top : ∀ i, (b.peers i).failedTop = failureTop (H i)
  last : ∀ i d older, H i = d :: older → (b.peers i).lastCollapseJiff = d.stamp
  past : ∀ i, ∀ d ∈ H i, d.time ≤ jiffies b.plat
  order : ∀ i, NewestFirst (H i)
  rates : ∀ i, ∀ d ∈ H i, d.rate ≠ 0#8

namespace HistoryKept

variable {H : PeerIx → List Collapse} {b b' : Body ρ} (kept : HistoryKept H b)
include kept

theorem clear (moved : Clears b b') : HistoryKept (uncleared b' H) b' := by
  have still (i : PeerIx) : (uncleared b' H i = [] ∧ (b'.peers i).failedTop = 0#8) ∨
      (uncleared b' H i = H i ∧ (b'.peers i).failedTop = (b.peers i).failedTop ∧
        (b'.peers i).lastCollapseJiff = (b.peers i).lastCollapseJiff) := by
    by_cases zero : (b'.peers i).failedTop = 0#8
    · exact .inl ⟨if_pos zero, zero⟩
    · exact .inr ⟨if_neg zero, (moved.entries i).resolve_right zero⟩
  constructor
  · intro i
    rcases still i with ⟨none, zero⟩ | ⟨same, top, -⟩
    · rw [none, zero]
      rfl
    · rw [same, top, kept.top i]
  · intro i d older eq
    rcases still i with ⟨none, -⟩ | ⟨same, -, last⟩
    · rw [none] at eq
      cases eq
    · rw [last]
      exact kept.last i d older (same ▸ eq)
  · intro i d mem
    rcases still i with ⟨none, -⟩ | ⟨same, -⟩
    · rw [none] at mem
      cases mem
    · exact (kept.past i d (same ▸ mem)).trans moved.clock
  · intro i
    rcases still i with ⟨none, -⟩ | ⟨same, -⟩
    · rw [none]
      exact .nil
    · exact same ▸ kept.order i
  · intro i d mem
    rcases still i with ⟨none, -⟩ | ⟨same, -⟩
    · rw [none] at mem
      cases mem
    · exact kept.rates i d (same ▸ mem)

theorem stay (steady : Steady b b') : HistoryKept H b' where
  top i := (steady.failedTop i).trans (kept.top i)
  last i d older eq := (steady.lastCollapse i).trans (kept.last i d older eq)
  past i d mem := (kept.past i d mem).trans steady.clock
  order := kept.order
  rates := kept.rates

theorem topAfter_eq {i : PeerIx} (above : (b.peers i).txMcs ≠ 0#8) (now : Nat) :
    topAfter (b.peers i) now = failureTop (⟨now, (b.peers i).txMcs⟩ :: H i) := by
  cases history : H i with
  | nil =>
    have top : (b.peers i).failedTop = 0#8 := by
      rw [kept.top i, history]
      rfl
    have more : (b.peers i).txMcs > (b.peers i).failedTop := by
      rw [top]
      bv_omega
    exact if_pos (.inr more)
  | cons e older =>
    rw [topAfter, kept.last i e older history, kept.top i, history]
    simp only [failureTop]
    by_cases follows : Collapse.follows ⟨now, (b.peers i).txMcs⟩ e
    · rw [if_pos follows]
      have same : e.stamp ≠ 0 ∧ BitVec.ofNat 32 now - e.stamp < msJ raProbeCooldownMs := follows
      by_cases more : (b.peers i).txMcs > failureTop (e :: older)
      · rw [if_pos more, if_pos (.inr more)]
      · rw [if_neg more, if_neg (not_or.mpr ⟨not_not.mpr same, more⟩)]
    · rw [if_neg follows]
      exact if_pos (.inl follows)

theorem shift {i : PeerIx} (down : Downshift i b b') :
    HistoryKept (update H i (⟨collapseTime b, (b.peers i).txMcs⟩ :: H i)) b' := by
  have clock : jiffies b.plat ≤ jiffies b'.plat := down.begun.trans down.ended
  have steady (k : PeerIx) (ne : k ≠ i) : (b'.peers k).failedTop = (b.peers k).failedTop ∧
      (b'.peers k).lastCollapseJiff = (b.peers k).lastCollapseJiff :=
    ⟨congrArg Memory.failedTop (down.others k ne), congrArg Memory.lastCollapseJiff (down.others k ne)⟩
  constructor
  · intro k
    by_cases here : k = i
    · subst here
      rw [update_self, down.top, kept.topAfter_eq down.above]
    · rw [update_of_ne here, (steady k here).1, kept.top k]
  · intro k d older eq
    by_cases here : k = i
    · subst here
      rw [update_self] at eq
      cases eq
      exact down.last
    · rw [update_of_ne here] at eq
      rw [(steady k here).2, kept.last k d older eq]
  · intro k d mem
    by_cases here : k = i
    · subst here
      rw [update_self] at mem
      rcases List.mem_cons.mp mem with rfl | old
      · exact down.ended
      · exact (kept.past k d old).trans clock
    · rw [update_of_ne here] at mem
      exact (kept.past k d mem).trans clock
  · intro k
    by_cases here : k = i
    · subst here
      rw [update_self]
      exact List.pairwise_cons.mpr ⟨fun e old => (kept.past k e old).trans down.begun, kept.order k⟩
    · rw [update_of_ne here]
      exact kept.order k
  · intro k d mem
    by_cases here : k = i
    · subst here
      rw [update_self] at mem
      rcases List.mem_cons.mp mem with rfl | old
      · exact down.above
      · exact kept.rates k d old
    · rw [update_of_ne here] at mem
      exact kept.rates k d mem

end HistoryKept

theorem Lapses.kept {H : PeerIx → List Collapse} (run : Lapses H b) : HistoryKept H b := by
  induction run with
  | boot stored r => exact ⟨fun _ => rfl, by simp, by simp, fun _ => .nil, by simp⟩
  | other _ unshaken ih => exact ih.stay unshaken.steady
  | @down H b i t _ ih =>
    rcases raDownStep_cases i t b with still | down
    · rw [downTo, if_pos (still.txMcs i)]
      exact ih.stay still.steady
    · have moved : ((raDownStep i t b).2.peers i).txMcs ≠ (b.peers i).txMcs := by
        rw [down.rate]
        bv_omega
      rw [downTo, if_neg moved]
      exact ih.shift down
  | up i t _ ih => exact ih.stay (steady_tunes.raUpStep i t _)
  | get mac t _ ih => exact ih.clear (peerGet_clears mac t _)
  | stale i t _ ih => exact ih.clear (raCheckStale_clears i t _)
  | install c t _ ih => exact ih.stay (configInstall_steady c t _)

theorem raProbeCapped_below {i : PeerIx} {d : Collapse} (ceilMcs : Byte)
    (failed : (b.peers i).failedTop ≠ 0#8) (stamp : (b.peers i).lastCollapseJiff = d.stamp)
    (stamped : d.stamp ≠ 0#32) (past : d.time ≤ jiffies b.plat)
    (soon : jiffies (raProbeCapped i ceilMcs t b).2.plat < d.time + raProbeCooldownMs) :
    (raProbeCapped i ceilMcs t b).1 < (b.peers i).failedTop := by
  have unset : ¬ ((b.peers i).failedTop = 0 ∨ (b.peers i).lastCollapseJiff = 0) := by
    rw [stamp]
    exact not_or.mpr ⟨failed, stamped⟩
  have ran : raProbeCapped i ceilMcs t b = (do
      let now ← nowJ
      if now - (b.peers i).lastCollapseJiff ≥ msJ raProbeCooldownMs then pure ceilMcs
      else
        let cap := (b.peers i).failedTop - 1
        if ceilMcs > cap then
          modifyStats fun st => { st with raBlkProbe := st.raBlkProbe + 1 }
          pure cap
        else pure ceilMcs) t b :=
    (Sec.ite_apply _ _ _ t b).trans (if_neg unset)
  have clock : (raProbeCapped i ceilMcs t b).2.plat = elapse b.plat := by
    rw [ran, Sec.bind_apply, Sec.ite_apply]
    split
    · rfl
    rw [Sec.ite_apply]
    split <;> rfl
  have near : ¬ (nowJ t b).1 - (b.peers i).lastCollapseJiff ≥ msJ raProbeCooldownMs := by
    have later : d.time ≤ jiffies (elapse b.plat) :=
      past.trans (Platform.elapse_le b.plat)
    have passed := stamp_sub (d := ⟨jiffies (elapse b.plat), 0⟩) later
    rw [clock] at soon
    rw [ge_iff_le, BitVec.not_le, BitVec.lt_def, stamp]
    refine lt_of_eq_of_lt passed (lt_of_le_of_lt (Nat.mod_le _ _) ?_)
    rw [show (msJ raProbeCooldownMs).toNat = raProbeCooldownMs from rfl]
    dsimp only
    omega
  rw [ran, Sec.bind_apply, Sec.ite_apply, if_neg near, Sec.ite_apply]
  split
  · change (b.peers i).failedTop - 1 < _
    bv_omega
  next low =>
    change ceilMcs < _
    bv_omega

theorem raOnAckNoted_unshaken : unshakes.Around (raOnAckNoted i : Code ρ Unit) := by
  refine .bind (fun t b => (nowJ_hushed t b).unshaken) fun now => ?_
  refine .bind (modifyPeer_unshaken i fun _ => ⟨rfl, rfl, rfl⟩) fun _ => ?_
  refine .bind (fun t b => (modifyStats_hushed _ t b).unshaken) fun _ => ?_
  exact modifyPeer_unshaken i fun _ => ⟨rfl, rfl, rfl⟩

theorem raOnAck_still {i : PeerIx} {t : Nat} (off : ¬ Adapts i b) :
    ((raOnAck i t b).2.peers i).txMcs = (b.peers i).txMcs := by
  let b1 := ((do
    let now ← nowJ
    modifyPeer i fun p =>
      { p with lastAckJiff := now, lossQ8 := (p.lossQ8 * (raEwmaW - 1)) >>> 3 }) t b).2
  have rate : (b1.peers i).txMcs = (b.peers i).txMcs := by
    change (update b.peers i _ i).txMcs = _
    rw [update_self]
    rfl
  change ((Sec.when (b1.cfg.rateAdapt ≠ 0 ∧ (b1.peers i).txMcs ≠ halowMcsDefault) _ t b1).2.peers
    i).txMcs = _
  rw [Sec.when_apply, if_neg fun on => off ⟨on.1, rate ▸ on.2⟩]
  exact rate

theorem raUpStep_below (b : Body ρ) :
    (((raUpStep i t b).2.peers i).txMcs ≠ (b.peers i).txMcs →
      ((raUpStep i t b).2.peers i).txMcs ≤ (raProbeCapped i raMaxMcs t b).1) ∧
    jiffies (raProbeCapped i raMaxMcs t b).2.plat ≤
      jiffies (raUpStep i t b).2.plat := by
  have rate := (hushes_lax.raProbeCapped i raMaxMcs t b).txMcs i
  rw [raUpStep_apply]
  generalize raProbeCapped i raMaxMcs t b = r at rate
  dsimp only
  rw [← rate]
  split
  · exact ⟨fun moved => absurd rfl moved, Nat.le_refl _⟩
  split
  · exact ⟨fun moved => absurd rfl moved, Nat.le_refl _⟩
  next below =>
    split
    · exact ⟨fun moved => absurd rfl moved, Platform.elapse_le _⟩
    · refine ⟨fun _ => ?_, (Platform.elapse_le _).trans (Platform.elapse_le _)⟩
      change (update r.2.peers i _ i).txMcs ≤ _
      rw [update_self]
      change (r.2.peers i).txMcs + 1 ≤ r.1
      bv_omega

theorem climb_below {H : PeerIx → List Collapse} {i : PeerIx} {t : Nat} {d : Collapse}
    {older : List Collapse} (kept : HistoryKept H b)
    (climbs : (b.peers i).txMcs < ((raOnAck i t b).2.peers i).txMcs) (history : H i = d :: older)
    (stamped : d.stamp ≠ 0#32)
    (soon : jiffies (raOnAck i t b).2.plat < d.time + raProbeCooldownMs) :
    ((raOnAck i t b).2.peers i).txMcs < failureTop (H i) := by
  have adapts : Adapts i b := by
    by_contra off
    rw [raOnAck_still off] at climbs
    bv_omega
  have noted : Unshaken b (raOnAckNoted i t b).2 := raOnAckNoted_unshaken i t b
  have kept := kept.stay noted.steady
  rw [raOnAck_apply adapts] at climbs soon ⊢
  rw [← noted.txMcs i] at climbs
  generalize (raOnAckNoted i t b).2 = b1 at climbs soon noted kept ⊢
  split at climbs
  next lossy =>
    rcases raDownStep_cases i t b1 with still | down
    · rw [still.txMcs i] at climbs
      bv_omega
    · have above := down.above
      rw [down.rate] at climbs
      bv_omega
  next fine =>
    rw [if_neg fine] at soon ⊢
    have moved : ((raUpStep i t b1).2.peers i).txMcs ≠ (b1.peers i).txMcs := by bv_omega
    obtain ⟨below, clock⟩ := raUpStep_below i t b1
    have failed : (b1.peers i).failedTop ≠ 0#8 := by
      rw [kept.top i, history]
      exact failureTop_ne_zero (history ▸ kept.rates i) (List.cons_ne_nil _ _)
    have capped := raProbeCapped_below t raMaxMcs failed (kept.last i d older history) stamped
      (kept.past i d (history ▸ List.mem_cons_self ..)) (lt_of_le_of_lt clock soon)
    rw [kept.top i] at capped
    exact Nat.lt_of_le_of_lt (below moved) capped

theorem climb_below_episodeTop :
    (∀ c : Threads ρ, Reachable c → ∃ H, Lapses H c.body) ∧
    ∀ (H : PeerIx → List Collapse) (b : Body ρ) (i : PeerIx) (t : Nat) (d : Collapse)
      (older : List Collapse), Lapses H b → H i = d :: older → d.stamp ≠ 0#32 →
      (b.peers i).txMcs < ((raOnAck i t b).2.peers i).txMcs →
      jiffies (raOnAck i t b).2.plat < d.time + raProbeCooldownMs →
      ((raOnAck i t b).2.peers i).txMcs < failureTop (H i) ∧
      (SameTurn (H i) → ((raOnAck i t b).2.peers i).txMcs < episodeTop (H i)) := by
  refine ⟨fun c => Reachable.lapses, fun H b i t d older run history stamped climbs soon => ?_⟩
  have below := climb_below run.kept climbs history stamped soon
  refine ⟨below, fun turn => Nat.lt_of_lt_of_le below ?_⟩
  exact failureTop_le_episodeTop (run.kept.order i) turn

def frameLost (meanwhile : List (Move Board)) : List (Move Board) :=
  .start 1 (.tx [7] remoteMac) :: List.replicate 3 (.resume 1) ++
    .start 1 .flush :: List.replicate 5 (.resume 1) ++ meanwhile ++
    pause 6000 :: .start 0 .tick :: List.replicate 3 (.resume 0)

def firstCollapse : List (Move Board) :=
  frameLost [.wait fun r => { r with cfg := (3, 8), cfgCache := some (3, 8) }] ++ frameLost []

def acksArrive (n : Nat) : List (Move Board) :=
  (List.replicate n (pause 10 :: ackArrives)).flatten

def turnLater : List (Move Board) :=
  pause (2 ^ 31) :: .start 0 .tick :: List.replicate 3 (.resume 0) ++ pause (2 ^ 31) :: frameLost []

def linkRecovers : List (Move Board) := acksArrive 14 ++ pause 1000 :: acksArrive 1

theorem climb_below_episodeTop_secondLoss : ∃ c : Threads Board,
    playAll (firstCollapse ++ frameLost [] ++ acksArrive 14 ++ [pause 1000]) quietNode = some c ∧
    ((c.body.peers 0).failedTop = 7#8 ∧
      (c.body.peers 0).lastCollapseJiff = 118000#32 ∧
      c.body.plat.jiffies = 119140 ∧ (c.body.peers 0).txMcs = 5#8 ∧
      ((raOnAck 0 1 c.body).2.peers 0).txMcs = 6#8 ∧
      (raOnAck 0 1 c.body).2.plat.jiffies = 119140) ∧
    ∃ H, Lapses H c.body ∧ 6#8 < episodeTop (H 0) := by
  refine played_then (by decide +kernel) fun c reach ⟨top, last, clock, five, six, ended⟩ => ?_
  obtain ⟨H, lapses⟩ := reach.lapses
  have young (d : Collapse) (mem : d ∈ H 0) : d.time ≤ 119140 :=
    (lapses.kept.past 0 d mem).trans (Nat.le_of_eq clock)
  cases history : H 0 with
  | nil =>
    have none := lapses.kept.top 0
    rw [top, history] at none
    cases none
  | cons d older =>
    have stamp := lapses.kept.last 0 d older history
    have bound := young d (history ▸ List.mem_cons_self ..)
    have time : d.time = 118000 := by
      have eq := congrArg BitVec.toNat (last.symm.trans stamp)
      rw [Collapse.stamp, BitVec.toNat_ofNat, BitVec.toNat_ofNat] at eq
      omega
    refine ⟨H, lapses, ?_⟩
    have below := (climb_below_episodeTop.2 H c.body 0 1 d older lapses history
      (by rw [← stamp, last]; decide) (by rw [five, six]; decide)
      (by rw [time]; exact lt_of_eq_of_lt ended (by decide))).2
      (sameTurn_first fun d mem => lt_of_le_of_lt (young d mem) (by decide))
    rw [six] at below
    exact below

theorem climb_reaches_failed_rate : ∃ c₁ : Threads Board,
    playAll firstCollapse quietNode = some c₁ ∧ Reachable c₁ ∧
      c₁.body.plat.jiffies = 112000 ∧ (c₁.body.peers 0).txMcs = 6#8 ∧
      c₁.body.stats.raDownshifts = 1 ∧ ∃ c₂ ∈ playAll turnLater c₁,
    c₂.body.plat.jiffies = 112000 + 2 ^ 32 + 6000 ∧ (c₂.body.peers 0).txMcs = 5#8 ∧
      c₂.body.stats.raDownshifts = 2 ∧
      (c₂.body.peers 0).lastCollapseJiff = 118000#32 ∧ ∃ c₃ ∈ playAll linkRecovers c₂,
    c₃.body.plat.jiffies = 112000 + 2 ^ 32 + 6000 + 1150 ∧
      (c₃.body.peers 0).txMcs = 6#8 ∧ c₃.body.stats.raDownshifts = 2 ∧
      c₃.body.stats.raUpshifts = 1 ∧ (c₃.body.peers 0).failedTop = 7#8 :=
  played (by decide +kernel)

end RnodeHalow.Ack
