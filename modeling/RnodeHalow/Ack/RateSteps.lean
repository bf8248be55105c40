import RnodeHalow.Ack.Schedule
import RnodeHalow.Ack.StrokeRuns
import RnodeHalow.Shared.Serial

set_option autoImplicit false

namespace RnodeHalow.Ack

open Resumption Serial
open Platform (jiffies elapse)
open Function (update update_self)

variable {ρ : Type} [Platform ρ] {ok : Call → Prop} {i : PeerIx}

-- The governor reads the clock at the first time, and at the second for the end of its gap.
inductive StepTo (i : PeerIx) (b : Body ρ) : Nat → Nat → Body ρ → Prop
  | down (t : Nat) : OwnRate i b → ((raDownStep i t b).2.peers i).txMcs ≠ (b.peers i).txMcs →
      StepTo i b (jiffies (Platform.elapse b.plat)) (stepTime b) (raDownStep i t b).2
  | up (t : Nat) : ((raUpStep i t b).2.peers i).txMcs ≠ (b.peers i).txMcs →
      StepTo i b (jiffies (Platform.elapse (raProbeCapped i raMaxMcs t b).2.plat))
        (stepTime (raProbeCapped i raMaxMcs t b).2) (raUpStep i t b).2

-- The last step was at `stamp`; since then no step, no configuration and no stale reset.
inductive SinceStep (ok : Call → Prop) (i : PeerIx) : Nat → Body ρ → Prop
  | step {τ stamp : Nat} {b b' : Body ρ} : Passed ok b → StepTo i b τ stamp b' →
      SinceStep ok i stamp b'
  | later {stamp : Nat} {b b' : Body ρ} : SinceStep ok i stamp b → Stroke ok b b' →
      (b'.peers i).txMcs = (b.peers i).txMcs →
      (b'.peers i).nextStepAllowed = (b.peers i).nextStepAllowed → SinceStep ok i stamp b'

variable {τ t : Nat} {b b' : Body ρ}

theorem StepTo.strokes {stamp : Nat} (step : StepTo i b τ stamp b') : (strokes ok).rel b b' := by
  cases step with
  | down t own moved => exact (raDownStep_leads i t b own).1
  | up t moved => exact raUpStep_strokes i t b

structure Moves (i : PeerIx) (b : Body ρ) (τ stamp : Nat) (b' : Body ρ) : Prop where
  dial : Stepped b τ stamp (b.peers i).dial (b'.peers i).dial
  first : jiffies b.plat ≤ τ
  second : τ ≤ stamp
  third : stamp ≤ jiffies b'.plat

theorem steppedTo_moves {p : AckPeer} {b1 : Body ρ} (probed : Aside b b1)
    (rest : Aside (steppedTo i p b1) b')
    (steps : Stepped b1 (jiffies (elapse b1.plat)) (stepTime b1) (b1.peers i).dial p.dial) :
    Moves i b (jiffies (elapse b1.plat)) (stepTime b1) b' where
  dial := by
    have entry : (b'.peers i).dial = p.dial := by
      rw [rest.dials i]
      exact congrArg AckPeer.dial (update_self ..)
    rw [entry, ← probed.dials i]
    generalize p.dial = d' at steps
    have floor : raFloor b1 = raFloor b := by
      simp only [raFloor, dfltMcs, probed.dfltMcsCache]
    cases steps with
    | down own above due => exact probed.cache ▸ .down own (floor ▸ above) due
    | up below due => exact probed.cache ▸ .up below due
  first := probed.clock.trans (Platform.elapse_le _)
  second := Platform.elapse_le _
  third := rest.clock

theorem StepTo.moves {stamp : Nat} (step : StepTo i b τ stamp b') : Moves i b τ stamp b' := by
  cases step with
  | down t own moved =>
    rw [raDownStep_apply] at moved ⊢
    split at moved
    next above =>
      rw [if_pos above]
      split at moved
      next due =>
        rw [if_pos due]
        have rest : asides.Around (do
            modifyStats fun st => { st with raDownshifts := st.raDownshifts + 1 }
            raNoteCollapse i : Code ρ Unit) :=
          .bind (modifyStats_aside _) fun _ => raNoteCollapse_aside i
        exact steppedTo_moves (p := (b.peers i).stepDown _) (.refl b) (rest t _) (.down own above due)
      next => exact absurd rfl moved
    next => exact absurd rfl moved
  | up t moved =>
    have probed := asides_lax.raProbeCapped i raMaxMcs t b
    have capped := raProbeCapped_le i raMaxMcs t b
    have rate : ((raProbeCapped i raMaxMcs t b).2.peers i).txMcs = (b.peers i).txMcs :=
      congrArg Dial.txMcs (probed.dials i)
    rw [raUpStep_apply] at moved ⊢
    generalize raProbeCapped i raMaxMcs t b = r at probed capped rate moved ⊢
    dsimp only at moved ⊢
    split at moved
    · exact absurd rate moved
    next ready =>
      rw [if_neg ready]
      split at moved
      · exact absurd rate moved
      next below =>
        rw [if_neg below]
        split at moved
        · exact absurd rate moved
        next due =>
          rw [if_neg due]
          have under : (r.2.peers i).txMcs < raMaxMcs := by bv_omega
          exact steppedTo_moves (p := (r.2.peers i).stepUp _) probed (modifyStats_aside _ t _)
            (.up under (BitVec.not_lt.mp due))

theorem SinceStep.passed {stamp : Nat} (since : SinceStep ok i stamp b) : Passed ok b := by
  induction since with
  | step passed step => exact passed.next step.strokes
  | later _ stroke _ _ ih => exact ih.next stroke.single

theorem Stroke.clock (stroke : Stroke ok b b') : jiffies b.plat ≤ jiffies b'.plat := by
  cases stroke with
  | aside aside | refreshed aside | tuned _ _ _ aside | stepped _ _ _ _ _ _ aside
  | dated _ _ aside => exact aside.clock
  | grown | shed | installed _ _ | cached => exact Nat.le_refl _

theorem Stroke.stepGap (stroke : Stroke ok b b') (gap : b.cache.stepGapJ = 1000#32) :
    b'.cache.stepGapJ = 1000#32 := by
  cases stroke with
  | aside aside | refreshed aside | tuned _ _ _ aside | stepped _ _ _ _ _ _ aside
  | dated _ _ aside =>
    rw [aside.cache]
    exact gap
  | grown | shed | installed _ _ => exact gap
  | cached => rfl

theorem Passed.stepGap (passed : Passed ok b) : b.cache.stepGapJ = 1000#32 :=
  passed.keeps (J := fun b => b.cache.stepGapJ = 1000#32) (fun _ _ _ => rfl)
    fun _ _ stroke => stroke.stepGap

omit [Platform ρ] in
theorem Stepped.stamped {τ n : Nat} {d d' : Dial} (stepped : Stepped b τ n d d') :
    d'.nextStepAllowed = BitVec.ofNat 32 n + b.cache.stepGapJ := by
  cases stepped <;> rfl

omit [Platform ρ] in
theorem Stepped.due {τ n : Nat} {d d' : Dial} (stepped : Stepped b τ n d d') :
    d.nextStepAllowed ≤ BitVec.ofNat 32 τ := by
  cases stepped <;> assumption

omit [Platform ρ] in
theorem Stepped.byOne {τ n : Nat} {d d' : Dial} (stepped : Stepped b τ n d d') :
    d'.txMcs = d.txMcs + 1 ∨ d'.txMcs = d.txMcs - 1 := by
  cases stepped with
  | down => exact .inr rfl
  | up => exact .inl rfl

theorem SinceStep.stamped {stamp : Nat} (since : SinceStep ok i stamp b) :
    (b.peers i).nextStepAllowed = BitVec.ofNat 32 stamp + BitVec.ofNat 32 raStepGapMs ∧
      stamp ≤ jiffies b.plat := by
  induction since with
  | step passed step =>
    refine ⟨?_, step.moves.third⟩
    have stamped : (AckPeer.dial _).nextStepAllowed = _ := step.moves.dial.stamped
    rw [passed.stepGap] at stamped
    exact stamped
  | later _ stroke _ next ih => exact ⟨next.trans ih.1, ih.2.trans stroke.clock⟩

def raOnAckNoted (i : PeerIx) : Code ρ Unit := do
  let now ← nowJ
  modifyPeer i fun p =>
    { p with lastAckJiff := now, lossQ8 := (p.lossQ8 * (raEwmaW - 1)) >>> 3 }
  modifyStats fun st => { st with raAckCalls := st.raAckCalls + 1 }
  modifyPeer i fun p =>
    { p with acksSinceStep :=
        if p.acksSinceStep ≠ 0xFFFF#16 then p.acksSinceStep + 1 else p.acksSinceStep }

def raOnDropNoted (i : PeerIx) : Code ρ Unit := do
  let _ ← raInGrace i
  modifyPeer i fun p =>
    { p with
      lossQ8 := ((p.lossQ8 * (raEwmaW - 1)) >>> 3) + 256 / raEwmaW
      acksSinceStep := 0 }

def Adapts (i : PeerIx) (b : Body ρ) : Prop :=
  b.cfg.rateAdapt ≠ 0 ∧ (b.peers i).txMcs ≠ halowMcsDefault

def WantsDown (i : PeerIx) (b : Body ρ) : Prop :=
  b.cache.raDownQ8 ≤ (b.peers i).lossQ8 ∧ raFloor b < (b.peers i).txMcs

def WantsUp (i : PeerIx) (t : Nat) (b : Body ρ) : Prop :=
  ¬ b.cache.raDownQ8 ≤ (b.peers i).lossQ8 ∧
    upReady i (raProbeCapped i raMaxMcs t b).1 (raProbeCapped i raMaxMcs t b).2 ∧
    ((raProbeCapped i raMaxMcs t b).2.peers i).txMcs < (raProbeCapped i raMaxMcs t b).1

-- The call gets as far as the governor, which reads the clock at `τ`.
inductive Attempt (i : PeerIx) (t : Nat) (b : Body ρ) : Bool → Nat → Body ρ → Prop
  | ackDown : Adapts i b → WantsDown i (raOnAckNoted i t b).2 →
      Attempt i t b false (jiffies (Platform.elapse (raOnAckNoted i t b).2.plat))
        (raOnAck i t b).2
  | ackUp : Adapts i b → WantsUp i t (raOnAckNoted i t b).2 →
      Attempt i t b true (jiffies (Platform.elapse
        (raProbeCapped i raMaxMcs t (raOnAckNoted i t b).2).2.plat)) (raOnAck i t b).2
  | dropDown : Adapts i b → (raInGrace i t b).1 = false → WantsDown i (raOnDropNoted i t b).2 →
      Attempt i t b false (jiffies (Platform.elapse (raOnDropNoted i t b).2.plat))
        (raOnDrop i t b).2

theorem raOnAck_apply (adapts : Adapts i b) :
    raOnAck i t b = if (raOnAckNoted i t b).2.cache.raDownQ8 ≤
        ((raOnAckNoted i t b).2.peers i).lossQ8
      then raDownStep i t (raOnAckNoted i t b).2 else raUpStep i t (raOnAckNoted i t b).2 := by
  let b1 := ((do
    let now ← nowJ
    modifyPeer i fun p =>
      { p with lastAckJiff := now, lossQ8 := (p.lossQ8 * (raEwmaW - 1)) >>> 3 }) t b).2
  have rate : (b1.peers i).txMcs = (b.peers i).txMcs := by
    change (update b.peers i _ i).txMcs = _
    rw [update_self]
    rfl
  have loss : ((raOnAckNoted i t b).2.peers i).lossQ8 = (b1.peers i).lossQ8 := by
    change (update b1.peers i _ i).lossQ8 = _
    rw [update_self]
    rfl
  change Sec.when (b1.cfg.rateAdapt ≠ 0 ∧ (b1.peers i).txMcs ≠ halowMcsDefault) _ t b1 = _
  rw [Sec.when_apply, if_pos ⟨adapts.1, rate ▸ adapts.2⟩, loss]
  change (if b1.cache.raDownQ8 ≤ (b1.peers i).lossQ8 then raDownStep i else raUpStep i) t
    (raOnAckNoted i t b).2 = _
  rw [Sec.ite_apply]
  rfl

theorem raOnDrop_apply (adapts : Adapts i b) (late : (raInGrace i t b).1 = false)
    (lossy : (raOnDropNoted i t b).2.cache.raDownQ8 ≤ ((raOnDropNoted i t b).2.peers i).lossQ8) :
    raOnDrop i t b = raDownStep i t (raOnDropNoted i t b).2 := by
  let b1 := (raOnDropNoted i t b).2
  have entered := (asides_lax.raInGrace i t b)
  have rate : (b1.peers i).txMcs = (b.peers i).txMcs := by
    have same : ((raInGrace i t b).2.peers i).txMcs = (b.peers i).txMcs :=
      congrArg Dial.txMcs (entered.dials i)
    change (update (raInGrace i t b).2.peers i _ i).txMcs = _
    rw [update_self]
    exact same
  have adapt : b1.cfg.rateAdapt ≠ 0 := by
    change (raInGrace i t b).2.cfg.rateAdapt ≠ 0
    rw [entered.cfg]
    exact adapts.1
  change Sec.when ((raInGrace i t b).1 = false) _ t (raInGrace i t b).2 = _
  rw [Sec.when_apply, if_pos late]
  change Sec.when (b1.cfg.rateAdapt ≠ 0 ∧ (b1.peers i).txMcs ≠ halowMcsDefault ∧
    (b1.peers i).lossQ8 ≥ b1.cache.raDownQ8) _ t b1 = _
  rw [Sec.when_apply, if_pos ⟨adapt, rate ▸ adapts.2, lossy⟩]

theorem raDownStep_mcs (above : raFloor b < (b.peers i).txMcs) :
    ((raDownStep i t b).2.peers i).txMcs = if (b.peers i).nextStepAllowed ≤
        BitVec.ofNat 32 (jiffies (elapse b.plat))
      then (b.peers i).txMcs - 1 else (b.peers i).txMcs := by
  rw [raDownStep_apply, if_pos above]
  split
  · have rest : asides.Around (do
        modifyStats fun st => { st with raDownshifts := st.raDownshifts + 1 }
        raNoteCollapse i : Code ρ Unit) :=
      .bind (modifyStats_aside _) fun _ => raNoteCollapse_aside i
    have same := congrArg Dial.txMcs ((rest t (steppedDown i b)).dials i)
    refine Eq.trans same ?_
    simp [AckPeer.dial, steppedDown, steppedTo, AckPeer.stepDown]
  · rfl

theorem raUpStep_mcs
    (ready : upReady i (raProbeCapped i raMaxMcs t b).1 (raProbeCapped i raMaxMcs t b).2)
    (below : ((raProbeCapped i raMaxMcs t b).2.peers i).txMcs < (raProbeCapped i raMaxMcs t b).1) :
    ((raUpStep i t b).2.peers i).txMcs = if (b.peers i).nextStepAllowed ≤
        BitVec.ofNat 32 (jiffies (elapse (raProbeCapped i raMaxMcs t b).2.plat))
      then (b.peers i).txMcs + 1 else (b.peers i).txMcs := by
  have same := (asides_lax.raProbeCapped i raMaxMcs t b).dials i
  have rate : ((raProbeCapped i raMaxMcs t b).2.peers i).txMcs = (b.peers i).txMcs :=
    congrArg Dial.txMcs same
  have next : ((raProbeCapped i raMaxMcs t b).2.peers i).nextStepAllowed =
      (b.peers i).nextStepAllowed := congrArg Dial.nextStepAllowed same
  rw [raUpStep_apply]
  dsimp only
  rw [if_neg (not_not.mpr ready), if_neg (BitVec.not_le.mpr below), next, ← rate]
  split
  next early =>
    rw [if_neg (BitVec.not_le.mpr early)]
    rfl
  next due =>
    rw [if_pos (BitVec.not_lt.mp due)]
    simp [modifyStats, Sec.modify_apply, steppedUp, steppedTo, AckPeer.stepUp]

structure Untried (i : PeerIx) (b b' : Body ρ) : Prop where
  rate : (b'.peers i).txMcs = (b.peers i).txMcs
  next : (b'.peers i).nextStepAllowed = (b.peers i).nextStepAllowed
  clock : jiffies b.plat ≤ jiffies b'.plat

def untried (i : PeerIx) : Frame (Body ρ) where
  rel := Untried i
  refl _ := ⟨rfl, rfl, Nat.le_refl _⟩
  trans first second := ⟨second.rate.trans first.rate, second.next.trans first.next,
    first.clock.trans second.clock⟩

theorem Aside.untried (aside : Aside b b') : Untried i b b' where
  rate := congrArg Dial.txMcs (aside.dials i)
  next := congrArg Dial.nextStepAllowed (aside.dials i)
  clock := aside.clock

theorem modifyPeer_untried {f : AckPeer → AckPeer} (rate : ∀ p, (f p).txMcs = p.txMcs)
    (next : ∀ p, (f p).nextStepAllowed = p.nextStepAllowed) :
    (untried i).Around (modifyPeer i f : Code ρ Unit) := by
  intro t b
  have entry : (update b.peers i (f (b.peers i))) i = f (b.peers i) :=
    update_self ..
  exact ⟨(congrArg AckPeer.txMcs entry).trans (rate _),
    (congrArg AckPeer.nextStepAllowed entry).trans (next _), Nat.le_refl _⟩

theorem raOnAckNoted_untried (i : PeerIx) : (untried i).Around (raOnAckNoted i : Code ρ Unit) := by
  refine .bind (fun t b => (nowJ_aside t b).untried) fun now => ?_
  refine .bind (modifyPeer_untried (fun _ => rfl) fun _ => rfl) fun _ => ?_
  refine .bind (fun t b => (modifyStats_aside _ t b).untried) fun _ => ?_
  exact modifyPeer_untried (fun _ => rfl) fun _ => rfl

theorem raOnDropNoted_untried (i : PeerIx) :
    (untried i).Around (raOnDropNoted i : Code ρ Unit) := by
  refine .bind (fun t b => (asides_lax.raInGrace i t b).untried) fun _ => ?_
  exact modifyPeer_untried (fun _ => rfl) fun _ => rfl

theorem Attempt.decided {up : Bool} (attempt : Attempt i t b up τ b') :
    jiffies b.plat ≤ τ ∧ (b'.peers i).txMcs =
      if (b.peers i).nextStepAllowed ≤ BitVec.ofNat 32 τ then
        if up then (b.peers i).txMcs + 1 else (b.peers i).txMcs - 1
      else (b.peers i).txMcs := by
  cases attempt with
  | ackDown adapts wants =>
    have noted := raOnAckNoted_untried i t b
    refine ⟨noted.clock.trans (Platform.elapse_le _), ?_⟩
    rw [raOnAck_apply adapts, if_pos wants.1, raDownStep_mcs wants.2, noted.rate, noted.next]
    rfl
  | ackUp adapts wants =>
    have noted := raOnAckNoted_untried i t b
    have probed := (asides_lax.raProbeCapped i raMaxMcs t (raOnAckNoted i t b).2).clock
    refine ⟨noted.clock.trans (probed.trans (Platform.elapse_le _)), ?_⟩
    rw [raOnAck_apply adapts, if_neg wants.1, raUpStep_mcs wants.2.1 wants.2.2, noted.rate,
      noted.next]
    rfl
  | dropDown adapts late wants =>
    have noted := raOnDropNoted_untried i t b
    refine ⟨noted.clock.trans (Platform.elapse_le _), ?_⟩
    rw [raOnDrop_apply adapts late wants.1, raDownStep_mcs wants.2, noted.rate, noted.next]
    rfl

theorem SinceStep.aside {stamp : Nat} (since : SinceStep ok i stamp b) (aside : Aside b b') :
    SinceStep ok i stamp b' :=
  .later since (.aside aside) aside.untried.rate aside.untried.next

theorem raDownStep_since (passed : Passed ok b) (own : OwnRate i b)
    (above : raFloor b < (b.peers i).txMcs)
    (due : (b.peers i).nextStepAllowed ≤ BitVec.ofNat 32 (jiffies (elapse b.plat))) :
    ∃ stamp, jiffies (elapse b.plat) ≤ stamp ∧ SinceStep ok i stamp (raDownStep i t b).2 := by
  have moved : ((raDownStep i t b).2.peers i).txMcs ≠ (b.peers i).txMcs := by
    rw [raDownStep_mcs above, if_pos due]
    bv_omega
  exact ⟨_, Platform.elapse_le _, .step passed (.down t own moved)⟩

theorem raUpStep_since (passed : Passed ok b)
    (ready : upReady i (raProbeCapped i raMaxMcs t b).1 (raProbeCapped i raMaxMcs t b).2)
    (below : ((raProbeCapped i raMaxMcs t b).2.peers i).txMcs < (raProbeCapped i raMaxMcs t b).1)
    (due : (b.peers i).nextStepAllowed ≤ BitVec.ofNat 32
      (jiffies (elapse (raProbeCapped i raMaxMcs t b).2.plat))) :
    ∃ stamp, jiffies (elapse (raProbeCapped i raMaxMcs t b).2.plat) ≤ stamp ∧
      SinceStep ok i stamp (raUpStep i t b).2 := by
  have moved : ((raUpStep i t b).2.peers i).txMcs ≠ (b.peers i).txMcs := by
    rw [raUpStep_mcs ready below, if_pos due]
    bv_omega
  exact ⟨_, Platform.elapse_le _, .step passed (.up t moved)⟩

theorem raOnAckNoted_strokes (i : PeerIx) : (strokes ok).Around (raOnAckNoted i : Code ρ Unit) := by
  refine .bind (asides_strokes nowJ_aside) fun now => .bind (ackLoss_strokes i fun _ => rfl) ?_
  refine fun _ => .bind (asides_strokes (modifyStats_aside _)) fun _ => ?_
  exact asides_strokes (modifyPeer_aside i fun _ => rfl)

theorem raOnDropNoted_strokes (i : PeerIx) : (strokes ok).Around (raOnDropNoted i : Code ρ Unit) :=
  .bind (asides_strokes (asides_lax.raInGrace i)) fun _ => dropLoss_strokes i fun _ => rfl

theorem Untried.ownRate (untried : Untried i b b') (own : OwnRate i b) : OwnRate i b' := by
  rw [OwnRate, untried.rate]
  exact own

theorem Attempt.since {up : Bool} (passed : Passed ok b) (attempt : Attempt i t b up τ b')
    (due : (b.peers i).nextStepAllowed ≤ BitVec.ofNat 32 τ) :
    ∃ stamp, τ ≤ stamp ∧ SinceStep ok i stamp b' := by
  cases attempt with
  | ackDown adapts wants =>
    have noted := raOnAckNoted_untried i t b
    rw [raOnAck_apply adapts, if_pos wants.1]
    exact raDownStep_since (passed.next (raOnAckNoted_strokes i t b)) (noted.ownRate adapts.2)
      wants.2 (noted.next ▸ due)
  | ackUp adapts wants =>
    have noted := raOnAckNoted_untried i t b
    rw [raOnAck_apply adapts, if_neg wants.1]
    exact raUpStep_since (passed.next (raOnAckNoted_strokes i t b)) wants.2.1 wants.2.2
      (noted.next ▸ due)
  | dropDown adapts late wants =>
    have noted := raOnDropNoted_untried i t b
    rw [raOnDrop_apply adapts late wants.1]
    exact raDownStep_since (passed.next (raOnDropNoted_strokes i t b)) (noted.ownRate adapts.2)
      wants.2 (noted.next ▸ due)

-- A step comes early only if the counter turned over within a second of the last one.
theorem rate_step_governed_iff {stamp : Nat} {b : Body ρ} (since : SinceStep ok i stamp b) :
    (∀ τ next b', StepTo i b τ next b' →
      ((b'.peers i).txMcs = (b.peers i).txMcs + 1 ∨ (b'.peers i).txMcs = (b.peers i).txMcs - 1) ∧
      (next - stamp < raStepGapMs →
        stamp % 2 ^ 32 + (τ - stamp) < 2 ^ 32 ∧ 2 ^ 32 ≤ stamp % 2 ^ 32 + raStepGapMs)) ∧
    ∀ t up τ b', Attempt i t b up τ b' → τ - stamp < 2 ^ 32 →
      ((b'.peers i).txMcs = (b.peers i).txMcs ∨
        (b'.peers i).txMcs = (if up then (b.peers i).txMcs + 1 else (b.peers i).txMcs - 1) ∧
          ∃ stamp', τ ≤ stamp' ∧ SinceStep ok i stamp' b') ∧
      (((b'.peers i).txMcs ≠ (b.peers i).txMcs ↔ raStepGapMs ≤ τ - stamp) ↔
        (stamp % 2 ^ 32 + (τ - stamp) < 2 ^ 32 ↔ stamp % 2 ^ 32 + raStepGapMs < 2 ^ 32)) := by
  obtain ⟨next, past⟩ := since.stamped
  have short : raStepGapMs < 2 ^ 32 := by decide
  constructor
  · intro τ stamp' b' step
    obtain ⟨dial, first, second, -⟩ := step.moves
    refine ⟨dial.byOne, fun early => ?_⟩
    have due : (b.peers i).nextStepAllowed ≤ BitVec.ofNat 32 τ := dial.due
    have recent : τ - stamp < 2 ^ 32 := by omega
    rw [next] at due
    rcases (deadline_le_iff (past.trans first) recent short).mp due with ⟨-, late⟩ | turned
    · omega
    · exact turned
  · intro t up τ b' attempt recent
    obtain ⟨first, decided⟩ := attempt.decided
    have other : (if up then (b.peers i).txMcs + 1 else (b.peers i).txMcs - 1) ≠
        (b.peers i).txMcs := by cases up <;> simp
    have due := deadline_le_iff (w := 32) (past.trans first) recent short
    rw [← next, SameTurn] at due
    by_cases granted : (b.peers i).nextStepAllowed ≤ BitVec.ofNat 32 τ
    · rw [if_pos granted] at decided
      refine ⟨.inr ⟨decided, attempt.since since.passed granted⟩, ?_⟩
      have turns := due.mp granted
      rw [decided]
      simp only [ne_eq, other, not_false_eq_true, true_iff]
      omega
    · rw [if_neg granted] at decided
      refine ⟨.inl decided, ?_⟩
      have turns := mt due.mpr granted
      rw [decided]
      simp only [ne_eq, not_true_eq_false, false_iff]
      omega

def metPeer : Body Board :=
  (peerGet ⟨2, 0, 0, 0, 0, 1⟩ 0 (boot halowAckConfigSetDefault (Radio.Board.quiet 2 8)).body).2

def climbedOnce : Body Board :=
  let b := (raOnAck 0 0 metPeer).2
  { b with plat := { b.plat with jiffies := b.plat.jiffies + 1500 } }

theorem metPeer_passed : Passed (fun _ => True) metPeer :=
  ⟨_, _, trivial, peerGet_strokes _ 0 _⟩

theorem climbs {b : Body Board} (adapts : b.cfg.rateAdapt ≠ 0 ∧ (b.peers 0).txMcs ≠ 0xFF#8)
    (wants : WantsUp 0 0 (raOnAckNoted 0 0 b).2) : ∃ τ, Attempt 0 0 b true τ (raOnAck 0 0 b).2 ∧
      τ = jiffies (elapse
        (raProbeCapped 0 raMaxMcs 0 (raOnAckNoted 0 0 b).2).2.plat) :=
  ⟨_, .ackUp adapts wants, rfl⟩

theorem rate_step_governed_climbs : ∃ stamp τ, SinceStep (fun _ => True) 0 stamp climbedOnce ∧
    Attempt 0 0 climbedOnce true τ (raOnAck 0 0 climbedOnce).2 ∧ raStepGapMs ≤ τ - stamp ∧
    ((raOnAck 0 0 climbedOnce).2.peers 0).txMcs ≠ (climbedOnce.peers 0).txMcs := by
  have wants : WantsUp 0 0 (raOnAckNoted 0 0 metPeer).2 := by
    refine ⟨by decide +kernel, by decide +kernel, by decide +kernel⟩
  have wants' : WantsUp 0 0 (raOnAckNoted 0 0 climbedOnce).2 := by
    refine ⟨by decide +kernel, by decide +kernel, by decide +kernel⟩
  obtain ⟨τ, first, at'⟩ := climbs ⟨by decide +kernel, by decide +kernel⟩ wants
  have early : τ = 100000 := at'.trans (by decide +kernel)
  obtain ⟨stamp, after, since⟩ := first.since metPeer_passed (by rw [early]; decide +kernel)
  have before : stamp ≤ 100000 := since.stamped.2.trans (by decide +kernel)
  have since' : SinceStep (fun _ => True) 0 stamp climbedOnce :=
    since.aside { Aside.refl (raOnAck 0 0 metPeer).2 with clock := Nat.le_add_right _ 1500 }
  obtain ⟨τ', second, at''⟩ := climbs ⟨by decide +kernel, by decide +kernel⟩ wants'
  have late : τ' = 101500 := at''.trans (by decide +kernel)
  have governed := ((rate_step_governed_iff since').2 0 true τ' _ second (by omega)).2
  have gap : raStepGapMs = 1000 := rfl
  refine ⟨stamp, τ', since', second, by omega, ?_⟩
  rw [gap] at governed
  exact (governed.mpr (by omega)).mpr (by omega)

def lateBoard : Board := { Radio.Board.quiet 2 8 with jiffies := 2 ^ 32 - 500 }

def hearPeer : List (Move Board) :=
  [.start 1 (.onRx [7#8] ⟨2, 0, 0, 0, 0, 1⟩ (some ⟨2, 0, 0, 0, 0, 2⟩) 0), .resume 1, .resume 1,
    .resume 1]

def hearAck : List (Move Board) :=
  [.wait fun r => { r with jiffies := r.jiffies + 1 },
    .start 1 (.onRx [0xA5, 0x5A, 0x80, 0xFF, 0xFF] ⟨2, 0, 0, 0, 0, 1⟩
      (some ⟨2, 0, 0, 0, 0, 2⟩) 0), .resume 1, .resume 1, .resume 1]

def rateAt (mcs : Byte) (n : Nat) (c : Threads Board) : Bool :=
  (c.body.peers 0).inUse && (c.body.peers 0).txMcs == mcs &&
    c.body.plat.jiffies == n && c.body.cfg == halowAckConfigSetDefault

theorem rate_steps_one_millisecond_apart : ∃ c₀ : Threads Board,
    playAll hearPeer (started halowAckConfigSetDefault lateBoard) = some c₀ ∧ Reachable c₀ ∧
      rateAt 2 (2 ^ 32 - 500) c₀ = true ∧
      ∃ c₁ ∈ playAll hearAck c₀, rateAt 3 (2 ^ 32 - 499) c₁ = true ∧
        ∃ c₂ ∈ playAll hearAck c₁, rateAt 4 (2 ^ 32 - 498) c₂ = true :=
  played (by decide +kernel)

end RnodeHalow.Ack
