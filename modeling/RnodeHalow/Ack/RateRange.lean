import RnodeHalow.Ack.RateSteps

set_option autoImplicit false

namespace RnodeHalow.Ack

open Resumption
open Function (update update_of_ne update_self)

variable {ρ : Type} {i : PeerIx}

def ValidMcs (mcs : Byte) : Prop := mcs ≤ 7#8 ∨ mcs = 10#8

instance (mcs : Byte) : Decidable (ValidMcs mcs) :=
  inferInstanceAs (Decidable (mcs ≤ 7#8 ∨ mcs = 10#8))

def OnRate (mcs : Byte) : Prop := ValidMcs mcs ∨ mcs = halowMcsDefault

instance (mcs : Byte) : Decidable (OnRate mcs) :=
  inferInstanceAs (Decidable (ValidMcs mcs ∨ mcs = halowMcsDefault))

variable {b b' : Body ρ}

theorem dfltMcs_valid (valid : ValidMcs b.dfltMcsCache) : ValidMcs (dfltMcs b) := by
  unfold dfltMcs
  split
  · exact valid
  · exact .inl (by decide)

theorem initMcs_onRate (valid : ValidMcs b.dfltMcsCache) : OnRate (initMcs b) := by
  unfold initMcs
  split
  · exact .inr rfl
  · exact .inl (dfltMcs_valid valid)

theorem Stepped.down_iff {τ n : Nat} {d d' : Dial} (stepped : Stepped b τ n d d') :
    d'.txMcs < d.txMcs ↔ d'.txMcs = d.txMcs - 1 ∧ raFloor b < d.txMcs := by
  cases stepped with
  | down own above due => simp only [true_and, above, iff_true]; bv_omega
  | up below due =>
    have ceiling : raMaxMcs = 7#8 := rfl
    rw [ceiling] at below
    bv_omega

theorem pred_valid {mcs floor : Byte} (valid : OnRate mcs) (own : mcs ≠ halowMcsDefault)
    (above : floor < mcs) (other : mcs ≠ 10#8) : ValidMcs (mcs - 1) := by
  rcases valid with (low | ten) | default
  · exact .inl (by bv_omega)
  · exact absurd ten other
  · exact absurd default own

theorem Stepped.onRate {τ n : Nat} {d d' : Dial} (stepped : Stepped b τ n d d')
    (before : OnRate d.txMcs) (guard : d'.txMcs < d.txMcs → d.txMcs ≠ 10#8) : OnRate d'.txMcs := by
  have down := stepped.down_iff
  cases stepped with
  | down own above due => exact .inl (pred_valid before own above (guard (down.mpr ⟨rfl, above⟩)))
  | up below due =>
    have ceiling : raMaxMcs = 7#8 := rfl
    rw [ceiling] at below
    exact .inl (.inl (by dsimp only; bv_omega))

theorem Tuned.onRate {d d' : Dial} (tuned : Tuned b d d') (cache : ValidMcs b.dfltMcsCache)
    (before : OnRate d.txMcs) : OnRate d'.txMcs := by
  cases tuned with
  | restarted how =>
    cases how with
    | opened | reset => exact initMcs_onRate cache
    | rearmed => exact before
  | granted => exact before
  | measured q bound => exact before

theorem rates_update {i : PeerIx} {p : AckPeer} (rates : ∀ i, OnRate (b.peers i).dial.txMcs)
    (new : OnRate p.dial.txMcs) (k : PeerIx) :
    OnRate (update b.peers i p k).dial.txMcs := by
  by_cases here : k = i
  · subst here
    rwa [update_self]
  · rw [update_of_ne here]
    exact rates k

structure InRange (b : Body ρ) : Prop where
  cache : ValidMcs b.dfltMcsCache
  rates : ∀ i, OnRate (b.peers i).dial.txMcs
  steps : ∀ d ∈ b.downshifts, OnRate (d.mcs - 1)

-- Only valid rates were configured, and no step down was made from the highest of them.
structure Fair (b : Body ρ) : Prop where
  loaded : ∀ mcs ∈ b.loaded, ValidMcs mcs
  tens : ∀ d ∈ b.downshifts, d.mcs ≠ 10#8

variable [Platform ρ] {ok : Call → Prop}

theorem Aside.fair (aside : Aside b b') (fair : Fair b') : Fair b :=
  ⟨aside.loaded ▸ fair.loaded, aside.downshifts ▸ fair.tens⟩

theorem Aside.inRange (aside : Aside b b') (range : InRange b) : InRange b' where
  cache := aside.dfltMcsCache ▸ range.cache
  rates i := aside.dials i ▸ range.rates i
  steps := aside.downshifts ▸ range.steps

theorem Stroke.inRange (stroke : Stroke ok b b') (before : Fair b → InRange b) (fair : Fair b') :
    InRange b' := by
  cases stroke with
  | aside aside => exact aside.inRange (before (aside.fair fair))
  | dated news dated aside =>
    obtain ⟨loaded, tens⟩ := aside.fair fair
    have range := before ⟨loaded, tens⟩
    exact aside.inRange ⟨range.cache, range.rates, range.steps⟩
  | grown | shed | installed _ _ | cached =>
    have range := before ⟨fair.loaded, fair.tens⟩
    exact ⟨range.cache, range.rates, range.steps⟩
  | refreshed aside =>
    obtain ⟨loaded, tens⟩ := aside.fair fair
    obtain ⟨new, old⟩ := List.forall_mem_cons.mp loaded
    have range := before ⟨old, tens⟩
    exact aside.inRange ⟨new, range.rates, range.steps⟩
  | tuned k p tuned aside =>
    obtain ⟨loaded, tens⟩ := aside.fair fair
    have range := before ⟨loaded, tens⟩
    refine aside.inRange ⟨range.cache, rates_update range.rates ?_, range.steps⟩
    exact tuned.onRate range.cache (range.rates k)
  | stepped k p τ first second steps aside =>
    obtain ⟨loaded, tens⟩ := aside.fair fair
    dsimp only [downshifted] at tens
    by_cases lower : p.txMcs < (b.peers k).txMcs
    · rw [if_pos lower] at tens
      obtain ⟨high, old⟩ := List.forall_mem_cons.mp tens
      have range := before ⟨loaded, old⟩
      have next : OnRate p.dial.txMcs := steps.onRate (range.rates k) fun _ => high
      refine aside.inRange ⟨range.cache, rates_update range.rates next, ?_⟩
      rw [downshifted, if_pos lower]
      refine List.forall_mem_cons.mpr ⟨?_, range.steps⟩
      have down : p.dial.txMcs = (b.peers k).dial.txMcs - 1 := (steps.down_iff.mp lower).1
      rw [down] at next
      exact next
    · rw [if_neg lower] at tens
      have range := before ⟨loaded, tens⟩
      have next : OnRate p.dial.txMcs := steps.onRate (range.rates k) fun low => absurd low lower
      refine aside.inRange ⟨range.cache, rates_update range.rates next, ?_⟩
      rw [downshifted, if_neg lower]
      exact range.steps

theorem Stroke.above (stroke : Stroke ok b b') (before : ∀ d ∈ b.downshifts, d.floor < d.mcs) :
    ∀ d ∈ b'.downshifts, d.floor < d.mcs := by
  cases stroke with
  | aside aside | refreshed aside | tuned _ _ _ aside | dated _ _ aside =>
    exact aside.downshifts ▸ before
  | grown | shed | installed _ _ | cached => exact before
  | stepped k p τ first second steps aside =>
    rw [aside.downshifts]
    dsimp only [downshifted]
    split
    next lower => exact List.forall_mem_cons.mpr ⟨(steps.down_iff.mp lower).2, before⟩
    next => exact before

theorem Stroke.loss (stroke : Stroke ok b b') (bound : ∀ i, (b.peers i).dial.lossQ8 ≤ 255)
    (i : PeerIx) : (b'.peers i).dial.lossQ8 ≤ 255 := by
  rcases stroke.dial i with same | tuned | ⟨τ, steps⟩
  · rw [same]
    exact bound i
  · generalize (b'.peers i).dial = d' at tuned
    cases tuned with
    | restarted how => cases how <;> first | exact Nat.zero_le _ | exact bound i
    | granted => exact bound i
    | measured q small => exact small (bound i)
  · generalize (b'.peers i).dial = d' at steps
    cases steps <;> exact bound i

-- A step down from 10 ends on 9; one below the configured MCS starts from a lower cached default.
theorem rates_valid_iff {c : Threads ρ} (h : Reachable c)
    (configured : ∀ mcs ∈ c.body.loaded, ValidMcs mcs) :
    (∀ i, (c.body.peers i).lossQ8 ≤ 255) ∧
    ((∀ d ∈ c.body.downshifts, OnRate (d.mcs - 1)) ↔
      ∀ d ∈ c.body.downshifts, d.mcs ≠ 10#8) ∧
    ((∀ d ∈ c.body.downshifts, d.mcs ≠ 10#8) →
      ∀ i, OnRate (c.body.peers i).txMcs) ∧
    ∀ d ∈ c.body.downshifts, d.configured ≤ d.floor → d.configured ≤ d.mcs - 1 := by
  have loss : ∀ i, (c.body.peers i).dial.lossQ8 ≤ 255 :=
    h.by_any.keeps (J := fun b => ∀ i, (b.peers i).dial.lossQ8 ≤ 255)
      (fun _ _ _ _ => Nat.zero_le 255) fun _ _ stroke bound => stroke.loss bound
  have range (tens : ∀ d ∈ c.body.downshifts, d.mcs ≠ 10#8) : InRange c.body := by
    refine h.by_any.keeps (J := fun b => Fair b → InRange b) (fun stored r _ fair => ?_)
      (fun _ _ stroke => stroke.inRange) ⟨configured, tens⟩
    obtain ⟨loaded, none, -⟩ := boot_record stored r
    have zero : OnRate 0#8 := by decide
    exact ⟨fair.loaded _ (by simp [loaded]), fun _ => zero, by simp [none]⟩
  have above : ∀ d ∈ c.body.downshifts, d.floor < d.mcs :=
    h.by_any.keeps (J := fun b => ∀ d ∈ b.downshifts, d.floor < d.mcs)
      (fun stored r _ => by simp [boot_record]) fun _ _ stroke => stroke.above
  refine ⟨loss, ⟨fun valid d mem ten => ?_, fun tens => (range tens).steps⟩,
    fun tens => (range tens).rates, fun d mem low => ?_⟩
  · have nine := valid d mem
    rw [ten] at nine
    revert nine
    decide
  · have high := above d mem
    bv_omega

def touchyConfig : Config := { halowAckConfigSetDefault with raLossUp := 0, raLossDown := 1 }

def oneSent : List (Move Board) :=
  .start 1 (.tx [7] ⟨2, 0, 0, 0, 0, 1⟩) :: List.replicate 3 (.resume 1) ++
    .start 1 .flush :: List.replicate 5 (.resume 1)

-- The first frame is answered and the rate climbs; the second is lost.
def upAndDown : List (Move Board) :=
  oneSent ++ .start 1 (.onRx [0xA5, 0x5A, 0x80, 0xFF, 0xFF] ⟨2, 0, 0, 0, 0, 1⟩
      (some ⟨2, 0, 0, 0, 0, 2⟩) 0) :: List.replicate 3 (.resume 1) ++ oneSent ++
    [.wait fun r => { r with jiffies := r.jiffies + 20000 }, .start 0 .tick, .resume 0, .resume 0,
      .resume 0]

theorem rates_valid_upAndDown : ∃ c : Threads Board,
    playAll upAndDown (started touchyConfig (.quiet 2 8)) = some c ∧
      (c.body.stats.raUpshifts = 1 ∧ c.body.downshifts = [⟨0, 3#8, 2#8, 2#8⟩] ∧
        (c.body.peers 0).txMcs = 2#8 ∧ ∀ mcs ∈ c.body.loaded, ValidMcs mcs) ∧
      ∀ i, (c.body.peers i).lossQ8 ≤ 255 ∧ OnRate (c.body.peers i).txMcs := by
  refine played_then (by decide +kernel) fun c reach ⟨_, down, _, valid⟩ => ?_
  obtain ⟨loss, -, rates, -⟩ := rates_valid_iff reach valid
  refine fun i => ⟨loss i, rates ?_ i⟩
  rw [down]
  decide

def mcsLowered : List (Move Board) :=
  oneSent ++
    [.wait fun r => { r with jiffies := r.jiffies + 20000, cfg := (3, 8), cfgCache := some (3, 8) },
      .start 0 .tick, .resume 0, .resume 0, .resume 0]

theorem rate_invalid_mcsLowered : ∃ c : Threads Board,
    playAll mcsLowered (started touchyConfig (.quiet 10 8)) = some c ∧ Reachable c ∧
      (∀ mcs ∈ c.body.loaded, ValidMcs mcs) ∧ configuredMcs c.body = 3#8 ∧
      c.body.downshifts = [⟨0, 10#8, 3#8, 3#8⟩] ∧
      (c.body.peers 0).inUse = true ∧ (c.body.peers 0).txMcs = 9#8 ∧
      ¬ OnRate (c.body.peers 0).txMcs :=
  played (by decide +kernel)

end RnodeHalow.Ack
