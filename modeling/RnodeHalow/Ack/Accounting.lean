import RnodeHalow.Ack.Schedule

set_option autoImplicit false

namespace RnodeHalow.Ack

open Resumption Tally

variable {ρ : Type} [Platform ρ]

def Event.Silent : Event → Prop
  | .txStamped _ => False
  | .landed _ => False
  | .windowed _ => False
  | .rejected _ => False
  | _ => True

abbrev Silently := Grown Event.Silent

variable {e : Event} {c c' : Core}

def Marked (e : Event) (older trace : History) : Prop :=
  ∃ τ mid, Silently older mid ∧ Silently ((τ, e) :: mid) trace

theorem Marked.only {τ : Nat} {trace : History} :
    Marked e trace ((τ, e) :: trace) := ⟨τ, trace, .refl _, .refl _⟩

def Counts.Same (n n' : Counts) : Prop := n' = { n with ackRttEwmaMs := n'.ackRttEwmaMs }

inductive Flow (c c' : Core) : Prop
  | quiet : c'.inflightN = c.inflightN → c'.window = c.window → c.counts.Same c'.counts →
      Silently c.trace c'.trace → Flow c c'
  | enters (j : BufIx) : c.inflightN < c.effWindow → c'.inflightN = c.inflightN + 1 →
      c'.window = c.window → c'.counts = c.counts → Marked (.txStamped j) c.trace c'.trace →
      Flow c c'
  | lands (j : BufIx) (why : Landing) : c.inflightN = c'.inflightN + 1 →
      c'.window = c.window → c'.counts = c.counts.land why →
      Marked (.landed j) c.trace c'.trace → Flow c c'
  | throttles (n : Nat) : c'.inflightN = c.inflightN → c'.window = c.window →
      c'.counts = c.counts.throttle n → Silently c.trace c'.trace → Flow c c'
  | configures : c'.inflightN = c.inflightN → c'.counts = c.counts →
      Marked (.windowed c'.window) c.trace c'.trace → Flow c c'
  | rejects (i : PeerIx) : c'.inflightN = c.inflightN → c'.window = c.window →
      c'.counts = c.counts.reject → Marked (.rejected i) c.trace c'.trace → Flow c c'

theorem Calm.flow (move : Calm c c') : Flow c c' := by
  cases move with
  | elapse | peer | governor | measured => exact .quiet rfl rfl rfl (.refl _)
  | air | kick | opened | forget => exact .quiet rfl rfl rfl (.one trivial _ _)

theorem free_inflightN {j : BufIx} {buf : AckBuf} (inv : Inv c) (held : c.bufs j = some buf)
    (inflight : buf.state = .inflight) : c.inflightN = (c.free j buf).inflightN + 1 := by
  have away : buf.state ≠ .staging := by
    rw [inflight]
    decide
  have pos := flying_pos inv.rep held away
  simp only [Core.free, if_neg away]
  omega

theorem Micro.flow {t : Nat} (inv : Inv c) (move : Micro t c c') : Flow c c' := by
  cases move with
  | calm move => exact move.flow
  | sample | accept | due | append | touch | handOff | hear | meet | deliver =>
    exact .quiet rfl rfl rfl (.one trivial _ _)
  | expire j buf life τ held inflight =>
    refine .lands j .deadline (free_inflightN inv held inflight) rfl rfl ?_
    exact ⟨c.clock, c.trace, .refl _, .one (e := .deadlineDropped t j life) trivial _ _⟩
  | stage i j blk cap n1 n2 payload =>
    exact .quiet rfl rfl rfl (.cons trivial (.cons trivial (.one trivial _ _)))
  | launch i j buf p n1 n2 n3 inUse named held room =>
    refine .enters j room rfl rfl rfl ?_
    exact ⟨n1, _, .refl _, .cons trivial (.one trivial _ _)⟩
  | plain i j blk payload n1 n2 inUse empty room =>
    refine .enters j room rfl rfl rfl ?_
    exact ⟨n2, (n1, .born j) :: c.trace, .one trivial _ _, .refl _⟩
  | mark | sentOff => exact .quiet rfl rfl rfl (.refl _)
  | release j buf why held inflight =>
    exact .lands j why (free_inflightN inv held inflight) rfl rfl .only
  | hold i j buf τ inUse named held =>
    have staging := (inv.rep.named inUse named held).1
    refine .throttles (c.peers i).aggNsub ?_ rfl rfl (.one trivial _ _)
    simp [Core.setPeer, Core.free, Core.note, staging]
  | reconfig cfg n => exact .configures rfl rfl .only
  | reject i => exact .rejects i rfl rfl rfl .only

def inflightIn : History → Nat
  | [] => 0
  | (_, .txStamped _) :: older => inflightIn older + 1
  | (_, .landed _) :: older => inflightIn older - 1
  | _ :: older => inflightIn older

def windowIn : History → Nat
  | [] => 0
  | (_, .windowed w) :: _ => w
  | _ :: older => windowIn older

def peakWindow : History → Nat
  | [] => 0
  | e :: older =>
    if inflightIn (e :: older) = 0 then windowIn (e :: older)
    else max (windowIn (e :: older)) (peakWindow older)

structure Paced (w n : Nat) (trace : History) : Prop where
  inflight : inflightIn trace = n
  window : windowIn trace = w
  window_le : w ≤ peakWindow trace
  inflight_le : n ≤ peakWindow trace

namespace Paced

variable {w n τ : Nat} {trace : History}

theorem cons {w' n' : Nat} {e : Event} (paced : Paced w n trace)
    (inflight : inflightIn ((τ, e) :: trace) = n') (window : windowIn ((τ, e) :: trace) = w')
    (room : n' ≤ n ∨ n' ≤ w') : Paced w' n' ((τ, e) :: trace) := by
  have old := paced.inflight_le
  have peak : peakWindow ((τ, e) :: trace) =
      if n' = 0 then w' else max w' (peakWindow trace) := by
    simp only [peakWindow, inflight, window]
  refine ⟨inflight, window, ?_, ?_⟩
  · rw [peak]
    split <;> omega
  · rw [peak]
    split <;> omega

theorem silent {e : Event} (paced : Paced w n trace) (silent : e.Silent) :
    Paced w n ((τ, e) :: trace) := by
  refine paced.cons ?_ ?_ (.inl (Nat.le_refl n))
  · rw [← paced.inflight]
    cases e <;> first | rfl | cases silent
  · rw [← paced.window]
    cases e <;> first | rfl | cases silent

theorem silently {later : History} (paced : Paced w n trace)
    (more : Silently trace later) : Paced w n later := by
  obtain ⟨news, rfl, all⟩ := more
  induction news with
  | nil => exact paced
  | cons e rest ih =>
    have tail := ih fun x member => all x (by simp [member])
    exact tail.silent (all e (by simp))

theorem enters (paced : Paced w n trace) (room : n < w) (j : BufIx) :
    Paced w (n + 1) ((τ, .txStamped j) :: trace) :=
  paced.cons (congrArg (· + 1) paced.inflight) paced.window (.inr room)

theorem lands (paced : Paced w (n + 1) trace) (j : BufIx) : Paced w n ((τ, .landed j) :: trace) :=
  paced.cons (congrArg (· - 1) paced.inflight) paced.window (.inl (Nat.le_succ n))

theorem configures (paced : Paced w n trace) (w' : Nat) : Paced w' n ((τ, .windowed w') :: trace) :=
  paced.cons paced.inflight rfl (.inl (Nat.le_refl n))

end Paced

theorem effWindow_le (c : Core) : c.effWindow = min c.cwnd c.window := by
  unfold Core.effWindow
  split <;> omega

theorem Flow.paced (flow : Flow c c') (paced : Paced c.window c.inflightN c.trace) :
    Paced c'.window c'.inflightN c'.trace := by
  cases flow with
  | quiet inflight window counts silently | throttles n inflight window counts silently =>
    rw [inflight, window]
    exact paced.silently silently
  | enters j room inflight window counts marked =>
    obtain ⟨τ, mid, before, after⟩ := marked
    rw [inflight, window]
    have below : c.inflightN < c.window := by
      rw [effWindow_le] at room
      omega
    exact ((paced.silently before).enters below j).silently after
  | lands j why inflight window counts marked =>
    obtain ⟨τ, mid, before, after⟩ := marked
    rw [window]
    rw [inflight] at paced
    exact ((paced.silently before).lands j).silently after
  | configures inflight counts marked =>
    obtain ⟨τ, mid, before, after⟩ := marked
    rw [inflight]
    exact ((paced.silently before).configures c'.window).silently after
  | rejects i inflight window counts marked =>
    obtain ⟨τ, mid, before, after⟩ := marked
    rw [inflight, window]
    have still := paced.silently before
    have rejected : Paced c.window c.inflightN ((τ, .rejected i) :: mid) :=
      still.cons still.inflight still.window (.inl (Nat.le_refl _))
    exact rejected.silently after

theorem initial_paced (cfg : Config) (n : Nat) :
    Paced (Core.initial cfg n).window (Core.initial cfg n).inflightN (Core.initial cfg n).trace :=
  ⟨rfl, rfl, Nat.le_of_eq (if_pos rfl).symm, Nat.zero_le _⟩

def WindowOk (c : Core) : Prop := 1 ≤ c.cwnd ∧ c.cwnd ≤ c.window ∧ c.window ≤ 16

theorem Inv.windowOk (inv : Inv c) : WindowOk c := by
  have bound := inv.clamped.window_le
  rw [← inv.window_eq] at bound
  exact ⟨inv.cwnd_pos, inv.cwnd_le, bound⟩

theorem Reachable.step_chain {c c' : Threads ρ} (h : Reachable c)
    (step : Pool.Step (lockedMachine drift) allowed c c') :
    ∃ t, Chain t (core c.shared.body) (core c'.shared.body) := by
  cases (h.good.step calls_disciplined step).2 with
  | stay same => exact ⟨0, same ▸ .refl⟩
  | block t act => exact ⟨t, act⟩
  | drift moved =>
    obtain ⟨b, moved, eq⟩ := moved
    rw [eq]
    exact ⟨0, drift_chain moved 0⟩

theorem Reachable.paced {c : Threads ρ} (h : Reachable c) :
    Paced c.body.window c.body.inflightN c.body.trace :=
  h.moves (J := fun c => Paced c.window c.inflightN c.trace) (fun cfg n _ => initial_paced cfg n)
    fun _ _ _ inv move => (move.flow inv).paced

def entered : History → Nat
  | [] => 0
  | (_, .txStamped _) :: older => entered older + 1
  | _ :: older => entered older

def rejections : History → Nat
  | [] => 0
  | (_, .rejected _) :: older => rejections older + 1
  | _ :: older => rejections older

theorem tallies_silent (silent : e.Silent) (τ : Nat) (trace : History) :
    entered ((τ, e) :: trace) = entered trace ∧
      rejections ((τ, e) :: trace) = rejections trace := by
  cases e <;> first | exact ⟨rfl, rfl⟩ | cases silent

theorem tallies_silently {older trace : History} (more : Silently older trace) :
    entered trace = entered older ∧ rejections trace = rejections older := by
  obtain ⟨news, rfl, all⟩ := more
  induction news with
  | nil => exact ⟨rfl, rfl⟩
  | cons e rest ih =>
    have tail := ih fun x member => all x (by simp [member])
    have head := tallies_silent (all e (by simp)) e.1 (rest ++ older)
    exact ⟨head.1.trans tail.1, head.2.trans tail.2⟩

structure Conserved (n : Nat) (counts : Counts) (trace : History) : Prop where
  frames : BitVec.ofNat 32 (entered trace) =
    counts.acked + counts.dropDeadline + counts.dropExhaust + BitVec.ofNat 32 n
  dropped : counts.dropped =
    counts.dropDeadline + counts.dropExhaust + counts.dropThrottle +
      BitVec.ofNat 32 (rejections trace)

namespace Conserved

variable {n : Nat} {counts : Counts} {trace later : History}

theorem silently (conserved : Conserved n counts trace) (more : Silently trace later) :
    Conserved n counts later := by
  obtain ⟨frames, rejected⟩ := tallies_silently more
  exact ⟨by rw [frames]; exact conserved.frames, by rw [rejected]; exact conserved.dropped⟩

theorem enters (conserved : Conserved n counts trace) (τ : Nat) (j : BufIx) :
    Conserved (n + 1) counts ((τ, .txStamped j) :: trace) where
  frames := by
    simp only [entered, BitVec.ofNat_add, conserved.frames]
    ac_rfl
  dropped := conserved.dropped

theorem lands (conserved : Conserved (n + 1) counts trace) (τ : Nat) (j : BufIx)
    (why : Landing) : Conserved n (counts.land why) ((τ, .landed j) :: trace) where
  frames := by
    have before := conserved.frames
    rw [BitVec.ofNat_add] at before
    cases why with
    | acked | deadline | exhausted =>
      simp only [entered, Counts.land, before]
      ac_rfl
  dropped := by
    have before := conserved.dropped
    cases why with
    | acked => exact before
    | deadline | exhausted =>
      simp only [rejections, Counts.land, before]
      ac_rfl

theorem throttles (conserved : Conserved n counts trace) (nsub : Nat) :
    Conserved n (counts.throttle nsub) trace where
  frames := conserved.frames
  dropped := by
    simp only [Counts.throttle, conserved.dropped]
    ac_rfl

theorem rejects (conserved : Conserved n counts trace) (τ : Nat) (i : PeerIx) :
    Conserved n counts.reject ((τ, .rejected i) :: trace) where
  frames := conserved.frames
  dropped := by
    simp only [Counts.reject, rejections, BitVec.ofNat_add, conserved.dropped]
    ac_rfl

end Conserved

theorem Flow.conserved (flow : Flow c c') (conserved : Conserved c.inflightN c.counts c.trace) :
    Conserved c'.inflightN c'.counts c'.trace := by
  cases flow with
  | quiet inflight window counts silently =>
    have moved := conserved.silently silently
    rw [inflight, show c'.counts = _ from counts]
    exact ⟨moved.frames, moved.dropped⟩
  | enters j room inflight window counts marked =>
    obtain ⟨τ, mid, before, after⟩ := marked
    rw [inflight, counts]
    exact ((conserved.silently before).enters τ j).silently after
  | lands j why inflight window counts marked =>
    obtain ⟨τ, mid, before, after⟩ := marked
    rw [counts]
    rw [inflight] at conserved
    exact ((conserved.silently before).lands τ j why).silently after
  | throttles n inflight window counts silently =>
    rw [inflight, counts]
    exact (conserved.silently silently).throttles n
  | configures inflight counts marked =>
    obtain ⟨τ, mid, before, after⟩ := marked
    have still := conserved.silently before
    have configured : Conserved c.inflightN c.counts ((τ, .windowed c'.window) :: mid) :=
      ⟨still.frames, still.dropped⟩
    rw [inflight, counts]
    exact configured.silently after
  | rejects i inflight window counts marked =>
    obtain ⟨τ, mid, before, after⟩ := marked
    rw [inflight, counts]
    exact ((conserved.silently before).rejects τ i).silently after

theorem frames_conserved (c : Threads ρ) (h : Reachable c) :
    BitVec.ofNat 32 (entered c.body.trace) =
        c.body.stats.acked + c.body.stats.dropDeadline +
          c.body.stats.dropExhaust + BitVec.ofNat 32 (total flying c.body.bufs) ∧
      c.body.stats.dropped =
        c.body.stats.dropDeadline + c.body.stats.dropExhaust +
          c.body.stats.dropThrottle +
            BitVec.ofNat 32 (rejections c.body.trace) := by
  have conserved : Conserved c.body.inflightN c.body.stats.counts
      c.body.trace :=
    h.moves (J := fun c => Conserved c.inflightN c.counts c.trace) (fun _ _ _ => ⟨rfl, rfl⟩)
      fun _ _ _ inv move => (move.flow inv).conserved
  have inflight : c.body.inflightN = total flying c.body.bufs :=
    h.inv.rep.inflightN_eq
  refine ⟨?_, conserved.dropped⟩
  rw [← inflight]
  exact conserved.frames

def twoFrames : List (Move Board) :=
  [.start 1 (.tx [1, 2, 3] ⟨2, 0, 0, 0, 0, 1⟩), .resume 1, .resume 1, .resume 1,
    .start 1 .flush, .resume 1, .resume 1, .resume 1, .resume 1, .resume 1,
    .start 1 (.tx [4] ⟨2, 0, 0, 0, 0, 1⟩), .resume 1, .resume 1, .resume 1,
    .start 1 .flush, .resume 1, .resume 1, .resume 1, .resume 1, .resume 1,
    .start 1 (.onRx (envAckFrame 0 0 1) ⟨2, 0, 0, 0, 0, 1⟩ none 0), .resume 1, .resume 1,
    .resume 1,
    .start 1 (.tx [] ⟨2, 0, 0, 0, 0, 1⟩), .resume 1, .resume 1, .resume 1]

theorem frames_conserved_twoFrames : ∃ c : Threads Board,
    playAll twoFrames quietNode = some c ∧
      (entered c.body.trace = 2 ∧ c.body.stats.acked = 1 ∧
        rejections c.body.trace = 1) ∧
      BitVec.ofNat 32 (entered c.body.trace) =
          c.body.stats.acked + c.body.stats.dropDeadline +
            c.body.stats.dropExhaust + BitVec.ofNat 32 (total flying c.body.bufs) ∧
        c.body.stats.dropped =
          c.body.stats.dropDeadline + c.body.stats.dropExhaust +
            c.body.stats.dropThrottle +
              BitVec.ofNat 32 (rejections c.body.trace) :=
  played_then (by decide +kernel) fun c reach _ => frames_conserved c reach

def Ran (u : Nat) (c c' : Threads ρ) : Prop :=
  ∃ w, c.threads u = some w ∧ w.ready { c.shared with active := u } = true ∧
    c' = c.resumed u (w.resume { c.shared with active := u })

theorem Ran.chain {u : Nat} {c c' : Threads ρ} (h : Reachable c) (ran : Ran u c c') :
    Chain u (core c.body) (core c'.body) := by
  obtain ⟨w, pending, ready, rfl⟩ := ran
  have own := h.good.2 u
  rw [pending] at own
  have safe := own c.shared .refl h.good.1 ready
  exact (h.good.resumed (safe.prepend ((ackDiscipline (ρ := ρ)).locked.act_enter u c.shared))).2

theorem Ran.flight {t u : Nat} {c c' : Threads ρ} (h : Reachable c) (ran : Ran u c c')
    (other : u ≠ t) {j : BufIx} {buf : AckBuf} (flight : Flight t j buf (core c.body)) :
    Flight t j buf (core c'.body) :=
  (ran.chain h).kept (flight_keeps t j buf) other h.inv flight

theorem representation_invariant (c : Threads ρ) (h : Reachable c) :
    RepInv (core c.body) ∧
      ∀ u c' j buf, Ran u c c' → c.body.bufs j = some buf → buf.state = .sending →
        c.body.sender j ≠ u → c'.body.bufs j = some buf := by
  refine ⟨h.inv.rep, fun u c' j buf ran held sending sender => ?_⟩
  exact (ran.flight h sender.symm ⟨held, sending, rfl⟩).1

def midFlight : List (Move Board) :=
  [.start 1 (.tx [1, 2, 3] ⟨2, 0, 0, 0, 0, 1⟩), .resume 1, .resume 1, .resume 1,
    .start 1 .flush, .resume 1, .resume 1, .start 2 .flush]

theorem representation_invariant_midFlight : ∃ c, playAll midFlight quietNode = some c ∧
    (c.body.bufs 0).map (·.state) = some .sending ∧ RepInv (core c.body) ∧
    ∀ u c' j buf, Ran u c c' → c.body.bufs j = some buf → buf.state = .sending →
      c.body.sender j ≠ u → c'.body.bufs j = some buf :=
  played_then (by decide +kernel) fun c reach _ => representation_invariant c reach

end RnodeHalow.Ack
