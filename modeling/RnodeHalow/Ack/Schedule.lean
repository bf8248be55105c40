import RnodeHalow.Ack.Calls
import RnodeHalow.Radio.Board

set_option autoImplicit false

namespace RnodeHalow.Ack

open Resumption Tally

variable {ρ : Type} [Platform ρ]

def Core.initial (cfg : Config) (n : Nat) : Core where
  cfg := cfg
  counts := ⟨0, 0, 0, 0, 0, 0⟩
  window := cfg.window
  cwnd := if cfg.window > 4 then 4 else cfg.window
  bufs := fun _ => none
  peers := fun _ => AckPeer.zero
  usedN := 0
  inflightN := 0
  peersN := 0
  heapBytes := 0
  sender := fun _ => 0
  trace := [(n, .windowed cfg.window)]
  clock := n

theorem releaseAll_does {t : Nat} {c : Core} (empty : ∀ j, c.bufs j = none) (l : List BufIx) :
    Does (Sec.forEach l fun j => do
      let held ← Sec.read (·.bufs j)
      Sec.when (held.isSome = true) <| bufRelease j : Code ρ Unit) t c
      fun _ c' => c' = c := by
  induction l with
  | nil => exact Does.pure _ rfl
  | cons j rest ih =>
    refine Does.seq (Does.get (fun c => c.bufs j) (fun _ => rfl) ?_)
    rw [empty j]
    exact Does.pure _ ih

theorem modify_does {t : Nat} {c : Core} {f : Body ρ → Body ρ} {post : Unit → Core → Prop}
    (g : Core → Core) (same : ∀ b, core (f b) = g (core b)) (h : post () (g c)) :
    Does (Sec.modify f) t c post := by
  rintro b rfl
  change post () (core (f b))
  rw [same]
  exact h

theorem halowAckInit_does {t : Nat} {c : Core} {stored : Config} (empty : ∀ j, c.bufs j = none)
    (past : c.trace = []) (senders : c.sender = fun _ => 0) :
    Does (halowAckInit stored : Code ρ Unit) t c fun _ c' =>
      ∃ n, c' = .initial (configClamp stored) n := by
  refine Does.seq (modify_does id (fun _ => rfl) ?_)
  refine Does.seq (Does.mono dfltMcsRefresh_does ?_)
  rintro _ _ ⟨n, rfl⟩
  refine Does.seq (Does.mono (releaseAll_does (c := { c with clock := n }) empty _) ?_)
  rintro _ _ rfl
  refine Does.seq (modify_does (fun c => { Core.initial (configClamp stored) c.clock with
    sender := c.sender, trace := c.trace }) (fun _ => rfl) ?_)
  refine Does.seq (modify_does id (fun _ => rfl) (Does.seq (nowJ_does fun m _ => ?_)))
  refine Does.seq (modify_does id (fun _ => rfl) (emit_does _ ⟨m, ?_⟩))
  simp only [id_eq, past, senders]
  rfl

theorem boot_core (stored : Config) (r : ρ) :
    ∃ n, core (boot stored r).body = .initial (configClamp stored) n :=
  halowAckInit_does (fun _ => rfl) rfl rfl (blank r) rfl

def sameRecord : Frame (Body ρ) where
  rel b b' := b'.dfltMcsCache = b.dfltMcsCache ∧ b'.loaded = b.loaded ∧
    b'.downshifts = b.downshifts ∧ b'.looks = b.looks
  refl _ := ⟨rfl, rfl, rfl, rfl⟩
  trans first second := ⟨second.1.trans first.1, second.2.1.trans first.2.1,
    second.2.2.1.trans first.2.2.1, second.2.2.2.trans first.2.2.2⟩

theorem bufRelease_sameRecord (j : BufIx) : sameRecord.Around (bufRelease j : Code ρ Unit) := by
  refine .bind (.read _) fun held => ?_
  cases held with
  | none => exact fun _ _ => ⟨rfl, rfl, rfl, rfl⟩
  | some buf => exact .bind (fun _ _ => ⟨rfl, rfl, rfl, rfl⟩) fun _ _ _ => ⟨rfl, rfl, rfl, rfl⟩

theorem boot_record (stored : Config) (r : ρ) :
    (boot stored r).body.loaded = [(boot stored r).body.dfltMcsCache] ∧
      (boot stored r).body.downshifts = [] ∧ (boot stored r).body.looks = [] := by
  let b₀ : Body ρ := (Sec.modify (fun b => { b with dfltMcsCache := 0xFF#8 }) 0 (blank r)).2
  have rest : sameRecord.rel (dfltMcsRefresh 0 b₀).2 (halowAckInit stored 0 (blank r)).2 := by
    unfold halowAckInit
    rw [Sec.bind_apply, Sec.bind_apply]
    generalize (dfltMcsRefresh 0 b₀).2 = b
    refine Frame.Around.bind (.forEach (fun j => .bind (.read _) fun held => ?_) _) (fun _ => ?_) 0 _
    · exact .when (bufRelease_sameRecord j)
    have stays {f : Body ρ → Body ρ} (same : ∀ b, sameRecord.rel b (f b)) :
        sameRecord.Around (Sec.modify f) := fun _ => same
    refine .bind (stays fun _ => ⟨rfl, rfl, rfl, rfl⟩) fun _ => ?_
    refine .bind (stays fun _ => ⟨rfl, rfl, rfl, rfl⟩) fun _ => ?_
    refine .bind (fun _ _ => ⟨rfl, rfl, rfl, rfl⟩) fun now => ?_
    exact .bind (stays fun _ => ⟨rfl, rfl, rfl, rfl⟩) fun _ => stays fun _ => ⟨rfl, rfl, rfl, rfl⟩
  obtain ⟨cache, loaded, rest⟩ := rest
  exact ⟨loaded.trans (congrArg (fun mcs => [mcs]) cache.symm), rest⟩

theorem initial_inv {cfg : Config} (clamped : cfg.Clamped) (n : Nat) :
    Inv (Core.initial cfg n) where
  rep :=
    { usedN_eq := (total_eq_zero _ _ fun _ => rfl).symm
      inflightN_eq := (total_eq_zero _ _ fun _ => rfl).symm
      heapBytes_eq := (total_eq_zero _ _ fun _ => rfl).symm
      idx_eq := by rintro j buf ⟨⟩
      peersN_eq := (total_eq_zero _ _ fun _ => rfl).symm
      mac_inj := by rintro i k ⟨⟩
      agg_iff := by rintro i ⟨⟩
      owned := by rintro j buf ⟨⟩ }
  layout :=
    { block := by rintro j buf ⟨⟩
      staged := by rintro i j buf ⟨⟩ }
  cwnd_pos := by
    have pos := clamped.window_pos
    simp only [Core.initial]
    split <;> omega
  cwnd_le := by
    simp only [Core.initial]
    split <;> omega
  window_eq := rfl
  clamped := clamped
  faultless := by simp [Core.initial]

theorem starts_of_initial {b : Body ρ} {cfg : Config} {n : Nat} (clamped : cfg.Clamped)
    (eq : core b = .initial cfg n) : Inv (core b) ∧ ∀ t, Settled t b.trace := by
  have past : b.trace = [(n, .windowed cfg.window)] := congrArg Core.trace eq
  refine ⟨eq ▸ initial_inv clamped n, fun t i => ?_⟩
  rw [past]
  rfl

theorem boot_starts (s : Node ρ) (init : ∃ stored r, s = boot stored r) :
    Inv (core s.body) ∧ ∀ t, Settled t s.body.trace := by
  obtain ⟨stored, r, rfl⟩ := init
  obtain ⟨n, eq⟩ := boot_core stored r
  exact starts_of_initial (configClamp_clamped stored) eq

namespace Reachable

variable {c : Threads ρ}

theorem good (h : Reachable c) : Pool.Good (ackDiscipline (ρ := ρ)).locked c :=
  Pool.Reachable.good calls_disciplined boot_starts h

theorem inv (h : Reachable c) : Inv (core c.body) := h.good.1

theorem settled (h : Reachable c) {t : Nat} (idle : c.threads t = none) :
    Settled t c.body.trace := by
  have own := h.good.2 t
  rw [idle] at own
  exact own

theorem moves {J : Core → Prop} (h : Reachable c)
    (first : ∀ cfg n, cfg.Clamped → J (.initial cfg n))
    (step : ∀ t a b, Inv a → Micro t a b → J a → J b) : J (core c.body) := by
  refine Pool.Reachable.invariant (J := fun s : Node ρ => J (core s.body)) calls_disciplined
    boot_starts ?_ ?_ ?_ h
  · rintro _ ⟨stored, r, rfl⟩
    obtain ⟨n, eq⟩ := boot_core stored r
    exact eq ▸ first _ n (configClamp_clamped stored)
  · exact fun t s s' inv act => Chain.keeps (step t) act inv
  · rintro s _ inv ⟨b, moved, rfl⟩
    exact Chain.keeps (step 0) (drift_chain moved 0) inv

end Reachable

export Radio (Board)


inductive Move (ρ : Type) where
  | start (t : Nat) (call : Call)
  | resume (t : Nat)
  | wait (f : ρ → ρ)

def Call.isTick : Call → Bool
  | .tick => true
  | _ => false

def Move.play (c : Threads ρ) : Move ρ → Option (Threads ρ)
  | .start t call =>
    if (c.threads t).isNone && (!call.isTick || t == 0) then
      some ⟨c.shared, Function.update c.threads t (some ⟨fun _ => true, call.prog⟩)⟩
    else none
  | .resume t =>
    match c.threads t with
    | none => none
    | some w =>
      if w.ready { c.shared with active := t } then
        some (c.resumed t (w.resume { c.shared with active := t }))
      else none
  | .wait f =>
    if Platform.jiffies c.body.plat ≤ Platform.jiffies (f c.body.plat) then
      some ⟨{ c.shared with body := { c.body with plat := f c.body.plat } }, c.threads⟩
    else none

def playAll : List (Move ρ) → Threads ρ → Option (Threads ρ)
  | [], c => some c
  | m :: rest, c => (m.play c).bind (playAll rest)

def Move.fits (may : Nat → Prog (Node ρ) Result → Prop) : Move ρ → Prop
  | .start t call => (call = .tick → t = 0) → may t call.prog
  | _ => True

variable {may : Nat → Prog (Node ρ) Result → Prop} {first : Node ρ → Prop}

theorem Move.play_step {m : Move ρ} {c c' : Threads ρ} (fits : m.fits may)
    (played : m.play c = some c') : Pool.Step (lockedMachine drift) may c c' := by
  cases m with
  | start t call =>
    simp only [Move.play, Bool.and_eq_true, Option.isNone_iff_eq_none, Bool.or_eq_true,
      beq_iff_eq] at played
    split at played
    · rename_i ok
      cases played
      refine .call c t _ (fits ?_) ok.1
      rintro rfl
      simpa [Call.isTick] using ok.2
    · cases played
  | resume t =>
    simp only [Move.play] at played
    split at played
    · cases played
    · rename_i w pending
      split at played
      · rename_i ready
        cases played
        exact .resume c t w pending ready
      · cases played
  | wait f =>
    simp only [Move.play] at played
    split at played
    · rename_i later
      cases played
      exact .drift c _ ⟨_, ⟨_, later, rfl⟩, rfl⟩
    · cases played

theorem playAll_steps {script : List (Move ρ)} {c c' : Threads ρ}
    (fits : ∀ m ∈ script, m.fits may) (h : Pool.Reachable (lockedMachine drift) may first c)
    (played : playAll script c = some c') : Pool.Reachable (lockedMachine drift) may first c' := by
  induction script generalizing c with
  | nil =>
    cases played
    exact h
  | cons m rest ih =>
    obtain ⟨mid, done, more⟩ := Option.bind_eq_some_iff.mp played
    obtain ⟨now, later⟩ := List.forall_mem_cons.mp fits
    exact ih later (h.step (Move.play_step now done)) more

theorem Move.fits_allowed (m : Move ρ) : m.fits allowed := by
  cases m with
  | start t call => exact fun ticks => ⟨call, rfl, ticks⟩
  | resume t | wait f => trivial

theorem playAll_reachable {script : List (Move ρ)} {c c' : Threads ρ} (h : Reachable c)
    (played : playAll script c = some c') : Reachable c' :=
  playAll_steps (fun m _ => m.fits_allowed) h played

def started (stored : Config) (r : ρ) : Threads ρ := ⟨boot stored r, fun _ => none⟩

theorem started_reachable (stored : Config) (r : ρ) : Reachable (started stored r) :=
  .start _ ⟨stored, r, rfl⟩

abbrev quietNode : Threads Board := started halowAckConfigSetDefault (.quiet 7 8)

theorem played {script : List (Move ρ)} {stored : Config} {r : ρ} {A : Threads ρ → Prop}
    (run : ∃ c ∈ playAll script (started stored r), A c) :
    ∃ c, playAll script (started stored r) = some c ∧ Reachable c ∧ A c := by
  obtain ⟨c, eq, ok⟩ := run
  exact ⟨c, eq, playAll_reachable (started_reachable stored r) eq, ok⟩

theorem played_then {script : List (Move ρ)} {stored : Config} {r : ρ} {A B : Threads ρ → Prop}
    (run : ∃ c ∈ playAll script (started stored r), A c) (rest : ∀ c, Reachable c → A c → B c) :
    ∃ c, playAll script (started stored r) = some c ∧ A c ∧ B c := by
  obtain ⟨c, eq, reach, ok⟩ := played run
  exact ⟨c, eq, ok, rest c reach ok⟩

end RnodeHalow.Ack
