import RnodeHalow.Shared.Course
import RnodeHalow.Shared.Solo

set_option autoImplicit false

namespace Resumption

variable {σ φ α β : Type}

-- What a block may do from phase to phase; its parts are idle at the seams.
structure Phases (φ σ : Type) where
  idle : φ
  rel : Nat → φ → σ → φ → σ → Prop
  refl : ∀ t s, rel t idle s idle s
  trans : ∀ {t a b c q}, rel t idle a idle b → rel t idle b q c → rel t idle a q c

def Phases.quiet (R : Phases φ σ) (t : Nat) : Frame σ where
  rel a b := R.rel t R.idle a R.idle b
  refl := R.refl t
  trans := R.trans

def Frame.phases (F : Frame σ) : Phases Unit σ where
  idle := ()
  rel _ _ a _ b := F.rel a b
  refl _ := F.refl
  trans := F.trans

def Res.Follows (R : Phases φ σ) : φ → Locked σ → Res (Locked σ) α → Prop
  | p, s₀, .done _ s =>
    p = R.idle ∧ s.active = s₀.active ∧ R.rel s₀.active R.idle s₀.body R.idle s.body
  | p, s₀, .wait ready resume s =>
    ∃ q, s.active = s₀.active ∧ R.rel s₀.active p s₀.body q s.body ∧
      ∀ s', ready s' = true → (resume s').Follows R q s'

section Follows

variable {R : Phases φ σ}

theorem Res.Follows.prepend {s0 s : Locked σ} {x : Res (Locked σ) α} (same : s.active = s0.active)
    (first : R.rel s0.active R.idle s0.body R.idle s.body) (follows : x.Follows R R.idle s) :
    x.Follows R R.idle s0 := by
  cases x with
  | done a s' =>
    obtain ⟨-, active, moved⟩ := follows
    rw [same] at active moved
    exact ⟨rfl, active, R.trans first moved⟩
  | wait ready resume s' =>
    obtain ⟨q, active, moved, rest⟩ := follows
    rw [same] at active moved
    exact ⟨q, active, R.trans first moved, rest⟩

theorem Res.Follows.bind {f : α → Prog (Locked σ) β} (rest : ∀ a s, (f a s).Follows R R.idle s)
    {x : Res (Locked σ) α} {p : φ} {s0 : Locked σ} (follows : x.Follows R p s0) :
    (x.bind f).Follows R p s0 := by
  induction x generalizing p s0 with
  | done a s =>
    obtain ⟨rfl, active, moved⟩ := follows
    exact (rest a s).prepend active moved
  | wait ready resume s ih =>
    obtain ⟨q, active, moved, later⟩ := follows
    exact ⟨q, active, moved, fun s' ok => ih s' (later s' ok)⟩

end Follows

namespace Phases

def Governs (R : Phases φ σ) (m : Prog (Locked σ) α) : Prop := ∀ s, (m s).Follows R R.idle s

namespace Governs

variable {R : Phases φ σ}

theorem pure (a : α) : R.Governs (Pure.pure a : Prog (Locked σ) α) :=
  fun s => ⟨rfl, rfl, R.refl _ s.body⟩

theorem bind {m : Prog (Locked σ) α} {f : α → Prog (Locked σ) β} (first : R.Governs m)
    (rest : ∀ a, R.Governs (f a)) : R.Governs (m >>= f) :=
  fun s => Res.Follows.bind rest (first s)

theorem sec {m : Sec σ α} (around : ∀ t, (R.quiet t).Around m) : R.Governs (Resumption.sec m) :=
  fun s => ⟨rfl, rfl, around s.active s.active s.body⟩

theorem sec_bind {m : Sec σ α} {f : α → Prog (Locked σ) β}
    (next : ∀ s : Locked σ, (f (m s.active s.body).1
      { s with body := (m s.active s.body).2 }).Follows R R.idle s) :
    R.Governs (Resumption.sec m >>= f) := next

theorem lock : R.Governs (Resumption.lock : Prog (Locked σ) Unit) := by
  intro s
  refine ⟨R.idle, rfl, R.refl _ s.body, fun s' _ => ⟨rfl, Locked.acquire_active s', ?_⟩⟩
  rw [Locked.acquire_body]
  exact R.refl _ s'.body

theorem unlock : R.Governs (Resumption.unlock : Prog (Locked σ) Unit) := by
  intro s
  refine ⟨R.idle, Locked.release_active s, ?_, fun s' _ => ⟨rfl, rfl, R.refl _ s'.body⟩⟩
  rw [Locked.release_body]
  exact R.refl _ s.body

theorem ite {c : Prop} [Decidable c] {m n : Prog (Locked σ) α} (yes : R.Governs m)
    (no : R.Governs n) : R.Governs (if c then m else n) := by
  split
  · exact yes
  · exact no

theorem when {c : Prop} [Decidable c] {m : Prog (Locked σ) Unit} (yes : R.Governs m) :
    R.Governs (Prog.when c m) := ite yes (pure ())

theorem forEach {ι : Type} {body : ι → Prog (Locked σ) Unit} (each : ∀ i, R.Governs (body i))
    (l : List ι) : R.Governs (Resumption.forEach l body) := by
  induction l with
  | nil => exact pure ()
  | cons i rest ih => exact bind (each i) fun _ => ih

end Governs

end Phases

theorem Frame.Throughout.of_phases {F : Frame σ} {m : Prog (Locked σ) α}
    (governs : F.phases.Governs m) : F.Throughout m := by
  intro s
  have follows := governs s
  generalize F.phases.idle = p at follows
  generalize m s = x at follows
  induction x generalizing p s with
  | done a s' => exact follows.2.2
  | wait ready resume s' ih =>
    obtain ⟨q, -, moved, rest⟩ := follows
    exact ⟨moved, fun s'' ok => ih s'' s'' q (rest s'' ok)⟩

theorem Frame.Across.of_phases {F : Frame σ} {m : Prog (Locked σ) α}
    (governs : F.phases.Governs m) : F.Across m := by
  intro s a last run
  have follows := governs s
  generalize F.phases.idle = p at follows
  change (m s).run = _ at run
  generalize m s = x at follows run
  induction x generalizing p s with
  | done b s' =>
    cases run
    exact follows.2.2
  | wait ready resume s' ih =>
    obtain ⟨q, -, moved, rest⟩ := follows
    simp only [Res.run] at run
    split at run
    next ok => exact F.trans moved (ih s' s' q (rest s' ok) run)
    next => cases run

def Waits (R : Phases φ σ) (p : φ) : Option (Pending (Locked σ) α) → Prop
  | none => p = R.idle
  | some w => ∀ s, w.ready s = true → (w.resume s).Follows R p s

namespace Pool

variable {R : Phases φ σ} {drift : σ → σ → Prop} {allowed : Nat → Prog (Locked σ) α → Prop}
  {init : Locked σ → Prop} {c : Pool (Locked σ) α} {phase : Nat → φ}

def Attends (R : Phases φ σ) (c : Pool (Locked σ) α) (phase : Nat → φ) : Prop :=
  ∀ t, Waits R (phase t) (c.threads t)

theorem Attends.update (attends : Attends R c phase) {t : Nat} {q : φ}
    {w : Option (Pending (Locked σ) α)} (own : Waits R q w) (s : Locked σ) :
    Attends R ⟨s, Function.update c.threads t w⟩ (Function.update phase t q) := by
  intro u
  by_cases same : u = t
  · subst same
    simpa using own
  · simpa only [Function.update_of_ne same] using attends u

theorem Attends.called (attends : Attends R c phase) {t : Nat} {p : Prog (Locked σ) α}
    (governs : R.Governs p) (free : c.threads t = none) :
    Attends R ⟨c.shared, Function.update c.threads t (some ⟨fun _ => true, p⟩)⟩ phase := by
  have idle : Waits R (phase t) (none : Option (Pending (Locked σ) α)) := free ▸ attends t
  change phase t = R.idle at idle
  have own : Waits R (phase t) (some ⟨fun _ => true, p⟩) := by
    rw [idle]
    exact fun s _ => governs s
  simpa only [Function.update_eq_self] using attends.update (t := t) own c.shared

theorem Attends.resumed (attends : Attends R c phase) {t : Nat} {w : Pending (Locked σ) α}
    (waiting : c.threads t = some w)
    (ok : w.ready ((lockedMachine drift).enter t c.shared) = true) :
    let c' := c.resumed t (w.resume ((lockedMachine drift).enter t c.shared))
    ∃ q, R.rel t (phase t) c.shared.body q c'.shared.body ∧
      Attends R c' (Function.update phase t q) := by
  have own : Waits R (phase t) (some w) := waiting ▸ attends t
  have follows := own _ ok
  cases eq : w.resume ((lockedMachine drift).enter t c.shared) with
  | done a s =>
    rw [eq] at follows
    obtain ⟨idle, -, moved⟩ := follows
    refine ⟨R.idle, ?_, attends.update (w := none) rfl s⟩
    rw [idle]
    exact moved
  | wait ready resume s =>
    rw [eq] at follows
    obtain ⟨q, -, moved, rest⟩ := follows
    exact ⟨q, moved, attends.update (w := some ⟨ready, resume⟩) rest s⟩

theorem Reachable.phased {J : (Nat → φ) → σ → Prop} (calls : ∀ t p, allowed t p → R.Governs p)
    (first : ∀ s, init s → J (fun _ => R.idle) s.body)
    (blocks : ∀ {c : Pool (Locked σ) α} {t : Nat} {w : Pending (Locked σ) α} {phase : Nat → φ}
      {q : φ} {b : σ}, Reachable (lockedMachine drift) allowed init c → c.threads t = some w →
      (ok : w.ready ((lockedMachine drift).enter t c.shared) = true) →
      (c.resumed t (w.resume ((lockedMachine drift).enter t c.shared))).shared.body = b →
      R.rel t (phase t) c.shared.body q b → J phase c.shared.body → J (Function.update phase t q) b)
    (drifts : ∀ phase b b', drift b b' → J phase b → J phase b')
    (h : Reachable (lockedMachine drift) allowed init c) :
    ∃ phase, Attends R c phase ∧ J phase c.shared.body := by
  induction h with
  | start s begins => exact ⟨fun _ => R.idle, fun _ => rfl, first s begins⟩
  | step before move ih =>
    obtain ⟨phase, attends, holds⟩ := ih
    cases move with
    | call t p may free => exact ⟨phase, attends.called (calls t p may) free, holds⟩
    | resume t w waiting ok =>
      obtain ⟨q, moved, attends'⟩ := attends.resumed waiting ok
      exact ⟨_, attends', blocks before waiting ok rfl moved holds⟩
    | drift s' drifted =>
      obtain ⟨b, free, rfl⟩ := drifted
      exact ⟨phase, attends, drifts phase _ b free holds⟩

theorem Reachable.step_along {F : Frame σ} (calls : ∀ t p, allowed t p → F.phases.Governs p)
    (drifts : ∀ b b', drift b b' → F.rel b b')
    (h : Reachable (lockedMachine drift) allowed init c) {c' : Pool (Locked σ) α}
    (step : Step (lockedMachine drift) allowed c c') : F.rel c.shared.body c'.shared.body := by
  cases step with
  | call t p may free => exact F.refl c.shared.body
  | resume t w waiting ok =>
    obtain ⟨phase, attends, -⟩ := h.phased (J := fun _ _ => True) calls (fun _ _ => trivial)
      (fun _ _ _ _ _ _ => trivial) fun _ _ _ _ _ => trivial
    obtain ⟨q, moved, -⟩ := attends.resumed waiting ok
    exact moved
  | drift s' drifted =>
    obtain ⟨b, free, rfl⟩ := drifted
    exact drifts _ _ free

theorem Reachable.along {F : Frame σ} (calls : ∀ t p, allowed t p → F.phases.Governs p)
    (drifts : ∀ b b', drift b b' → F.rel b b')
    (h : Reachable (lockedMachine drift) allowed init c) :
    ∃ s, init s ∧ F.rel s.body c.shared.body := by
  induction h with
  | start s first => exact ⟨s, first, F.refl s.body⟩
  | step before move ih =>
    obtain ⟨s, first, moved⟩ := ih
    exact ⟨s, first, F.trans moved (before.step_along calls drifts move)⟩

end Pool

end Resumption
