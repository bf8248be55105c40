import Mathlib.Logic.Function.Basic
import Mathlib.Logic.Relation

set_option autoImplicit false

-- A block ends with a result or at a scheduling point, where any other program may run.

namespace Resumption

inductive Res (σ α : Type) where
  | done (value : α) (state : σ)
  | wait (ready : σ → Bool) (resume : σ → Res σ α) (state : σ)

abbrev Prog (σ α : Type) := σ → Res σ α

variable {σ α β : Type}

def Res.bind : Res σ α → (α → Prog σ β) → Res σ β
  | .done a s, f => f a s
  | .wait ready resume s, f => .wait ready (fun s' => (resume s').bind f) s

instance : Monad (Prog σ) where
  pure a := fun s => .done a s
  bind m f := fun s => (m s).bind f

@[simp] theorem pure_apply (a : α) (s : σ) : (pure a : Prog σ α) s = .done a s := rfl

@[simp] theorem bind_apply (m : Prog σ α) (f : α → Prog σ β) (s : σ) :
    (m >>= f) s = (m s).bind f := rfl

@[simp] theorem Res.bind_done (a : α) (s : σ) (f : α → Prog σ β) :
    (Res.done a s).bind f = f a s := rfl

@[simp] theorem Res.bind_wait (ready : σ → Bool) (resume : σ → Res σ α) (s : σ)
    (f : α → Prog σ β) :
    (Res.wait ready resume s).bind f = .wait ready (fun s' => (resume s').bind f) s := rfl

def Res.run : Res σ α → Option (α × σ)
  | .done a s => some (a, s)
  | .wait ready resume s => if ready s then (resume s).run else none

def Prog.run (m : Prog σ α) (s : σ) : Option (α × σ) := (m s).run

theorem Res.run_bind (x : Res σ α) (f : α → Prog σ β) :
    (x.bind f).run = x.run.bind fun r => (f r.1 r.2).run := by
  induction x with
  | done a s => rfl
  | wait ready resume s ih =>
    simp only [bind_wait, Res.run]
    split
    · exact ih s
    · rfl

@[simp] theorem Prog.run_pure (a : α) (s : σ) : (pure a : Prog σ α).run s = some (a, s) := rfl

theorem Prog.run_bind (m : Prog σ α) (f : α → Prog σ β) (s : σ) :
    (m >>= f).run s = (m.run s).bind fun r => (f r.1).run r.2 :=
  Res.run_bind (m s) f

def Prog.when (c : Prop) [Decidable c] (m : Prog σ Unit) : Prog σ Unit := if c then m else pure ()

def forEach {ι : Type} : List ι → (ι → Prog σ Unit) → Prog σ Unit
  | [], _ => pure ()
  | i :: rest, body => do
    body i
    forEach rest body

@[simp] theorem forEach_nil {ι : Type} (body : ι → Prog σ Unit) : forEach [] body = pure () := rfl

structure Machine (σ : Type) where
  enter : Nat → σ → σ
  drift : σ → σ → Prop

-- A program that keeps to a `Discipline` under interference keeps to it in every interleaving.
-- It says what the blocks of a thread do, what holds between blocks, and what holds with no call.
structure Discipline {σ : Type} (M : Machine σ) where
  inv : σ → Prop
  act : Nat → σ → σ → Prop
  idle : Nat → σ → Prop
  act_refl : ∀ t s, act t s s
  act_enter : ∀ t s, act t s (M.enter t s)
  act_trans : ∀ {t s s' s''}, act t s s' → act t s' s'' → act t s s''
  act_inv : ∀ {t s s'}, inv s → act t s s' → inv s'
  drift_inv : ∀ {s s'}, inv s → M.drift s s' → inv s'
  idle_act : ∀ {t t' s s'}, t' ≠ t → inv s → act t' s s' → idle t s → idle t s'
  idle_drift : ∀ {t s s'}, inv s → M.drift s s' → idle t s → idle t s'

namespace Discipline

variable {M : Machine σ} (D : Discipline M)

def Other (t : Nat) (s s' : σ) : Prop :=
  D.inv s ∧ ((∃ t', t' ≠ t ∧ D.act t' s s') ∨ M.drift s s')

def Interfere (t : Nat) : σ → σ → Prop := Relation.ReflTransGen (D.Other t)

def Stable (t : Nat) (P : σ → Prop) : Prop :=
  ∀ s s', D.Other t s s' → P s → P s'

variable {D}

theorem Stable.interfere {t : Nat} {P : σ → Prop} (stable : D.Stable t P) {s s' : σ}
    (moves : D.Interfere t s s') (h : P s) : P s' := by
  induction moves with
  | refl => exact h
  | tail _ move ih => exact stable _ _ move ih

theorem idle_stable (t : Nat) : D.Stable t (D.idle t) := by
  rintro s s' ⟨hi, ⟨t', ne, act⟩ | drift⟩ h
  · exact D.idle_act ne hi act h
  · exact D.idle_drift hi drift h

end Discipline

def Res.Safe {M : Machine σ} (D : Discipline M) (t : Nat) (post : α → σ → Prop) : σ → Res σ α → Prop
  | s₀, .done a s => D.act t s₀ s ∧ post a s
  | s₀, .wait ready resume s =>
    D.act t s₀ s ∧ ∀ s', D.Interfere t s s' → D.inv s' → ready (M.enter t s') = true →
      (resume (M.enter t s')).Safe D t post (M.enter t s')

variable {M : Machine σ} {D : Discipline M} {t : Nat}

theorem Res.Safe.prepend {post : α → σ → Prop} {s0 s : σ} {x : Res σ α}
    (first : D.act t s0 s) (safe : x.Safe D t post s) : x.Safe D t post s0 := by
  cases x with
  | done | wait => exact ⟨D.act_trans first safe.1, safe.2⟩

theorem Res.Safe.mono {post post' : α → σ → Prop} (weaker : ∀ a s, post a s → post' a s)
    {x : Res σ α} : ∀ {s0 : σ}, x.Safe D t post s0 → x.Safe D t post' s0 := by
  induction x with
  | done a s => exact fun ⟨act, h⟩ => ⟨act, weaker a s h⟩
  | wait ready resume s ih =>
    exact fun ⟨act, more⟩ => ⟨act, fun s' moves inv ok => ih _ (more s' moves inv ok)⟩

theorem Res.Safe.bind {mid : α → σ → Prop} {post : β → σ → Prop} {x : Res σ α}
    {f : α → Prog σ β} (rest : ∀ a s, mid a s → (f a s).Safe D t post s) :
    ∀ {s0 : σ}, x.Safe D t mid s0 → (x.bind f).Safe D t post s0 := by
  induction x with
  | done a s =>
    intro s0 safe
    exact (rest a s safe.2).prepend safe.1
  | wait ready resume s ih =>
    intro s0 safe
    exact ⟨safe.1, fun s' moves inv ok => ih _ (safe.2 s' moves inv ok)⟩

structure Pending (σ α : Type) where
  ready : σ → Bool
  resume : Prog σ α

structure Pool (σ α : Type) where
  shared : σ
  threads : Nat → Option (Pending σ α)

namespace Pool

def resumed (c : Pool σ α) (t : Nat) : Res σ α → Pool σ α
  | .done _ s => ⟨s, Function.update c.threads t none⟩
  | .wait ready resume s => ⟨s, Function.update c.threads t (some ⟨ready, resume⟩)⟩

-- A thread makes an `allowed` call or runs its next block, or the surroundings move.
inductive Step (M : Machine σ) (allowed : Nat → Prog σ α → Prop) : Pool σ α → Pool σ α → Prop
  | call (c : Pool σ α) (t : Nat) (p : Prog σ α) : allowed t p → c.threads t = none →
      Step M allowed c ⟨c.shared, Function.update c.threads t (some ⟨fun _ => true, p⟩)⟩
  | resume (c : Pool σ α) (t : Nat) (w : Pending σ α) : c.threads t = some w →
      w.ready (M.enter t c.shared) = true →
      Step M allowed c (c.resumed t (w.resume (M.enter t c.shared)))
  | drift (c : Pool σ α) (s : σ) : M.drift c.shared s → Step M allowed c ⟨s, c.threads⟩

inductive Reachable (M : Machine σ) (allowed : Nat → Prog σ α → Prop) (init : σ → Prop) :
    Pool σ α → Prop
  | start (s : σ) : init s → Reachable M allowed init ⟨s, fun _ => none⟩
  | step {c c' : Pool σ α} : Reachable M allowed init c → Step M allowed c c' →
      Reachable M allowed init c'

variable {allowed : Nat → Prog σ α → Prop} {init : σ → Prop}

def Resumable (D : Discipline M) (s : σ) (t : Nat) (w : Pending σ α) : Prop :=
  ∀ s', D.Interfere t s s' → D.inv s' → w.ready (M.enter t s') = true →
    (w.resume (M.enter t s')).Safe D t (fun _ => D.idle t) (M.enter t s')

def Local (D : Discipline M) (s : σ) (t : Nat) : Option (Pending σ α) → Prop
  | none => D.idle t s
  | some w => Resumable D s t w

def Good (D : Discipline M) (c : Pool σ α) : Prop :=
  D.inv c.shared ∧ ∀ t, Local D c.shared t (c.threads t)

theorem Local.other {s s' : σ} {t : Nat} {w : Option (Pending σ α)} (move : D.Other t s s')
    (h : Local D s t w) : Local D s' t w := by
  cases w with
  | none => exact Discipline.idle_stable t _ _ move h
  | some w => exact fun s'' moves => h s'' (Relation.ReflTransGen.head move moves)

theorem Good.update {c : Pool σ α} (good : Good D c) {t : Nat} {s : σ}
    {w : Option (Pending σ α)} (act : D.act t c.shared s) (own : Local D s t w) :
    Good D ⟨s, Function.update c.threads t w⟩ := by
  refine ⟨D.act_inv good.1 act, fun u => ?_⟩
  by_cases same : u = t
  · subst same
    simpa using own
  · simp only [Function.update_of_ne same]
    exact (good.2 u).other ⟨good.1, .inl ⟨t, fun h => same h.symm, act⟩⟩

theorem Good.resumed {c : Pool σ α} (good : Good D c) {t : Nat} {x : Res σ α}
    (safe : x.Safe D t (fun _ => D.idle t) c.shared) :
    Good D (c.resumed t x) ∧ D.act t c.shared (c.resumed t x).shared := by
  cases x with
  | done | wait => exact ⟨good.update safe.1 safe.2, safe.1⟩

def Disciplined (D : Discipline M) (allowed : Nat → Prog σ α → Prop) : Prop :=
  ∀ t p, allowed t p → ∀ s, D.inv s → D.idle t s →
    (p (M.enter t s)).Safe D t (fun _ => D.idle t) (M.enter t s)

inductive Moves (D : Discipline M) (s s' : σ) : Prop
  | stay : s' = s → Moves D s s'
  | block (t : Nat) : D.act t s s' → Moves D s s'
  | drift : M.drift s s' → Moves D s s'

theorem Good.step {c c' : Pool σ α} (calls : Disciplined D allowed) (good : Good D c)
    (step : Step M allowed c c') : Good D c' ∧ Moves D c.shared c'.shared := by
  cases step with
  | call t p ok free =>
    have idle : Local D c.shared t (none : Option (Pending σ α)) := free ▸ good.2 t
    refine ⟨good.update (D.act_refl t _) ?_, .stay rfl⟩
    intro s moves inv _
    exact calls t p ok s inv ((Discipline.idle_stable t).interfere moves idle)
  | resume t w pending ok =>
    have own : Local D c.shared t (some w) := pending ▸ good.2 t
    have safe := (own c.shared .refl good.1 ok).prepend (D.act_enter t c.shared)
    exact ⟨(good.resumed safe).1, .block t (good.resumed safe).2⟩
  | drift s move =>
    exact ⟨⟨D.drift_inv good.1 move, fun t => (good.2 t).other ⟨good.1, .inr move⟩⟩, .drift move⟩

theorem Reachable.good {c : Pool σ α} (calls : Disciplined D allowed)
    (starts : ∀ s, init s → D.inv s ∧ ∀ t, D.idle t s) (h : Reachable M allowed init c) :
    Good D c := by
  induction h with
  | start s first => exact ⟨(starts s first).1, (starts s first).2⟩
  | step _ move ih => exact (ih.step calls move).1

theorem Reachable.invariant {J : σ → Prop} {c : Pool σ α} (calls : Disciplined D allowed)
    (starts : ∀ s, init s → D.inv s ∧ ∀ t, D.idle t s) (first : ∀ s, init s → J s)
    (acts : ∀ t s s', D.inv s → D.act t s s' → J s → J s')
    (drifts : ∀ s s', D.inv s → M.drift s s' → J s → J s') (h : Reachable M allowed init c) :
    J c.shared := by
  induction h with
  | start s begins => exact first s begins
  | step before move ih =>
    have good := before.good calls starts
    cases (good.step calls move).2 with
    | stay same => exact same ▸ ih
    | block t act => exact acts t _ _ good.1 act ih
    | drift moved => exact drifts _ _ good.1 moved ih

end Pool

end Resumption
