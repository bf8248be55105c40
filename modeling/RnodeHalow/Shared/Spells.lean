import RnodeHalow.Shared.Phases

set_option autoImplicit false

namespace Resumption

variable {σ α β φ : Type}

inductive Res.Blocks (R : σ → σ → Prop) : σ → Res σ α → List (σ × σ) → α → Prop
  | done (s₀ : σ) (a : α) (s : σ) : Blocks R s₀ (.done a s) [(s₀, s)] a
  | wait {ready : σ → Bool} {resume : σ → Res σ α} {s₀ s s' : σ} {later : List (σ × σ)} {a : α}
      (moved : R s s') (ok : ready s' = true) (rest : Blocks R s' (resume s') later a) :
      Blocks R s₀ (.wait ready resume s) ((s₀, s) :: later) a

def Res.halt : Res σ α → σ
  | .done _ s => s
  | .wait _ _ s => s

def Res.solo (fixed : σ → Bool) (s₀ : σ) : Res σ α → Option (List (σ × σ) × α)
  | .done a s => some ([(s₀, s)], a)
  | .wait ready resume s =>
    if fixed s && ready s then
      ((resume s).solo fixed s).map fun r => ((s₀, s) :: r.1, r.2)
    else none

namespace Res.Blocks

variable {R : σ → σ → Prop} {s0 : σ} {blocks : List (σ × σ)}

theorem first {x : Res σ α} {a : α} (run : x.Blocks R s0 blocks a) :
    ∃ later, blocks = (s0, x.halt) :: later := by
  cases run with
  | done => exact ⟨[], rfl⟩
  | wait moved ok rest => exact ⟨_, rfl⟩

theorem bind {x : Res σ α} {f : α → Prog σ β} {b : β} (run : (x.bind f).Blocks R s0 blocks b) :
    ∃ a s m before after, blocks = before ++ after ∧ x.Blocks R s0 (before ++ [(s, m)]) a ∧
      (f a m).Blocks R s after b := by
  induction x generalizing s0 blocks with
  | done a s => exact ⟨a, s0, s, [], blocks, rfl, .done s0 a s, run⟩
  | wait ready resume s ih =>
    cases run with
    | wait moved ok rest =>
      obtain ⟨a, s', m, before, after, rfl, one, two⟩ := ih _ rest
      exact ⟨a, s', m, _ :: before, after, rfl, .wait moved ok one, two⟩

theorem pure {a b : α} {s : σ} (run : ((Pure.pure a : Prog σ α) s).Blocks R s0 blocks b) :
    blocks = [(s0, s)] ∧ b = a := by
  cases run
  exact ⟨rfl, rfl⟩

theorem pure_last {a b : α} {s s' m : σ} {before : List (σ × σ)}
    (run : ((Pure.pure a : Prog σ α) s).Blocks R s0 (before ++ [(s', m)]) b) :
    s' = s0 ∧ m = s ∧ b = a := by
  obtain ⟨eq, rfl⟩ := run.pure
  have ends := congrArg List.getLast? eq
  rw [List.getLast?_concat] at ends
  cases ends
  exact ⟨rfl, rfl, rfl⟩

theorem bind_pure {x : Res σ α} {g : α → β} {b : β} {s' m : σ} {before : List (σ × σ)}
    (run : (x.bind fun a => Pure.pure (g a)).Blocks R s0 (before ++ [(s', m)]) b) :
    ∃ a, b = g a ∧ x.Blocks R s0 (before ++ [(s', m)]) a := by
  obtain ⟨a, s, m', before', after, eq, first, rest⟩ := run.bind
  obtain ⟨rfl, rfl⟩ := rest.pure
  exact ⟨a, rfl, eq ▸ first⟩

end Res.Blocks

section Mutex

variable {R : Locked σ → Locked σ → Prop} {s0 s : Locked σ} {blocks : List (Locked σ × Locked σ)}

theorem Res.Follows.each_block {P : Phases φ σ} {S : σ → σ → Prop}
    (each : ∀ {t p b q b'}, P.rel t p b q b' → S b b') {x : Res (Locked σ) α} {p : φ}
    (follows : x.Follows P p s0) {a : α} (run : x.Blocks R s0 blocks a) :
    ∀ block ∈ blocks, S block.1.body block.2.body := by
  induction run generalizing p with
  | done s0 a s =>
    intro block member
    rw [List.mem_singleton.mp member]
    exact each follows.2.2
  | wait moved ok rest ih =>
    obtain ⟨q, -, first, later⟩ := follows
    intro block member
    rcases List.mem_cons.mp member with rfl | member
    · exact each first
    · exact ih (later _ ok) block member

theorem Res.Blocks.sec {m : Sec σ α} {f : α → Prog (Locked σ) β} {b : β}
    (run : ((Resumption.sec m >>= f) s).Blocks R s0 blocks b) :
    (f (m s.active s.body).1 { s with body := (m s.active s.body).2 }).Blocks R s0 blocks b := run

theorem Res.Blocks.sec_last {m : Sec σ α} {a : α}
    (run : (Resumption.sec m s).Blocks R s0 blocks a) :
    blocks = [(s0, { s with body := (m s.active s.body).2 })] ∧ a = (m s.active s.body).1 := by
  cases run
  exact ⟨rfl, rfl⟩

theorem Res.Blocks.lock {f : Unit → Prog (Locked σ) β} {b : β}
    (run : ((Resumption.lock >>= f) s).Blocks R s0 blocks b) :
    ∃ s' later, blocks = (s0, s) :: later ∧ R s s' ∧ s'.available = true ∧
      (f () s'.acquire).Blocks R s' later b := by
  cases run with
  | wait moved ok rest => exact ⟨_, _, rfl, moved, ok, rest⟩

theorem Res.Blocks.unlock {f : Unit → Prog (Locked σ) β} {b : β}
    (run : ((Resumption.unlock >>= f) s).Blocks R s0 blocks b) :
    ∃ s' later, blocks = (s0, s.release) :: later ∧ R s.release s' ∧
      (f () s').Blocks R s' later b := by
  cases run with
  | wait moved ok rest => exact ⟨_, _, rfl, moved, rest⟩

end Mutex

namespace Pool

variable {M : Machine σ} {allowed : Nat → Prog σ α → Prop} {init : σ → Prop} {t : Nat}

-- A step of another thread, or of the world.
inductive Beside (M : Machine σ) (allowed : Nat → Prog σ α → Prop) (t : Nat) (c : Pool σ α) :
    Pool σ α → Prop
  | call (u : Nat) (p : Prog σ α) : u ≠ t → allowed u p → c.threads u = none →
      Beside M allowed t c ⟨c.shared, Function.update c.threads u (some ⟨fun _ => true, p⟩)⟩
  | resume (u : Nat) (w : Pending σ α) : u ≠ t → c.threads u = some w →
      w.ready (M.enter u c.shared) = true →
      Beside M allowed t c (c.resumed u (w.resume (M.enter u c.shared)))
  | drift (s : σ) : M.drift c.shared s → Beside M allowed t c ⟨s, c.threads⟩

theorem Beside.step {c c' : Pool σ α} (beside : Beside M allowed t c c') : Step M allowed c c' := by
  cases beside with
  | call u p other ok free => exact .call c u p ok free
  | resume u w other waiting ok => exact .resume c u w waiting ok
  | drift s moved => exact .drift c s moved

theorem Beside.threads {c c' : Pool σ α} (beside : Beside M allowed t c c') :
    c'.threads t = c.threads t := by
  cases beside with
  | call u p other ok free => exact Function.update_of_ne other.symm _ _
  | resume u w other waiting ok =>
    cases w.resume (M.enter u c.shared) with
    | done | wait => exact Function.update_of_ne other.symm _ _
  | drift s moved => rfl

theorem Beside.interfere {D : Discipline M} {c c' : Pool σ α} (good : Good D c)
    (beside : Beside M allowed t c c') : D.Interfere t c.shared c'.shared := by
  cases beside with
  | call u p other ok free => exact .refl
  | resume u w other waiting ok =>
    have own : Local D c.shared u (some w) := waiting ▸ good.2 u
    have safe := (own c.shared .refl good.1 ok).prepend (D.act_enter u c.shared)
    exact .single ⟨good.1, .inl ⟨u, other, (good.resumed safe).2⟩⟩
  | drift s moved => exact .single ⟨good.1, .inr moved⟩

inductive Spell (M : Machine σ) (allowed : Nat → Prog σ α → Prop) (t : Nat) :
    Pool σ α → List (σ × σ) → α → Pool σ α → Prop
  | last {c : Pool σ α} {w : Pending σ α} {a : α} {s : σ} (waiting : c.threads t = some w)
      (ok : w.ready (M.enter t c.shared) = true)
      (ends : w.resume (M.enter t c.shared) = .done a s) :
      Spell M allowed t c [(M.enter t c.shared, s)] a (c.resumed t (.done a s))
  | block {c last : Pool σ α} {w : Pending σ α} {a : α} {s : σ} {ready : σ → Bool}
      {resume : σ → Res σ α} {later : List (σ × σ)} (waiting : c.threads t = some w)
      (ok : w.ready (M.enter t c.shared) = true)
      (stops : w.resume (M.enter t c.shared) = .wait ready resume s)
      (rest : Spell M allowed t (c.resumed t (.wait ready resume s)) later a last) :
      Spell M allowed t c ((M.enter t c.shared, s) :: later) a last
  | other {c c' last : Pool σ α} {blocks : List (σ × σ)} {a : α} (beside : Beside M allowed t c c')
      (rest : Spell M allowed t c' blocks a last) : Spell M allowed t c blocks a last

variable {c last : Pool σ α} {blocks : List (σ × σ)} {a : α}

theorem Spell.starts (spell : Spell M allowed t c blocks a last) (h : Reachable M allowed init c) :
    ∀ block ∈ blocks, ∃ c', Reachable M allowed init c' ∧ block.1 = M.enter t c'.shared := by
  induction spell with
  | last waiting ok ends =>
    intro block member
    rw [List.mem_singleton.mp member]
    exact ⟨_, h, rfl⟩
  | @block c _ w _ _ ready resume _ waiting ok stops rest ih =>
    intro block member
    rcases List.mem_cons.mp member with rfl | member
    · exact ⟨c, h, rfl⟩
    · have next := h.step (.resume c t w waiting ok)
      rw [stops] at next
      exact ih next block member
  | other beside rest ih => exact ih (h.step beside.step)

def Between (D : Discipline M) (t : Nat) (s s' : σ) : Prop :=
  ∃ s'', D.Interfere t s s'' ∧ s' = M.enter t s''

theorem Spell.run {D : Discipline M} (calls : Disciplined D allowed)
    (spell : Spell M allowed t c blocks a last) (good : Good D c) {w : Pending σ α}
    (waiting : c.threads t = some w) :
    ∃ s, Between D t c.shared s ∧ w.ready s = true ∧
      (w.resume s).Blocks (Between D t) s blocks a := by
  induction spell generalizing w with
  | last held ok ends =>
    cases held.symm.trans waiting
    exact ⟨_, ⟨_, .refl, rfl⟩, ok, ends ▸ .done _ _ _⟩
  | @block c _ w _ _ ready resume _ held ok stops rest ih =>
    cases held.symm.trans waiting
    have next := (good.step calls (.resume c t w held ok)).1
    rw [stops] at next
    obtain ⟨s', moved, ready', run⟩ := ih next (Function.update_self ..)
    exact ⟨_, ⟨_, .refl, rfl⟩, ok, stops ▸ .wait moved ready' run⟩
  | @other c c' _ _ _ beside rest ih =>
    obtain ⟨s, ⟨s'', moved, rfl⟩, ready, run⟩ :=
      ih (good.step calls beside.step).1 (beside.threads.trans waiting)
    exact ⟨_, ⟨s'', (beside.interfere good).trans moved, rfl⟩, ready, run⟩

theorem Spell.resumed {fixed : σ → Bool} (stays : ∀ s, fixed s = true → M.enter t s = s)
    {x : Res σ α} {w : Pending σ α} (waiting : c.threads t = some w)
    (ok : w.ready (M.enter t c.shared) = true) (next : w.resume (M.enter t c.shared) = x)
    (alone : x.solo fixed (M.enter t c.shared) = some (blocks, a)) :
    ∃ last, Spell M allowed t c blocks a last := by
  induction x generalizing c w blocks with
  | done b s =>
    cases alone
    exact ⟨_, .last waiting ok next⟩
  | wait ready resume s ih =>
    simp only [Res.solo] at alone
    split at alone
    next go =>
      rw [Bool.and_eq_true] at go
      obtain ⟨⟨later, b⟩, rest, eq⟩ := Option.map_eq_some_iff.mp alone
      cases eq
      have here : M.enter t (c.resumed t (.wait ready resume s)).shared = s := stays s go.1
      obtain ⟨last, spell⟩ := ih s (c := c.resumed t (.wait ready resume s))
        (Function.update_self ..) (by rw [here]; exact go.2) (by rw [here]) (by rw [here]; exact rest)
      exact ⟨last, .block waiting ok next spell⟩
    next => cases alone

theorem Spell.solo {fixed : σ → Bool} (stays : ∀ s, fixed s = true → M.enter t s = s)
    {p : Prog σ α} (alone : (p (M.enter t c.shared)).solo fixed (M.enter t c.shared) =
      some (blocks, a)) :
    ∃ last, Spell M allowed t
      ⟨c.shared, Function.update c.threads t (some ⟨fun _ => true, p⟩)⟩ blocks a last :=
  Spell.resumed stays (Function.update_self ..) rfl rfl alone

end Pool

end Resumption
