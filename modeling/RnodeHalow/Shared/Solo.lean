import RnodeHalow.Shared.Mutex

set_option autoImplicit false

namespace Resumption

section Alone

variable {σ α β : Type}

def Alone (m : Prog σ α) (s : σ) (post : α → σ → Prop) : Prop :=
  ∃ a s', m.run s = some (a, s') ∧ post a s'

variable {s : σ} {post post' : α → σ → Prop}

theorem Alone.pure (a : α) (h : post a s) : Alone (Pure.pure a : Prog σ α) s post :=
  ⟨a, s, rfl, h⟩

theorem Alone.seq {m : Prog σ α} {f : α → Prog σ β} {last : β → σ → Prop}
    (first : Alone m s fun a s' => Alone (f a) s' last) : Alone (m >>= f) s last := by
  obtain ⟨a, s', run, b, s'', more, h⟩ := first
  exact ⟨b, s'', by rw [Prog.run_bind, run]; exact more, h⟩

theorem Alone.mono {m : Prog σ α} (alone : Alone m s post)
    (weaker : ∀ a s', post a s' → post' a s') : Alone m s post' := by
  obtain ⟨a, s', run, h⟩ := alone
  exact ⟨a, s', run, weaker a s' h⟩

theorem Alone.when {c : Prop} [Decidable c] {m : Prog σ Unit} {post : Unit → σ → Prop}
    (yes : c → Alone m s post) (no : ¬ c → post () s) : Alone (Prog.when c m) s post := by
  unfold Prog.when
  by_cases h : c
  · rw [if_pos h]
    exact yes h
  · rw [if_neg h]
    exact .pure () (no h)

theorem Alone.forEach {ι : Type} {body : ι → Prog σ Unit} {J : σ → Prop}
    (each : ∀ i s, J s → Alone (body i) s fun _ => J) (l : List ι) (h : J s) :
    Alone (forEach l body) s fun _ => J := by
  induction l generalizing s with
  | nil => exact .pure () h
  | cons i rest ih => exact .seq ((each i s h).mono fun _ _ h' => ih h')

end Alone

section Mutex

variable {σ α β : Type} {s : Locked σ} {post : α → Locked σ → Prop}

theorem Alone.sec {m : Sec σ α}
    (h : post (m s.active s.body).1 { s with body := (m s.active s.body).2 }) :
    Alone (sec m) s post := ⟨_, _, rfl, h⟩

theorem Alone.read {f : σ → α} {k : α → Prog (Locked σ) β} {last : β → Locked σ → Prop}
    (h : Alone (k (f s.body)) s last) : Alone (Resumption.sec (Sec.read f) >>= k) s last :=
  .seq (.sec h)

theorem Alone.lock {post : Unit → Locked σ → Prop} (free : s.available = true)
    (h : post () s.acquire) : Alone lock s post := ⟨(), _, lock_run s free, h⟩

theorem Alone.unlock {post : Unit → Locked σ → Prop} (h : post () s.release) :
    Alone unlock s post := ⟨(), _, unlock_run s, h⟩

def Locked.Free (n : Nat) (s : Locked σ) : Prop := s.owner = none ∧ s.misuse = n

def Locked.Held (n : Nat) (s : Locked σ) : Prop :=
  s.owner = some s.active ∧ s.nested = 1 ∧ s.misuse = n

theorem Locked.Free.acquire {n : Nat} (free : s.Free n) :
    s.available = true ∧ s.acquire.Held n := by
  simp [Locked.available, Locked.acquire, Locked.Held, free.1, free.2]

theorem Locked.Held.body {n : Nat} (held : s.Held n) (b : σ) :
    Locked.Held n { s with body := b } := held

theorem Locked.Held.release {n : Nat} (held : s.Held n) : s.release.Free n := by
  simp [Locked.release, Locked.Free, held.1, held.2.1, held.2.2]

theorem Alone.locked {m : Sec σ α} {k : α → Prog (Locked σ) β} {last : β → Locked σ → Prop}
    {n : Nat} (free : s.Free n)
    (h : ∀ s', s'.Free n → s'.active = s.active → s'.body = (m s.active s.body).2 →
      Alone (k (m s.active s.body).1) s' last) :
    Alone (do Resumption.lock; let a ← Resumption.sec m; Resumption.unlock; k a) s last := by
  refine .seq (.lock free.acquire.1 (.seq (.sec (.seq (.unlock ?_)))))
  have held : Locked.Held n { s.acquire with body := (m s.acquire.active s.acquire.body).2 } :=
    free.acquire.2
  have rest := h _ held.release (by simp) (by simp)
  simpa using rest

def Balanced (P : Locked σ → Prop) (m : Prog (Locked σ) α) (Q : Locked σ → Prop) : Prop :=
  ∀ s, P s → Alone m s fun _ => Q

variable {P Q R : Locked σ → Prop} {n : Nat}

theorem Balanced.pure (a : α) : Balanced P (Pure.pure a : Prog (Locked σ) α) P :=
  fun _ h => .pure a h

theorem Balanced.bind {m : Prog (Locked σ) α} {f : α → Prog (Locked σ) β}
    (first : Balanced P m Q) (rest : ∀ a, Balanced Q (f a) R) : Balanced P (m >>= f) R :=
  fun s h => .seq ((first s h).mono fun a s' h' => rest a s' h')

theorem Balanced.free (m : Sec σ α) : Balanced (Locked.Free n) (Resumption.sec m) (Locked.Free n) :=
  fun _ h => .sec h

theorem Balanced.held (m : Sec σ α) : Balanced (Locked.Held n) (Resumption.sec m) (Locked.Held n) :=
  fun _ h => .sec h

theorem Balanced.lock : Balanced (Locked.Free n) (lock : Prog (Locked σ) Unit) (Locked.Held n) :=
  fun _ h => .lock h.acquire.1 h.acquire.2

theorem Balanced.unlock :
    Balanced (Locked.Held n) (unlock : Prog (Locked σ) Unit) (Locked.Free n) :=
  fun _ h => .unlock h.release

theorem Balanced.when {c : Prop} [Decidable c] {m : Prog (Locked σ) Unit}
    (yes : Balanced P m P) : Balanced P (Prog.when c m) P :=
  fun s h => .when (fun _ => yes s h) fun _ => h

theorem Balanced.forEach {ι : Type} {body : ι → Prog (Locked σ) Unit}
    (each : ∀ i, Balanced P (body i) P) (l : List ι) :
    Balanced P (Resumption.forEach l body) P :=
  fun _ h => .forEach (fun i s => each i s) l h

end Mutex

section Steers

variable {σ α : Type} {R : σ → σ → Prop}

def Steers (R : σ → σ → Prop) (m : Prog (Locked σ) α) : Prop :=
  ∀ s a s', m.run s = some (a, s') → R s.body s'.body

theorem Alone.steer {m : Prog (Locked σ) α} {s : Locked σ} {post : α → Locked σ → Prop}
    (alone : Alone m s post) (steers : Steers R m) :
    Alone m s fun a s' => post a s' ∧ R s.body s'.body := by
  obtain ⟨a, s', run, h⟩ := alone
  exact ⟨a, s', run, h, steers _ _ _ run⟩

end Steers

def Frame.Across {σ α : Type} (F : Frame σ) (m : Prog (Locked σ) α) : Prop := Steers F.rel m

section Yields

variable {σ α β : Type} {P P' : σ → Prop} {Q Q' : α → σ → Prop}

def Yields (P : σ → Prop) (m : Prog (Locked σ) α) (Q : α → σ → Prop) : Prop :=
  ∀ s a s', m.run s = some (a, s') → P s.body → Q a s'.body

theorem Yields.pure (a : α) (h : ∀ b, P b → Q a b) :
    Yields P (Pure.pure a : Prog (Locked σ) α) Q := by
  rintro s _ _ ⟨⟩ p
  exact h _ p

theorem Yields.bind {m : Prog (Locked σ) α} {f : α → Prog (Locked σ) β} {R : β → σ → Prop}
    (first : Yields P m Q) (rest : ∀ a, Yields (Q a) (f a) R) : Yields P (m >>= f) R := by
  intro s b s' run p
  rw [Prog.run_bind] at run
  obtain ⟨⟨a, mid⟩, one, two⟩ := Option.bind_eq_some_iff.mp run
  exact rest a mid b s' two (first s a mid one p)

theorem Yields.conseq {m : Prog (Locked σ) α} (yields : Yields P m Q) (pre : ∀ b, P' b → P b)
    (post : ∀ a b, Q a b → Q' a b) : Yields P' m Q' :=
  fun s a s' run p => post a _ (yields s a s' run (pre _ p))

theorem Yields.each {m : Prog (Locked σ) α} (h : ∀ b, P b → Yields (· = b) m Q) : Yields P m Q :=
  fun s a s' run p => h s.body p s a s' run rfl

theorem Yields.sec {m : Sec σ α} (h : ∀ t b, P b → Q (m t b).1 (m t b).2) :
    Yields P (Resumption.sec m) Q := by
  rintro s _ _ ⟨⟩ p
  exact h _ _ p

theorem Yields.lock : Yields P (lock : Prog (Locked σ) Unit) fun _ => P := by
  intro s _ s' run p
  by_cases free : s.available = true
  · rw [lock_run s free] at run
    cases run
    rwa [Locked.acquire_body]
  · simp [Prog.run, Resumption.lock, Res.run, free] at run

theorem Yields.unlock : Yields P (unlock : Prog (Locked σ) Unit) fun _ => P := by
  rintro s _ _ ⟨⟩ p
  rwa [Locked.release_body]

theorem Yields.when {c : Prop} [Decidable c] {m : Prog (Locked σ) Unit} {Q : Unit → σ → Prop}
    (yes : c → Yields P m Q) (no : ¬ c → ∀ b, P b → Q () b) : Yields P (Prog.when c m) Q := by
  unfold Prog.when
  split
  · exact yes ‹c›
  · exact .pure () (no ‹¬ c›)

theorem Yields.forEach {ι : Type} {body : ι → Prog (Locked σ) Unit} {J : List ι → σ → Prop}
    (each : ∀ before i, Yields (J before) (body i) fun _ => J (before ++ [i]))
    (before l : List ι) :
    Yields (J before) (Resumption.forEach l body) fun _ => J (before ++ l) := by
  induction l generalizing before with
  | nil => exact .pure () (by simp)
  | cons i rest ih =>
    have more := ih (before ++ [i])
    rw [List.append_assoc, List.singleton_append] at more
    exact (each before i).bind fun _ => more

theorem Alone.yields {m : Prog (Locked σ) α} {s : Locked σ} {post : α → Locked σ → Prop}
    (alone : Alone m s post) (yields : Yields P m Q) (h : P s.body) :
    Alone m s fun a s' => post a s' ∧ Q a s'.body := by
  obtain ⟨a, s', run, done⟩ := alone
  exact ⟨a, s', run, done, yields s a s' run h⟩

end Yields

end Resumption
