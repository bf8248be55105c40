import RnodeHalow.Shared.Pool

set_option autoImplicit false

-- The code of one block: it knows its thread, and no other thread sees what is in between.

namespace Resumption

abbrev Sec (σ α : Type) := Nat → σ → α × σ

namespace Sec

variable {σ α β : Type}

instance : Monad (Sec σ) where
  pure a := fun _ s => (a, s)
  bind m f := fun t s => f (m t s).1 t (m t s).2

def self : Sec σ Nat := fun t s => (t, s)

def read (f : σ → α) : Sec σ α := fun _ s => (f s, s)

def modify (f : σ → σ) : Sec σ Unit := fun _ s => ((), f s)

@[simp] theorem pure_apply (a : α) (t : Nat) (s : σ) : (pure a : Sec σ α) t s = (a, s) := rfl

@[simp] theorem bind_apply (m : Sec σ α) (f : α → Sec σ β) (t : Nat) (s : σ) :
    (m >>= f) t s = f (m t s).1 t (m t s).2 := rfl

@[simp] theorem self_apply (t : Nat) (s : σ) : (self : Sec σ Nat) t s = (t, s) := rfl

@[simp] theorem read_apply (f : σ → α) (t : Nat) (s : σ) : read f t s = (f s, s) := rfl

@[simp] theorem modify_apply (f : σ → σ) (t : Nat) (s : σ) : modify f t s = ((), f s) := rfl

@[simp] theorem ite_apply (c : Prop) [Decidable c] (m n : Sec σ α) (t : Nat) (s : σ) :
    (if c then m else n) t s = if c then m t s else n t s := by
  split <;> rfl

def forEach {ι : Type} : List ι → (ι → Sec σ Unit) → Sec σ Unit
  | [], _ => pure ()
  | i :: rest, body => do
    body i
    forEach rest body

def when (c : Prop) [Decidable c] (m : Sec σ Unit) : Sec σ Unit := if c then m else pure ()

@[simp] theorem when_apply (c : Prop) [Decidable c] (m : Sec σ Unit) (t : Nat) (s : σ) :
    when c m t s = if c then m t s else ((), s) := by
  unfold when; split <;> rfl

def ifSome : Option α → (α → Sec σ Unit) → Sec σ Unit
  | none, _ => pure ()
  | some a, m => m a

def Along (R : Nat → σ → σ → Prop) (m : Sec σ α) : Prop := ∀ t s, R t s (m t s).2

end Sec

-- A relation between the states before and after that can be shown statement by statement.
structure Frame (σ : Type) where
  rel : σ → σ → Prop
  refl : ∀ s, rel s s
  trans : ∀ {a b c}, rel a b → rel b c → rel a c

namespace Frame

variable {σ α β : Type}

def Around (F : Frame σ) (m : Sec σ α) : Prop := Sec.Along (fun _ => F.rel) m

namespace Around

variable {F : Frame σ}

theorem pure (a : α) : F.Around (Pure.pure a : Sec σ α) := fun _ => F.refl

theorem read (f : σ → α) : F.Around (Sec.read f) := fun _ => F.refl

theorem self : F.Around (Sec.self : Sec σ Nat) := fun _ => F.refl

theorem bind {m : Sec σ α} {f : α → Sec σ β} (first : F.Around m) (rest : ∀ a, F.Around (f a)) :
    F.Around (m >>= f) := fun t s => F.trans (first t s) (rest _ t _)

theorem ite {c : Prop} [Decidable c] {m n : Sec σ α} (yes : F.Around m) (no : F.Around n) :
    F.Around (if c then m else n) := by
  split
  · exact yes
  · exact no

theorem when {c : Prop} [Decidable c] {m : Sec σ Unit} (yes : F.Around m) :
    F.Around (Sec.when c m) := ite yes (pure ())

theorem ifSome {x : Option α} {m : α → Sec σ Unit} (each : ∀ a, F.Around (m a)) :
    F.Around (Sec.ifSome x m) := by
  cases x with
  | none => exact pure ()
  | some a => exact each a

theorem forEach {ι : Type} {body : ι → Sec σ Unit} (each : ∀ i, F.Around (body i)) (l : List ι) :
    F.Around (Sec.forEach l body) := by
  induction l with
  | nil => exact pure ()
  | cons i rest ih => exact bind (each i) fun _ => ih

end Around

def Leads (F : Frame σ) (P : σ → Prop) (m : Sec σ α) (Q : α → σ → Prop) : Prop :=
  ∀ t s, P s → F.rel s (m t s).2 ∧ Q (m t s).1 (m t s).2

namespace Leads

variable {F : Frame σ} {P : σ → Prop} {Q : α → σ → Prop}

theorem bind {m : Sec σ α} {f : α → Sec σ β} {R : β → σ → Prop} (first : F.Leads P m Q)
    (rest : ∀ a, F.Leads (Q a) (f a) R) : F.Leads P (m >>= f) R := by
  intro t s h
  have run := first t s h
  have more := rest _ t _ run.2
  exact ⟨F.trans run.1 more.1, more.2⟩

theorem around {m : Sec σ α} (leads : F.Leads (fun _ => True) m Q) : F.Around m :=
  fun t s => (leads t s trivial).1

theorem when {c : Prop} [Decidable c] {m : Sec σ Unit} (yes : c → F.Leads P m fun _ => P) :
    F.Leads P (Sec.when c m) fun _ => P := by
  unfold Sec.when
  split
  next met => exact yes met
  next => exact fun _ s h => ⟨F.refl s, h⟩

theorem forEach {ι : Type} {body : ι → Sec σ Unit} (each : ∀ i, F.Leads P (body i) fun _ => P)
    (l : List ι) : F.Leads P (Sec.forEach l body) fun _ => P := by
  induction l with
  | nil => exact fun _ s h => ⟨F.refl s, h⟩
  | cons i rest ih => exact bind (each i) fun _ => ih

end Leads

end Frame

namespace Sec

variable {σ α β : Type}

section Spec

variable {M : Machine σ} {D : Discipline M} {t : Nat}

def Spec (D : Discipline M) (t : Nat) (P : σ → Prop) (m : Sec σ α) (Q : α → σ → Prop) : Prop :=
  ∀ s, D.inv s → P s → D.act t s (m t s).2 ∧ Q (m t s).1 (m t s).2

end Spec

end Sec

-- The owner may lock again. An unlock by anyone else changes nothing but is counted as `misuse`.
structure Locked (σ : Type) where
  owner : Option Nat
  nested : Nat
  misuse : Nat
  active : Nat
  body : σ

namespace Locked

variable {σ α β : Type}

def available (s : Locked σ) : Bool := s.owner = none || s.owner = some s.active

def acquire (s : Locked σ) : Locked σ :=
  if s.owner = some s.active then { s with nested := s.nested + 1 }
  else { s with owner := some s.active, nested := 1 }

def release (s : Locked σ) : Locked σ :=
  if s.owner ≠ some s.active then { s with misuse := s.misuse + 1 }
  else if s.nested ≤ 1 then { s with owner := none, nested := 0 }
  else { s with nested := s.nested - 1 }

@[simp] theorem acquire_body (s : Locked σ) : s.acquire.body = s.body := by
  unfold acquire; split <;> rfl

@[simp] theorem acquire_active (s : Locked σ) : s.acquire.active = s.active := by
  unfold acquire; split <;> rfl

@[simp] theorem release_body (s : Locked σ) : s.release.body = s.body := by
  unfold release; split
  · rfl
  · split <;> rfl

@[simp] theorem release_active (s : Locked σ) : s.release.active = s.active := by
  unfold release; split
  · rfl
  · split <;> rfl

end Locked

section Prog

variable {σ α : Type}

def sec (m : Sec σ α) : Prog (Locked σ) α :=
  fun s => .done (m s.active s.body).1 { s with body := (m s.active s.body).2 }

def lock : Prog (Locked σ) Unit :=
  fun s => .wait Locked.available (fun s' => .done () s'.acquire) s

def unlock : Prog (Locked σ) Unit :=
  fun s => .wait (fun _ => true) (fun s' => .done () s') s.release

@[simp] theorem sec_apply (m : Sec σ α) (s : Locked σ) :
    sec m s = .done (m s.active s.body).1 { s with body := (m s.active s.body).2 } := rfl

theorem lock_run (s : Locked σ) (free : s.available = true) :
    (lock : Prog (Locked σ) Unit).run s = some ((), s.acquire) := by
  simp [Prog.run, lock, Res.run, free]

@[simp] theorem unlock_run (s : Locked σ) :
    (unlock : Prog (Locked σ) Unit).run s = some ((), s.release) := rfl

end Prog

section Discipline

variable {σ α β : Type} {drift : σ → σ → Prop}

def bodyMachine (drift : σ → σ → Prop) : Machine σ := ⟨fun _ s => s, drift⟩

def lockedMachine (drift : σ → σ → Prop) : Machine (Locked σ) where
  enter t s := { s with active := t }
  drift s s' := ∃ b, drift s.body b ∧ s' = { s with body := b }

def Discipline.locked (D : Discipline (bodyMachine drift)) : Discipline (lockedMachine drift) where
  inv s := D.inv s.body
  act t s s' := D.act t s.body s'.body
  idle t s := D.idle t s.body
  act_refl t s := D.act_refl t s.body
  act_enter t s := D.act_refl t s.body
  act_trans := D.act_trans
  act_inv := D.act_inv
  drift_inv := by
    rintro s _ inv ⟨b, moved, rfl⟩
    exact D.drift_inv inv moved
  idle_act := D.idle_act
  idle_drift := by
    rintro t s _ inv ⟨b, moved, rfl⟩ h
    exact D.idle_drift inv moved h

variable {D : Discipline (bodyMachine drift)} {t : Nat} {P P' : σ → Prop}
  {Q Q' : α → σ → Prop}

theorem Discipline.Stable.locked (stable : D.Stable t P) : D.locked.Stable t fun s => P s.body := by
  rintro s s' ⟨inv, ⟨t', ne, act⟩ | ⟨b, moved, rfl⟩⟩ h
  · exact stable _ _ ⟨inv, .inl ⟨t', ne, act⟩⟩ h
  · exact stable _ _ ⟨inv, .inr moved⟩ h

def Triple (D : Discipline (bodyMachine drift)) (t : Nat) (P : σ → Prop)
    (m : Prog (Locked σ) α) (Q : α → σ → Prop) : Prop :=
  ∀ s : Locked σ, s.active = t → D.inv s.body → P s.body →
    (m s).Safe D.locked t (fun a s' => s'.active = t ∧ D.inv s'.body ∧ Q a s'.body) s

theorem Triple.pure (a : α) : Triple D t (Q a) (Pure.pure a) Q :=
  fun _ active inv h => ⟨D.act_refl t _, active, inv, h⟩

theorem Triple.bind {m : Prog (Locked σ) α} {f : α → Prog (Locked σ) β} {R : β → σ → Prop}
    (first : Triple D t P m Q) (rest : ∀ a, Triple D t (Q a) (f a) R) :
    Triple D t P (m >>= f) R := by
  intro s active inv h
  apply Res.Safe.bind _ (first s active inv h)
  rintro a s' ⟨active', inv', h'⟩
  exact rest a s' active' inv' h'

theorem Triple.conseq {m : Prog (Locked σ) α} (triple : Triple D t P m Q)
    (pre : ∀ s, D.inv s → P' s → P s) (post : ∀ a s, D.inv s → Q a s → Q' a s) :
    Triple D t P' m Q' := by
  intro s active inv h
  refine (triple s active inv (pre _ inv h)).mono ?_
  rintro a s' ⟨active', inv', h'⟩
  exact ⟨active', inv', post a _ inv' h'⟩

theorem Triple.sec {m : Sec σ α} (spec : m.Spec D t P Q) : Triple D t P (sec m) Q := by
  rintro s rfl inv h
  have run := spec s.body inv h
  exact ⟨run.1, rfl, D.act_inv inv run.1, run.2⟩

theorem Triple.lock (stable : D.Stable t P) : Triple D t P lock fun _ => P := by
  intro s _ _ h
  refine ⟨D.act_refl t _, fun s' moves inv' _ => ?_⟩
  have h' := stable.locked.interfere moves h
  have body : ((lockedMachine drift).enter t s').acquire.body = s'.body := Locked.acquire_body _
  refine ⟨?_, Locked.acquire_active _, ?_, ?_⟩
  · change D.act t s'.body _
    rw [body]
    exact D.act_refl t s'.body
  · rw [body]
    exact inv'
  · rw [body]
    exact h'

theorem Triple.unlock (stable : D.Stable t P) : Triple D t P unlock fun _ => P := by
  intro s _ _ h
  refine ⟨?_, fun s' moves inv' _ => ?_⟩
  · change D.act t s.body s.release.body
    simpa using D.act_refl t s.body
  · have h' := stable.locked.interfere moves (by simpa using h)
    exact ⟨D.act_refl t _, rfl, inv', h'⟩

theorem Triple.forEach {ι : Type} {body : ι → Prog (Locked σ) Unit}
    (each : ∀ i, Triple D t P (body i) fun _ => P) (l : List ι) :
    Triple D t P (forEach l body) fun _ => P := by
  induction l with
  | nil => exact fun s active inv h => ⟨D.act_refl t _, active, inv, h⟩
  | cons i rest ih => exact (each i).bind fun _ => ih

theorem Triple.disciplined {allowed : Nat → Prog (Locked σ) α → Prop}
    (calls : ∀ t p, allowed t p → Triple D t (D.idle t) p fun _ => D.idle t) :
    Pool.Disciplined D.locked allowed := by
  intro t p ok s inv idle
  exact (calls t p ok { s with active := t } rfl inv idle).mono fun _ _ h => h.2.2

end Discipline

end Resumption
