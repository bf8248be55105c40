import RnodeHalow.Shared.Mutex

set_option autoImplicit false

namespace Resumption

variable {σ α β : Type}

-- Resumed in these states, one after the other, the program ends with this value and state.
inductive Res.Course : Res σ α → List σ → α → σ → Prop
  | done (a : α) (s : σ) : Course (.done a s) [] a s
  | wait {ready : σ → Bool} {resume : σ → Res σ α} {s s' last : σ} {states : List σ} {a : α}
      (ok : ready s' = true) (rest : Course (resume s') states a last) :
      Course (.wait ready resume s) (s' :: states) a last

theorem Res.Course.bind {x : Res σ α} {f : α → Prog σ β} {states : List σ} {b : β} {last : σ}
    (course : (x.bind f).Course states b last) :
    ∃ a mid before after, states = before ++ after ∧ x.Course before a mid ∧
      (f a mid).Course after b last := by
  induction x generalizing states with
  | done a s => exact ⟨a, s, [], states, rfl, .done a s, course⟩
  | wait ready resume s ih =>
    cases course with
    | wait ok rest =>
      obtain ⟨a, mid, before, after, split, first, second⟩ := ih _ rest
      exact ⟨a, mid, _ :: before, after, by rw [split, List.cons_append], .wait ok first, second⟩

-- Where it is resumed when nothing comes between.
def Res.stops : Res σ α → List σ
  | .done _ _ => []
  | .wait _ resume s => s :: (resume s).stops

theorem Res.run_course {x : Res σ α} {a : α} {last : σ} (run : x.run = some (a, last)) :
    x.Course x.stops a last := by
  induction x with
  | done a' s =>
    cases run
    exact .done _ _
  | wait ready resume s ih =>
    simp only [Res.run] at run
    split at run
    next ok => exact .wait ok (ih s run)
    next => cases run

theorem pure_course {a a' : α} {s last : σ} {states : List σ}
    (course : ((pure a : Prog σ α) s).Course states a' last) :
    states = [] ∧ a' = a ∧ last = s := by
  cases course
  exact ⟨rfl, rfl, rfl⟩

section Mutex

variable {s last : Locked σ} {states : List (Locked σ)}

theorem sec_course {m : Sec σ α} {a : α} (course : (sec m s).Course states a last) :
    states = [] ∧ a = (m s.active s.body).1 ∧
      last = { s with body := (m s.active s.body).2 } := by
  cases course
  exact ⟨rfl, rfl, rfl⟩

theorem lock_course (course : ((lock : Prog (Locked σ) Unit) s).Course states () last) :
    ∃ s', states = [s'] ∧ last = s'.acquire := by
  cases course with
  | wait ok rest =>
    cases rest
    exact ⟨_, rfl, rfl⟩

theorem unlock_course (course : ((unlock : Prog (Locked σ) Unit) s).Course states () last) :
    states = [last] := by
  cases course with
  | wait ok rest =>
    cases rest
    rfl

theorem locked_read_course {f : σ → α} {a : α}
    (course : ((do lock; let a ← sec (Sec.read f); unlock; pure a : Prog (Locked σ) α) s).Course
      states a last) : ∃ s', states = [s', last] ∧ a = f s'.body := by
  obtain ⟨_, _, _, _, rfl, locked, inside⟩ := Res.Course.bind course
  obtain ⟨s', rfl, rfl⟩ := lock_course locked
  obtain ⟨_, _, _, _, rfl, looked, leaving⟩ := Res.Course.bind inside
  obtain ⟨rfl, rfl, rfl⟩ := sec_course looked
  obtain ⟨_, _, _, _, rfl, unlocked, result⟩ := Res.Course.bind leaving
  obtain rfl := unlock_course unlocked
  obtain ⟨rfl, rfl, rfl⟩ := pure_course result
  exact ⟨s', rfl, by rw [Sec.read_apply, Locked.acquire_body]⟩

end Mutex

def Res.Each (R : σ → σ → Prop) : σ → Res σ α → Prop
  | s₀, .done _ s => R s₀ s
  | s₀, .wait ready resume s => R s₀ s ∧ ∀ s', ready s' = true → (resume s').Each R s'

section Each

variable {R : σ → σ → Prop} (trans : ∀ a b c, R a b → R b c → R a c)
include trans

theorem Res.Each.prepend {s0 s : σ} {x : Res σ α} (first : R s0 s) (each : x.Each R s) :
    x.Each R s0 := by
  cases x with
  | done a s' => exact trans _ _ _ first each
  | wait ready resume s' => exact ⟨trans _ _ _ first each.1, each.2⟩

theorem Res.Each.bind {f : α → Prog σ β} (rest : ∀ a s, (f a s).Each R s) {x : Res σ α} {s0 : σ}
    (each : x.Each R s0) : (x.bind f).Each R s0 := by
  induction x generalizing s0 with
  | done a s => exact Res.Each.prepend trans each (rest a s)
  | wait ready resume s ih => exact ⟨each.1, fun s' ok => ih s' (each.2 s' ok)⟩

end Each

namespace Frame

def Throughout (F : Frame σ) (m : Prog (Locked σ) α) : Prop :=
  ∀ s, (m s).Each (fun s s' => F.rel s.body s'.body) s

end Frame

def Stays (m : Prog (Locked σ) α) : Prop :=
  ∀ s, (m s).Each (fun s s' => s'.active = s.active) s

namespace Stays

theorem pure (a : α) : Stays (Pure.pure a : Prog (Locked σ) α) := fun _ => rfl

theorem bind {m : Prog (Locked σ) α} {f : α → Prog (Locked σ) β} (first : Stays m)
    (rest : ∀ a, Stays (f a)) : Stays (m >>= f) :=
  fun s => Res.Each.bind (fun _ _ _ one two => two.trans one) rest (first s)

theorem sec (m : Sec σ α) : Stays (Resumption.sec m) := fun _ => rfl

theorem lock : Stays (Resumption.lock : Prog (Locked σ) Unit) :=
  fun _ => ⟨rfl, fun s' _ => Locked.acquire_active s'⟩

theorem unlock : Stays (Resumption.unlock : Prog (Locked σ) Unit) :=
  fun s => ⟨Locked.release_active s, fun _ _ => rfl⟩

end Stays

namespace Pool

variable {drift : σ → σ → Prop} {allowed : Nat → Prog (Locked σ) α → Prop}
  {init : Locked σ → Prop} {c : Pool (Locked σ) α}

theorem Reachable.finishes {t : Nat} {x : Res (Locked σ) α} {s last : Locked σ} {a : α}
    (own : s.active = t) (stays : x.Each (fun s s' => s'.active = s.active) s)
    (run : x.run = some (a, last))
    (h : Reachable (lockedMachine drift) allowed init (c.resumed t x)) :
    Reachable (lockedMachine drift) allowed init ⟨last, Function.update c.threads t none⟩ := by
  induction x generalizing s with
  | done b s' =>
    cases run
    exact h
  | wait ready resume s' ih =>
    have here : (lockedMachine drift).enter t s' = s' := by
      rw [← own, ← stays.1]
      rfl
    simp only [Res.run] at run
    split at run
    next ok =>
      have next := h.step (.resume _ t ⟨ready, resume⟩ (Function.update_self ..)
        (by rw [resumed, here]; exact ok))
      refine ih s' (stays.1.trans own) (stays.2 s' ok) run ?_
      rw [resumed, here] at next
      cases eq : resume s' with
      | done | wait => simpa [resumed, eq] using next
    next => cases run

theorem Reachable.alone {t : Nat} {p : Prog (Locked σ) α} {a : α} {last : Locked σ}
    (h : Reachable (lockedMachine drift) allowed init c) (call : allowed t p)
    (idle : c.threads t = none) (stays : Stays p)
    (run : p.run { c.shared with active := t } = some (a, last)) :
    Reachable (lockedMachine drift) allowed init ⟨last, c.threads⟩ := by
  have called := h.step (.call c t p call idle)
  have begun := called.step (.resume _ t ⟨fun _ => true, p⟩ (Function.update_self ..) rfl)
  have ended := begun.finishes (s := { c.shared with active := t }) rfl (stays _) run
  have same : Function.update (Function.update c.threads t (some ⟨fun _ => true, p⟩)) t none =
      c.threads := by
    rw [Function.update_idem, ← idle, Function.update_eq_self]
  rw [same] at ended
  exact ended

section Mono

variable {M : Machine σ} {allowed allowed' : Nat → Prog σ α → Prop} {init init' : σ → Prop}
  {c c' : Pool σ α} (calls : ∀ t p, allowed t p → allowed' t p)
include calls

theorem Step.mono (step : Step M allowed c c') : Step M allowed' c c' := by
  cases step with
  | call t p ok free => exact .call _ t p (calls t p ok) free
  | resume t w waiting ok => exact .resume _ t w waiting ok
  | drift s' drifted => exact .drift _ s' drifted

theorem Reachable.mono (starts : ∀ s, init s → init' s) (h : Reachable M allowed init c) :
    Reachable M allowed' init' c := by
  induction h with
  | start s first => exact .start s (starts s first)
  | step _ move ih => exact ih.step (move.mono calls)

end Mono

end Pool

end Resumption
