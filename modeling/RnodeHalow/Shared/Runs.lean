import Mathlib.Data.List.Chain
import Mathlib.Data.List.Infix

set_option autoImplicit false

namespace Runs

variable {σ ε : Type} {step : σ → ε → σ} {start : σ} {events : List ε}

def Along (step : σ → ε → σ) (C : σ → ε → Prop) (start : σ) (events : List ε) : Prop :=
  ∀ before e later, events = before ++ e :: later → C (before.foldl step start) e

variable {C : σ → ε → Prop} {P : σ → Prop}

theorem Along.holds_at (along : Along step C start events) (init : P start)
    (keeps : ∀ s e, P s → C s e → P (step s e)) {before later : List ε}
    (split : events = before ++ later) : P (before.foldl step start) := by
  induction before using List.reverseRecOn generalizing later with
  | nil => exact init
  | append_singleton before e ih =>
    have found : events = before ++ e :: later := by
      rw [split, List.append_assoc, List.singleton_append]
    rw [List.foldl_append, List.foldl_cons, List.foldl_nil]
    exact keeps _ e (ih found) (along before e later found)

theorem Along.holds (along : Along step C start events) (init : P start)
    (keeps : ∀ s e, P s → C s e → P (step s e)) : P (events.foldl step start) :=
  along.holds_at init keeps (List.append_nil events).symm

theorem Along.left {before later : List ε} (along : Along step C start (before ++ later)) :
    Along step C start before := by
  intro early e late split
  apply along early e (late ++ later)
  rw [split, List.append_assoc, List.cons_append]

theorem Along.head {e : ε} (along : Along step C start (e :: events)) : C start e :=
  along [] e events rfl

theorem Along.tail {e : ε} (along : Along step C start (e :: events)) :
    Along step C (step start e) events := by
  intro before d later split
  exact along (e :: before) d later (by rw [split, List.cons_append])

theorem along_of_forall {C : ε → Prop} (each : ∀ e ∈ events, C e) :
    Along step (fun _ => C) start events := by
  intro before e later split
  apply each
  rw [split]
  exact List.mem_append_right _ List.mem_cons_self

def check (step : σ → ε → σ) (c : σ → ε → Bool) : σ → List ε → Bool
  | _, [] => true
  | s, e :: rest => c s e && check step c (step s e) rest

theorem along_of_check {c : σ → ε → Bool} (ok : check step c start events = true) :
    Along step (fun s e => c s e = true) start events := by
  induction events generalizing start with
  | nil =>
    intro before e later split
    simp at split
  | cons d events ih =>
    obtain ⟨first, rest⟩ := (Bool.and_eq_true _ _).mp ok
    intro before e later split
    cases before with
    | nil =>
      cases split
      exact first
    | cons d' before =>
      cases split
      exact ih rest before e later rfl

end Runs
