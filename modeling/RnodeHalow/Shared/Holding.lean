import Mathlib.Algebra.Ring.Nat
import Mathlib.Data.List.Chain

set_option autoImplicit false

-- A refused output is held, and nothing is read until it is taken.

structure Mealy (S α β : Type) where
  start : S
  next : S → α → S
  out : S → α → Option β

namespace Mealy

variable {S α β : Type} (m : Mealy S α β)

def after (s : S) (inputs : List α) : S := inputs.foldl m.next s

def outputs (s : S) : List α → List β
  | [] => []
  | a :: rest => (m.out s a).toList ++ outputs (m.next s a) rest

@[simp]
theorem after_nil (s : S) : m.after s [] = s := rfl

@[simp]
theorem outputs_nil (s : S) : m.outputs s [] = [] := rfl

theorem after_append (s : S) (left right : List α) :
    m.after s (left ++ right) = m.after (m.after s left) right :=
  List.foldl_append

theorem outputs_append (s : S) (left right : List α) :
    m.outputs s (left ++ right) = m.outputs s left ++ m.outputs (m.after s left) right := by
  induction left generalizing s with
  | nil => rfl
  | cons a rest ih =>
    rw [List.cons_append, outputs, ih, outputs, List.append_assoc]
    rfl

end Mealy

abbrev Offers (β ρ : Type) := List (β × ρ)

namespace Offers

variable {β ρ : Type} (refused : ρ → Bool)

def taken : Offers β ρ → List β
  | [] => []
  | offer :: old => taken old ++ if refused offer.2 then [] else [offer.1]

def refusals (log : Offers β ρ) : Nat := log.countP fun offer => refused offer.2

def Patient (log : Offers β ρ) : Prop :=
  log.IsChain fun new old => refused old.2 → new.1 = old.1

variable {refused}

theorem taken_unrefused {log : Offers β ρ} (none : refusals refused log = 0) :
    taken refused log = (log.map Prod.fst).reverse := by
  induction log with
  | nil => rfl
  | cons offer old ih =>
    have free : ∀ o ∈ offer :: old, ¬refused o.2 = true := List.countP_eq_zero.mp none
    obtain ⟨first, rest⟩ := List.forall_mem_cons.mp free
    rw [taken, if_neg first, ih (List.countP_eq_zero.mpr rest), List.map_cons, List.reverse_cons]

theorem sum_offered (f : β → Nat) (log : Offers β ρ) :
    (log.map fun offer => f offer.1).sum =
      ((taken refused log).map f).sum +
        ((log.filter fun offer => refused offer.2).map fun offer => f offer.1).sum := by
  induction log with
  | nil => rfl
  | cons offer old ih =>
    rw [List.map_cons, List.sum_cons, ih, taken]
    by_cases no : refused offer.2 = true
    · simp only [no, if_true, List.append_nil, List.filter_cons, List.map_cons, List.sum_cons]
      omega
    · simp only [no, Bool.false_eq_true, if_false, List.filter_cons, List.map_append,
        List.sum_append, List.map_cons, List.map_nil, List.sum_cons, List.sum_nil]
      omega

end Offers

structure Holding (S β ρ : Type) where
  state : S
  held : Option β
  log : Offers β ρ

namespace Holding

variable {S α β ρ : Type} (refused : ρ → Bool) (m : Mealy S α β)

def start : Holding S β ρ := ⟨m.start, none, []⟩

def offer (h : Holding S β ρ) (b : β) (answer : ρ) : Holding S β ρ :=
  { h with held := if refused answer then some b else none, log := (b, answer) :: h.log }

def move (h : Holding S β ρ) (a : α) : Holding S β ρ := { h with state := m.next h.state a }

inductive Step : Holding S β ρ → List α → Holding S β ρ → Prop
  | quiet {h : Holding S β ρ} {a : α} (free : h.held = none) (none : m.out h.state a = none) :
      Step h [a] (h.move m a)
  | emit {h : Holding S β ρ} {a : α} {b : β} (answer : ρ) (free : h.held = none)
      (some : m.out h.state a = some b) : Step h [a] ((h.move m a).offer refused b answer)
  | retry {h : Holding S β ρ} {b : β} (answer : ρ) (waits : h.held = some b) :
      Step h [] (h.offer refused b answer)

inductive Run : Holding S β ρ → List α → Holding S β ρ → Prop
  | refl (h : Holding S β ρ) : Run h [] h
  | tail {h h' h'' : Holding S β ρ} {inputs more : List α} (run : Run h inputs h')
      (step : Step refused m h' more h'') : Run h (inputs ++ more) h''

variable {refused m}

variable {h h' : Holding S β ρ} {inputs : List α}

theorem Step.run (step : Step refused m h inputs h') : Run refused m h inputs h' := by
  simpa using Run.tail (.refl h) step

theorem Run.trans {h h' h'' : Holding S β ρ} {inputs more : List α}
    (first : Run refused m h inputs h') (second : Run refused m h' more h'') :
    Run refused m h (inputs ++ more) h'' := by
  induction second with
  | refl => simpa using first
  | tail run step ih =>
    rw [← List.append_assoc]
    exact ih.tail step

theorem Run.log_suffix (run : Run refused m h inputs h') : h.log <:+ h'.log := by
  induction run with
  | refl => exact List.suffix_rfl
  | tail run step ih =>
    cases step with
    | quiet => exact ih
    | emit | retry => exact ih.trans (List.suffix_cons _ _)

variable (refused m)

structure Faithful (inputs : List α) (h : Holding S β ρ) : Prop where
  state : h.state = m.after m.start inputs
  outputs : Offers.taken refused h.log ++ h.held.toList = m.outputs m.start inputs
  patient : Offers.Patient refused h.log
  pending : ∀ offer ∈ h.log.head?, refused offer.2 → h.held = some offer.1

variable {refused m}

theorem Faithful.start : Faithful refused m [] (start m : Holding S β ρ) where
  state := rfl
  outputs := rfl
  patient := .nil
  pending _ mem := by simp [Holding.start] at mem

theorem Faithful.offer {b : β} (answer : ρ) (state : h.state = m.after m.start inputs)
    (outputs : Offers.taken refused h.log ++ [b] = m.outputs m.start inputs)
    (patient : Offers.Patient refused h.log)
    (pending : ∀ offer ∈ h.log.head?, refused offer.2 → b = offer.1) :
    Faithful refused m inputs (h.offer refused b answer) where
  state := state
  outputs := by
    rw [← outputs]
    by_cases no : refused answer <;> simp [Holding.offer, Offers.taken, no]
  patient := List.isChain_cons.mpr ⟨pending, patient⟩
  pending offer mem no := by
    obtain rfl : (b, answer) = offer := by simpa [Holding.offer] using mem
    simp [Holding.offer, no]

theorem Step.faithful {inputs more : List α} (step : Step refused m h more h')
    (faithful : Faithful refused m inputs h) : Faithful refused m (inputs ++ more) h' := by
  obtain ⟨state, outputs, patient, pending⟩ := faithful
  cases step with
  | @quiet a free none =>
    refine ⟨?_, ?_, patient, pending⟩
    · rw [Mealy.after_append, ← state]
      rfl
    · rw [Mealy.outputs_append, ← state, ← outputs]
      simp [Mealy.outputs, move, none]
  | @emit a b answer free some =>
    refine Faithful.offer answer ?_ ?_ patient ?_
    · rw [Mealy.after_append, ← state]
      rfl
    · rw [Mealy.outputs_append, ← state, ← outputs]
      simp [Mealy.outputs, move, some, free]
    · intro offer mem no
      have waits := pending offer mem no
      simp [free] at waits
  | @retry b answer waits =>
    rw [List.append_nil]
    refine Faithful.offer answer state ?_ patient ?_
    · rw [← outputs, waits]
      rfl
    · intro offer mem no
      have same := pending offer mem no
      rw [waits] at same
      exact Option.some.inj same

theorem Run.faithful {inputs more : List α} (run : Run refused m h more h')
    (faithful : Faithful refused m inputs h) : Faithful refused m (inputs ++ more) h' := by
  induction run with
  | refl => simpa using faithful
  | tail run step ih =>
    rw [← List.append_assoc]
    exact step.faithful ih

end Holding
