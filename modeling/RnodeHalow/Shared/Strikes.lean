import Mathlib.Data.Fintype.Card

set_option autoImplicit false

namespace Strikes

variable {n : Nat} {α κ : Type} [DecidableEq κ] (key : α → Option κ)

def first (slots : Fin n → Option α) (k : κ) : Option (Fin n) :=
  (List.finRange n).find? fun j => (slots j).bind key == some k

def strike (slots : Fin n → Option α) (k : κ) : Fin n → Option α :=
  match first key slots k with
  | none => slots
  | some j => Function.update slots j none

def strikes : (Fin n → Option α) → List κ → Fin n → Option α
  | slots, [] => slots
  | slots, k :: rest => strikes (strike key slots k) rest

def holders (slots : Fin n → Option α) (k : κ) : Finset (Fin n) :=
  Finset.univ.filter fun j => (slots j).bind key = some k

variable {key} {slots : Fin n → Option α} {k : κ}

theorem mem_holders {j : Fin n} : j ∈ holders key slots k ↔ (slots j).bind key = some k := by
  simp [holders]

theorem first_some {j : Fin n} (found : first key slots k = some j) : j ∈ holders key slots k := by
  have hit := List.find?_some found
  exact mem_holders.mpr (beq_iff_eq.mp hit)

theorem first_none (missing : first key slots k = none) : holders key slots k = ∅ := by
  refine Finset.eq_empty_of_forall_notMem fun j member => ?_
  have miss := List.find?_eq_none.mp missing j (List.mem_finRange j)
  exact miss (beq_iff_eq.mpr (mem_holders.mp member))

theorem strike_of_none (missing : first key slots k = none) : strike key slots k = slots := by
  rw [strike, missing]

theorem strike_of_some {j : Fin n} (found : first key slots k = some j) :
    strike key slots k = Function.update slots j none := by
  rw [strike, found]

theorem strike_cases (key : α → Option κ) (slots : Fin n → Option α) (k : κ) (j : Fin n) :
    strike key slots k j = slots j ∨
      strike key slots k j = none ∧ (slots j).bind key = some k := by
  cases found : first key slots k with
  | none => exact .inl (by rw [strike_of_none found])
  | some hit =>
    rw [strike_of_some found]
    by_cases here : j = hit
    · subst here
      exact .inr ⟨Function.update_self .., mem_holders.mp (first_some found)⟩
    · exact .inl (Function.update_of_ne here ..)

theorem strikes_cases (key : α → Option κ) (slots : Fin n → Option α) (ks : List κ) (j : Fin n) :
    strikes key slots ks j = slots j ∨
      strikes key slots ks j = none ∧ ∃ k ∈ ks, (slots j).bind key = some k := by
  induction ks generalizing slots with
  | nil => exact .inl rfl
  | cons k rest ih =>
    rcases strike_cases key slots k j with same | ⟨gone, keyed⟩
    · rcases ih (strike key slots k) with still | ⟨gone, other, member, keyed⟩
      · exact .inl (still.trans same)
      · rw [same] at keyed
        exact .inr ⟨gone, other, List.mem_cons_of_mem k member, keyed⟩
    · refine .inr ⟨?_, k, List.mem_cons_self, keyed⟩
      rcases ih (strike key slots k) with still | ⟨gone', -⟩
      · exact still.trans gone
      · exact gone'

theorem holders_strike (slots : Fin n → Option α) (k l : κ) :
    (holders key (strike key slots k) l).card =
      (holders key slots l).card - if k = l then 1 else 0 := by
  cases found : first key slots k with
  | none =>
    rw [strike_of_none found]
    split
    · rename_i same
      rw [← same, first_none found]
      rfl
    · rfl
  | some j =>
    have member := first_some found
    have rest : holders key (strike key slots k) l = (holders key slots l).erase j := by
      ext i
      rw [strike_of_some found, Finset.mem_erase, mem_holders, mem_holders]
      by_cases here : i = j
      · simp [here]
      · simp [here]
    rw [rest]
    split
    · rename_i same
      exact Finset.card_erase_of_mem (same ▸ member)
    · rename_i other
      rw [Finset.erase_eq_of_notMem, Nat.sub_zero]
      rw [mem_holders, mem_holders.mp member]
      exact fun same => other (Option.some.inj same)

theorem holders_strikes (slots : Fin n → Option α) (ks : List κ) (k : κ) :
    (holders key (strikes key slots ks) k).card = (holders key slots k).card - ks.count k := by
  induction ks generalizing slots with
  | nil => rfl
  | cons l rest ih =>
    rw [strikes, ih, holders_strike, List.count_cons]
    simp only [beq_iff_eq]
    omega

theorem struck_card (key : α → Option κ) (slots : Fin n → Option α) (ks : List κ) (k : κ) :
    ((holders key slots k).filter fun j => strikes key slots ks j = none).card =
      min (ks.count k) (holders key slots k).card := by
  have kept : (holders key slots k).filter (fun j => ¬ strikes key slots ks j = none) =
      holders key (strikes key slots ks) k := by
    ext j
    rw [Finset.mem_filter, mem_holders, mem_holders]
    rcases strikes_cases key slots ks j with same | ⟨gone, -⟩
    · rw [same]
      constructor
      · exact fun h => h.1
      · intro keyed
        refine ⟨keyed, fun none => ?_⟩
        rw [none] at keyed
        cases keyed
    · simp [gone]
  have split := Finset.card_filter_add_card_filter_not (s := holders key slots k)
    (fun j => strikes key slots ks j = none)
  rw [kept, holders_strikes] at split
  omega

end Strikes
