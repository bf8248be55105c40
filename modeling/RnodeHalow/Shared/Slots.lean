import Mathlib.Data.Set.Card
import Mathlib.Data.Set.Finite.Range

set_option autoImplicit false

namespace Slots

open Function (update update_eq_self update_idem update_of_ne update_self)

variable {ι κ ρ : Type} (key : ρ → κ)

def Distinct (slots : ι → Option ρ) : Prop :=
  ∀ i j r s, slots i = some r → slots j = some s → key r = key s → i = j

def Represents (slots : ι → Option ρ) (m : κ → Option ρ) : Prop :=
  ∀ k r, m k = some r ↔ key r = k ∧ ∃ i, slots i = some r

variable {key} {slots : ι → Option ρ} {m : κ → Option ρ} {i : ι} {r : ρ}

theorem Represents.absent (represents : Represents key slots m) {k : κ}
    (absent : ∀ i r, slots i = some r → key r ≠ k) : m k = none := by
  by_contra some
  obtain ⟨r, held⟩ := Option.ne_none_iff_exists'.mp some
  obtain ⟨same, i, here⟩ := (represents k r).mp held
  exact absent i r here same

theorem Represents.present (represents : Represents key slots m) (here : slots i = some r) :
    m (key r) = some r :=
  (represents (key r) r).mpr ⟨rfl, i, here⟩

theorem own_of_free (free : slots i = none) (new : ∀ j s, slots j = some s → key s ≠ key r) (j : ι)
    (s : ρ) (held : slots j = some s) : key s = key r ↔ j = i := by
  constructor
  · intro same
    exact absurd same (new j s held)
  · rintro rfl
    cases free.symm.trans held

theorem Distinct.own (distinct : Distinct key slots) {old : ρ} (here : slots i = some old)
    (kept : key r = key old) (j : ι) (s : ρ) (held : slots j = some s) :
    key s = key r ↔ j = i := by
  rw [kept]
  constructor
  · exact distinct j i s old held here
  · rintro rfl
    rw [Option.some.inj (held.symm.trans here)]

variable [DecidableEq ι] [DecidableEq κ]

section Put

variable (own : ∀ j s, slots j = some s → (key s = key r ↔ j = i))

include own

omit [DecidableEq κ] in
theorem Distinct.put (distinct : Distinct key slots) : Distinct key (update slots i (some r)) := by
  intro a b s t atA atB same
  by_cases first : a = i
  · by_cases second : b = i
    · rw [first, second]
    · subst first
      rw [update_self] at atA
      rw [update_of_ne second] at atB
      obtain rfl := Option.some.inj atA
      exact ((own b t atB).mp same.symm).symm
  · rw [update_of_ne first] at atA
    by_cases second : b = i
    · subst second
      rw [update_self] at atB
      obtain rfl := Option.some.inj atB
      exact (own a s atA).mp same
    · rw [update_of_ne second] at atB
      exact distinct a b s t atA atB same

theorem Represents.put (represents : Represents key slots m) :
    Represents key (update slots i (some r)) (update m (key r) (some r)) := by
  intro k s
  by_cases same : k = key r
  · subst same
    rw [update_self]
    constructor
    · intro eq
      obtain rfl := Option.some.inj eq
      exact ⟨rfl, i, update_self ..⟩
    · rintro ⟨keys, j, here⟩
      by_cases new : j = i
      · subst new
        rwa [update_self] at here
      · rw [update_of_ne new] at here
        exact absurd ((own j s here).mp keys) new
  · rw [update_of_ne same, represents k s]
    refine and_congr_right fun keys => ?_
    constructor
    · rintro ⟨j, here⟩
      have other : j ≠ i := by
        intro eq
        exact same (keys.symm.trans ((own j s here).mpr eq))
      exact ⟨j, (update_of_ne other ..).trans here⟩
    · rintro ⟨j, here⟩
      by_cases new : j = i
      · subst new
        rw [update_self] at here
        obtain rfl := Option.some.inj here
        exact absurd keys.symm same
      · rw [update_of_ne new] at here
        exact ⟨j, here⟩

end Put

omit [DecidableEq κ] in
theorem Distinct.clear (distinct : Distinct key slots) (i : ι) :
    Distinct key (update slots i none) := by
  have old (j : ι) (s : ρ) (here : update slots i none j = some s) : slots j = some s := by
    by_cases same : j = i
    · subst same
      rw [update_self] at here
      cases here
    · rwa [update_of_ne same] at here
  intro a b s t atA atB
  exact distinct a b s t (old a s atA) (old b t atB)

theorem Represents.clear (represents : Represents key slots m) (distinct : Distinct key slots)
    (here : slots i = some r) :
    Represents key (update slots i none) (update m (key r) none) := by
  intro k s
  by_cases same : k = key r
  · subst same
    rw [update_self]
    constructor
    · intro eq
      cases eq
    · rintro ⟨keys, j, there⟩
      by_cases old : j = i
      · subst old
        rw [update_self] at there
        cases there
      · rw [update_of_ne old] at there
        exact absurd (distinct j i s r there here keys) old
  · rw [update_of_ne same, represents k s]
    refine and_congr_right fun keys => ?_
    constructor
    · rintro ⟨j, there⟩
      have other : j ≠ i := by
        rintro rfl
        obtain rfl := Option.some.inj (there.symm.trans here)
        exact same keys.symm
      exact ⟨j, (update_of_ne other ..).trans there⟩
    · rintro ⟨j, there⟩
      by_cases old : j = i
      · subst old
        rw [update_self] at there
        cases there
      · rw [update_of_ne old] at there
        exact ⟨j, there⟩

variable [Fintype ι]

def count (slots : ι → Option ρ) : Nat := (Finset.univ.filter fun i => (slots i).isSome).card

omit [DecidableEq ι] in
theorem count_le (slots : ι → Option ρ) : count slots ≤ Fintype.card ι := Finset.card_le_univ _

theorem count_put_free (free : slots i = none) (r : ρ) :
    count (update slots i (some r)) = count slots + 1 := by
  have grown : (Finset.univ.filter fun j => (update slots i (some r) j).isSome) =
      insert i (Finset.univ.filter fun j => (slots j).isSome) := by
    ext j
    by_cases same : j = i
    · subst same
      simp
    · simp [same]
  rw [count, grown, Finset.card_insert_of_notMem (by simp [free])]
  rfl

theorem count_put_held (here : (slots i).isSome) (r : ρ) :
    count (update slots i (some r)) = count slots := by
  have same : (Finset.univ.filter fun j => (update slots i (some r) j).isSome) =
      Finset.univ.filter fun j => (slots j).isSome := by
    ext j
    by_cases same : j = i
    · subst same
      simp [here]
    · simp [same]
  rw [count, same]
  rfl

theorem count_clear (here : slots i = some r) : count (update slots i none) + 1 = count slots := by
  have back : update (update slots i none) i (some r) = slots := by
    rw [update_idem, ← here, update_eq_self]
  have grown := count_put_free (update_self i none slots) r
  rw [back] at grown
  exact grown.symm

omit [DecidableEq ι] in
theorem exists_free (room : count slots < Fintype.card ι) : ∃ i, slots i = none := by
  by_contra all
  push Not at all
  have full : (Finset.univ.filter fun i => (slots i).isSome) = Finset.univ := by
    ext i
    simpa [Option.isSome_iff_ne_none] using all i
  rw [count, full, Finset.card_univ] at room
  exact Nat.lt_irrefl _ room

omit [DecidableEq ι] [DecidableEq κ] in
theorem Represents.ncard (represents : Represents key slots m) (distinct : Distinct key slots) :
    {k | m k ≠ none}.ncard = count slots := by
  rw [count, ← Set.ncard_coe_finset]
  have taken (i : ι) (mem : i ∈ (Finset.univ.filter fun i => (slots i).isSome : Finset ι)) :
      (slots i).isSome = true := by
    simpa using mem
  refine (Set.ncard_congr (fun i mem => key ((slots i).get (taken i mem))) ?_ ?_ ?_).symm
  · intro i mem
    have here : slots i = some ((slots i).get (taken i mem)) := by simp
    exact ne_of_eq_of_ne (represents.present here) (Option.some_ne_none _)
  · intro i j memI memJ same
    exact distinct i j _ _ (by simp) (by simp) same
  · intro k held
    obtain ⟨r, eq⟩ := Option.ne_none_iff_exists'.mp held
    obtain ⟨rfl, i, here⟩ := (represents k r).mp eq
    exact ⟨i, by simp [here], by simp [here]⟩

omit [DecidableEq ι] [DecidableEq κ] in
theorem Represents.finite (represents : Represents key slots m) : {k | m k ≠ none}.Finite := by
  have range := Set.finite_range fun i => (slots i).map key
  refine (range.preimage (Option.some_injective κ).injOn).subset fun k held => ?_
  obtain ⟨r, eq⟩ := Option.ne_none_iff_exists'.mp held
  obtain ⟨rfl, i, here⟩ := (represents k r).mp eq
  exact ⟨i, by simp [here]⟩

omit [DecidableEq ι] in
theorem Represents.ncard_erase (represents : Represents key slots m)
    (distinct : Distinct key slots) {k : κ} (held : m k ≠ none) :
    {j | update m k none j ≠ none}.ncard < Fintype.card ι := by
  have fewer : {j | update m k none j ≠ none} ⊂ {j | m j ≠ none} := by
    refine ⟨fun j rest => ?_, fun all => ?_⟩
    · by_cases same : j = k
      · subst same
        exact held
      · have still : update m k none j ≠ none := rest
        rwa [update_of_ne same] at still
    · have again : update m k none k ≠ none := all held
      exact again (update_self ..)
  refine Nat.lt_of_lt_of_le (Set.ncard_lt_ncard fewer represents.finite) ?_
  rw [represents.ncard distinct]
  exact count_le slots

end Slots
