import Mathlib.Data.Fintype.Card

set_option autoImplicit false

namespace Chains

open Function (update update_of_ne update_self)

variable {ι β : Type}

def Linked (next : ι → Option ι) : Option ι → List ι → Prop
  | p, [] => p = none
  | p, i :: rest => p = some i ∧ Linked next (next i) rest

namespace Linked

variable {next next' : ι → Option ι} {p : Option ι} {l : List ι}

theorem unique {l' : List ι} (linked : Linked next p l) (linked' : Linked next p l') : l = l' := by
  induction l generalizing p l' with
  | nil =>
    cases l' with
    | nil => rfl
    | cons i rest =>
      obtain rfl : p = none := linked
      cases linked'.1
  | cons i rest ih =>
    obtain ⟨rfl, linked⟩ := linked
    cases l' with
    | nil => cases linked'
    | cons j rest' =>
      obtain ⟨same, linked'⟩ := linked'
      obtain rfl := Option.some.inj same
      rw [ih linked linked']

theorem drop {pre : List ι} {i : ι} {post : List ι} (linked : Linked next p (pre ++ i :: post)) :
    Linked next (next i) post := by
  induction pre generalizing p with
  | nil => exact linked.2
  | cons j pre ih => exact ih linked.2

theorem nodup (linked : Linked next p l) : l.Nodup := by
  induction l generalizing p with
  | nil => exact List.nodup_nil
  | cons i rest ih =>
    refine List.nodup_cons.mpr ⟨fun again => ?_, ih linked.2⟩
    obtain ⟨pre, post, rfl⟩ := List.append_of_mem again
    have lengths := congrArg List.length (unique linked.2 linked.2.drop)
    simp only [List.length_append, List.length_cons] at lengths
    omega

theorem length_le [Fintype ι] (linked : Linked next p l) : l.length ≤ Fintype.card ι :=
  linked.nodup.length_le_card

theorem congr (linked : Linked next p l) (same : ∀ i ∈ l, next' i = next i) : Linked next' p l := by
  induction l generalizing p with
  | nil => exact linked
  | cons i rest ih =>
    refine ⟨linked.1, ?_⟩
    rw [same i List.mem_cons_self]
    exact ih linked.2 fun j mem => same j (List.mem_cons_of_mem i mem)

variable [DecidableEq ι]

theorem cons {j : ι} (linked : Linked next p l) (new : j ∉ l) :
    Linked (update next j p) (some j) (j :: l) := by
  refine ⟨rfl, ?_⟩
  rw [update_self]
  refine linked.congr fun i mem => update_of_ne ?_ ..
  intro same
  exact new (same ▸ mem)

theorem bypass {pre post : List ι} {c j : ι} (linked : Linked next p (pre ++ c :: j :: post)) :
    Linked (update next c (next j)) p (pre ++ c :: post) := by
  induction pre generalizing p with
  | nil =>
    refine ⟨linked.1, ?_⟩
    have distinct := List.nodup_cons.mp linked.nodup
    rw [update_self]
    refine linked.2.2.congr fun i mem => update_of_ne ?_ ..
    intro same
    exact distinct.1 (same ▸ List.mem_cons_of_mem j mem)
  | cons i pre ih =>
    have distinct := List.nodup_cons.mp linked.nodup
    have other : i ≠ c := by
      intro same
      exact distinct.1 (by simp [same])
    refine ⟨linked.1, ?_⟩
    rw [update_of_ne other]
    exact ih linked.2

end Linked

def Hashed (home : ι → Option β) (head : β → Option ι) (next : ι → Option ι) : Prop :=
  ∀ b, ∃ l, Linked next (head b) l ∧ ∀ i, i ∈ l ↔ home i = some b

namespace Hashed

variable {home : ι → Option β} {head : β → Option ι} {next next' : ι → Option ι} {b : β} {c j : ι}

theorem congr (hashed : Hashed home head next) (same : ∀ i b, home i = some b → next' i = next i) :
    Hashed home head next' := by
  intro b
  obtain ⟨l, linked, mem⟩ := hashed b
  exact ⟨l, linked.congr fun i inside => same i b ((mem i).mp inside), mem⟩

variable [DecidableEq ι]

theorem mem_without {l l' : List ι} {b' : β} (mem : ∀ i, i ∈ l ↔ home i = some b')
    (rest : ∀ i, i ∈ l' ↔ i ∈ l ∧ i ≠ j) (i : ι) :
    i ∈ l' ↔ update home j none i = some b' := by
  rw [rest i, mem i]
  by_cases same : i = j
  · subst same
    simp
  · rw [update_of_ne same]
    exact and_iff_left same

theorem mem_elsewhere {l : List ι} {b' : β} (mem : ∀ i, i ∈ l ↔ home i = some b')
    (at_home : home j = some b) (other : b' ≠ b) (i : ι) :
    i ∈ l ↔ update home j none i = some b' := by
  apply mem_without mem
  intro i
  refine (and_iff_left_of_imp fun inside => ?_).symm
  rintro rfl
  exact other (Option.some.inj (((mem i).mp inside).symm.trans at_home))

theorem remove_after (hashed : Hashed home head next) (before : home c = some b)
    (after : next c = some j) (at_home : home j = some b) :
    Hashed (update home j none) head (update next c (next j)) := by
  intro b'
  obtain ⟨l, linked, mem⟩ := hashed b'
  by_cases same : b' = b
  · subst same
    obtain ⟨pre, post, rfl⟩ := List.append_of_mem ((mem c).mpr before)
    have rest := linked.drop
    rw [after] at rest
    cases post with
    | nil => cases rest
    | cons i post =>
      obtain rfl := Option.some.inj rest.1
      refine ⟨pre ++ c :: post, linked.bypass, mem_without mem fun i => ?_⟩
      have distinct := linked.nodup
      rw [List.append_cons, List.nodup_middle, List.nodup_cons] at distinct
      simp only [List.mem_append, List.mem_cons, List.append_assoc, List.cons_append,
        List.nil_append] at distinct ⊢
      constructor
      · intro inside
        refine ⟨by tauto, ?_⟩
        rintro rfl
        exact distinct.1 inside
      · tauto
  · refine ⟨l, linked.congr fun i inside => update_of_ne ?_ ..,
      mem_elsewhere mem at_home same⟩
    rintro rfl
    exact same (Option.some.inj (((mem i).mp inside).symm.trans before))

variable [DecidableEq β]

theorem remove_first (hashed : Hashed home head next) (first : head b = some j)
    (at_home : home j = some b) :
    Hashed (update home j none) (update head b (next j)) next := by
  intro b'
  obtain ⟨l, linked, mem⟩ := hashed b'
  by_cases same : b' = b
  · subst same
    cases l with
    | nil => cases first.symm.trans linked
    | cons i rest =>
      obtain rfl := Option.some.inj (first.symm.trans linked.1)
      have distinct := List.nodup_cons.mp linked.nodup
      refine ⟨rest, ?_, mem_without mem fun i => ?_⟩
      · rw [update_self]
        exact linked.2
      · rw [List.mem_cons]
        constructor
        · intro inside
          exact ⟨.inr inside, fun eq => distinct.1 (eq ▸ inside)⟩
        · rintro ⟨eq | inside, other⟩
          · exact absurd eq other
          · exact inside
  · refine ⟨l, ?_, mem_elsewhere mem at_home same⟩
    rw [update_of_ne same]
    exact linked

theorem insert (hashed : Hashed home head next) (free : home j = none) (b : β) :
    Hashed (update home j (some b)) (update head b (some j))
      (update next j (head b)) := by
  intro b'
  obtain ⟨l, linked, mem⟩ := hashed b'
  have away : j ∉ l := by
    intro inside
    cases free.symm.trans ((mem j).mp inside)
  have others (i : ι) (other : i ≠ j) : update home j (some b) i = home i :=
    update_of_ne other ..
  by_cases same : b' = b
  · subst same
    refine ⟨j :: l, ?_, fun i => ?_⟩
    · rw [update_self]
      exact linked.cons away
    · by_cases new : i = j
      · subst new
        simp
      · rw [others i new, ← mem i, List.mem_cons]
        exact or_iff_right new
  · refine ⟨l, ?_, fun i => ?_⟩
    · rw [update_of_ne same]
      refine linked.congr fun i inside => update_of_ne ?_ ..
      intro new
      exact away (new ▸ inside)
    · by_cases new : i = j
      · subst new
        rw [update_self]
        constructor
        · intro inside
          exact absurd inside away
        · intro eq
          exact absurd (Option.some.inj eq).symm same
      · rw [others i new, mem i]

end Hashed

end Chains
