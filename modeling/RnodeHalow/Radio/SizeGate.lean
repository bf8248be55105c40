import RnodeHalow.Radio.Capacity

set_option autoImplicit false

namespace RnodeHalow.Radio.Board

variable (dest : Mac) (len : Nat) (mcs : Byte) (b : Board) (tid : Byte)

theorem txBudgetTake_calls : (b.txBudgetTake len).2.calls = b.calls := by
  unfold txBudgetTake
  split <;> rfl

theorem txBudgetWaitLoop_calls (n : Nat) (b : Board) :
    b.calls ≤ (b.txBudgetWaitLoop len n).2.calls := by
  induction n generalizing b with
  | zero => exact Nat.le_refl _
  | succ n ih =>
    have one : b.calls ≤ b.advance.calls := Nat.le_add_right _ _
    simp only [txBudgetWaitLoop]
    split
    · rw [txBudgetTake_calls]
      exact one
    · exact Nat.le_trans one (ih _)

theorem txBudget_calls : b.calls ≤ (b.txBudget len).2.calls := by
  unfold txBudget txBudgetWait
  split
  · rw [txBudgetTake_calls]
  · split
    · exact Nat.le_refl _
    · exact txBudgetWaitLoop_calls len _ b

theorem lmacTx_calls (frame : AirFrame) (len : Nat) (b : Board) :
    b.calls ≤ (b.lmacTx frame len).2.calls := by
  unfold lmacTx
  split <;> exact Nat.le_add_right _ _

theorem halowSendFrame_calls (payload : List Byte) (dest : Mac) (mcs tid : Byte) (b : Board) :
    b.calls < (b.halowSendFrame payload dest mcs tid).2.calls := by
  simp only [halowSendFrame]
  have counted : ({ b with seq := b.seq + 1 } : Board).calls = b.calls := rfl
  rw [← counted]
  generalize ({ b with seq := b.seq + 1 } : Board) = b
  have one : b.calls < b.advance.calls := Nat.lt_succ_self _
  have taken := Nat.lt_of_lt_of_le one
    (txBudget_calls (ieee80211HdrLen + payload.length) b.advance)
  split
  · exact one
  · split
    · exact Nat.lt_of_lt_of_le taken (lmacTx_calls _ _ _)
    · exact taken

theorem fragLoop_calls (uuid : Byte) (n k i : Nat) (rest : List Byte) (b : Board) :
    b.calls ≤ (fragLoop dest mcs tid uuid n k i rest b).2.calls ∧
      (0 < k → b.calls < (fragLoop dest mcs tid uuid n k i rest b).2.calls) := by
  induction k generalizing i rest b with
  | zero => exact ⟨Nat.le_refl _, fun none => absurd none (Nat.lt_irrefl 0)⟩
  | succ k ih =>
    have sent := halowSendFrame_calls
      (BitVec.ofNat 8 (n <<< 4 ||| i) :: uuid :: rest.take fragMaxPayload) dest mcs tid b
    simp only [fragLoop]
    split
    · exact ⟨Nat.le_of_lt sent, fun _ => sent⟩
    · have all := Nat.lt_of_lt_of_le sent (ih (i + 1) (rest.drop fragMaxPayload) _).1
      exact ⟨Nat.le_of_lt all, fun _ => all⟩

theorem halowTxMcs10Frag_calls {data : List Byte} (b : Board)
    (fits : data.length ≤ fragMaxPayload * fragMaxTotal) :
    b.calls < (b.halowTxMcs10Frag data dest mcs tid).2.calls := by
  have named : ({ b with fragUuid := b.fragUuid + 1 } : Board).calls = b.calls := rfl
  simp only [halowTxMcs10Frag, if_neg (Nat.not_lt.mpr fits)]
  rw [← named]
  generalize b.fragUuid + 1 = uuid
  generalize ({ b with fragUuid := uuid } : Board) = b
  split
  · exact halowSendFrame_calls _ _ _ _ _
  · rename_i long
    have most : fragMaxPayload = 300 := rfl
    have some : 0 < (data.length + fragMaxPayload - 1) / fragMaxPayload := by
      rw [most] at long ⊢
      omega
    exact (fragLoop_calls dest mcs tid uuid _ _ 0 data b).2 some

theorem msduFits_cached (m len : Nat) : b.cfgMcsBwCached.2.msduFits m len = b.msduFits m len := by
  simp only [msduFits, (cfgMcsBwCached_frame b).cfgMcsBw]

theorem mcsBump_above {b : Board} {len : Nat} {rates : List Nat} {mcs : Byte}
    (above : ∀ m ∈ rates, mcs.toNat < m ∧ m < 8) (known : mcs.toNat < 8) :
    (b.mcsBump len rates).1 ≠ mcs := by
  induction rates with
  | nil =>
    intro same
    rw [← same] at known
    exact absurd known (show ¬ mcsDefault.toNat < 8 by decide)
  | cons m rest ih =>
    simp only [mcsBump]
    split
    · rintro rfl
      obtain ⟨up, small⟩ := above m List.mem_cons_self
      dsimp only at up
      rw [BitVec.toNat_ofNat, Nat.mod_eq_of_lt (by omega)] at up
      exact Nat.lt_irrefl _ up
    · exact ih fun k member => above k (List.mem_cons_of_mem _ member)

theorem mcsFitLen_same_iff {b : Board} {mcs : Byte} {len : Nat} (known : mcs.toNat < 8) :
    (b.mcsFitLen mcs len).1 = mcs ↔ b.msduFits mcs.toNat len = true := by
  simp only [mcsFitLen, msduFits_cached]
  cases b.msduFits mcs.toNat len with
  | true => simp
  | false =>
    have above (m : Nat) (member : m ∈ (List.range 8).drop (mcs.toNat + 1)) :
        mcs.toNat < m ∧ m < 8 := by
      obtain ⟨k, bound, rfl⟩ := List.mem_iff_getElem.mp member
      simp only [List.length_drop, List.length_range] at bound
      simp only [List.getElem_drop, List.getElem_range]
      omega
    simpa using mcsBump_above above known

def Passed (b : Board) (data : List Byte) (dest : Mac) (mcs tid : Byte) : Prop :=
  if mcs = 10 then
    data.length ≤ fragMaxPayload * fragMaxTotal ∧
      b.halowTxP data dest mcs tid = b.halowTxMcs10Frag data dest mcs tid
  else
    (b.mcsFitLen mcs data.length).1 = mcs ∧
      b.halowTxP data dest mcs tid =
        (b.mcsFitLen mcs data.length).2.halowSendFrame data dest mcs tid

theorem resolveMcs_own {b : Board} {mcs : Byte} (rate : mcs.toNat < 8 ∨ mcs = 10) :
    b.resolveMcs mcs = (mcs, b) := by
  unfold resolveMcs
  apply if_neg
  rintro (rfl | ⟨high, other⟩)
  · exact absurd rate (by decide)
  · rcases rate with low | frag
    · rw [gt_iff_lt, BitVec.lt_def] at high
      exact absurd high (Nat.not_lt.mpr (Nat.le_of_lt_succ low))
    · exact other frag

theorem passed_iff {b : Board} {data : List Byte} {mcs : Byte} (ops : b.opsReady = true)
    (pos : 0 < data.length) (small : data.length ≤ txBufferSize) (rate : mcs.toNat < 8 ∨ mcs = 10) :
    b.Passed data dest mcs tid ↔
      if mcs = 10 then data.length ≤ fragMaxPayload * fragMaxTotal
      else b.msduFits mcs.toNat data.length = true := by
  have call : b.halowTxP data dest mcs tid =
      if mcs = 10 then b.halowTxMcs10Frag data dest mcs tid
      else if (b.mcsFitLen mcs data.length).1 = mcsDefault then
        (-4, (b.mcsFitLen mcs data.length).2.modifyDbg fun d =>
          { d with txDropOversize := d.txDropOversize + 1 })
      else (b.mcsFitLen mcs data.length).2.halowSendFrame data dest
        (b.mcsFitLen mcs data.length).1 tid := by
    simp only [halowTxP, ops, resolveMcs_own rate]
    rw [if_neg (by simp), if_neg (by omega), if_neg (Nat.not_lt.mpr small)]
  unfold Passed
  rw [call]
  by_cases frag : mcs = 10
  · simp only [if_pos frag, and_true]
  · have slow : mcs.toNat < 8 := rate.resolve_right frag
    simp only [if_neg frag]
    rw [← mcsFitLen_same_iff slow]
    refine ⟨And.left, fun same => ⟨same, ?_⟩⟩
    have known : mcs ≠ mcsDefault := by
      rintro rfl
      exact absurd slow (by decide)
    rw [same, if_neg known]

def Oversize (b : Board) (data : List Byte) (dest : Mac) (mcs tid : Byte) : Prop :=
  (b.halowTxP data dest mcs tid).1 = -4 ∧ (b.halowTxP data dest mcs tid).2.calls = b.calls

theorem resolveMcs_calls (mcs : Byte) : (b.resolveMcs mcs).2.calls = b.calls := by
  unfold resolveMcs cfgMcsBwCached
  split
  · dsimp only
    split <;> rfl
  · rfl

theorem mcsBump_calls (len : Nat) (rates : List Nat) : (b.mcsBump len rates).2.calls = b.calls := by
  induction rates with
  | nil => rfl
  | cons m rest ih =>
    simp only [mcsBump]
    split
    · rfl
    · exact ih

theorem mcsFitLen_calls (mcs : Byte) (len : Nat) : (b.mcsFitLen mcs len).2.calls = b.calls := by
  have cached : b.cfgMcsBwCached.2.calls = b.calls := by
    unfold cfgMcsBwCached
    dsimp only
    split <;> rfl
  simp only [mcsFitLen]
  split
  · exact cached
  · rw [mcsBump_calls, cached]

theorem oversize_iff {b : Board} {data : List Byte} (ops : b.opsReady = true)
    (known : rateKnown b.cfgMcsBw) (small : data.length ≤ txBufferSize) :
    b.Oversize data dest mcs tid ↔ airFits b.cfgMcsBw mcs data.length = false := by
  have rate := airMcs_cases known mcs
  have calls := resolveMcs_calls b mcs
  have same (m : Nat) : (b.resolveMcs mcs).2.msduFits m data.length = b.msduFits m data.length := by
    simp only [msduFits, (resolveMcs_frame mcs b).cfgMcsBw]
  unfold Oversize halowTxP airFits
  rw [ops, if_neg (by simp), ← resolveMcs_rate]
  rw [← resolveMcs_rate] at rate
  by_cases empty : data.length = 0
  · have least : 32 ≤ (maxMsdu (bwIndex b.cfgMcsBw.2)).getD 7 0 := by
      generalize bwIndex b.cfgMcsBw.2 = w
      revert w
      decide
    rw [if_pos empty, empty]
    simp only [Nat.zero_add, least, Nat.zero_le, decide_true, ite_self]
    simp
  rw [if_neg empty, if_neg (Nat.not_lt.mpr small)]
  dsimp only
  rcases rate with slow | frag
  · have plain : (b.resolveMcs mcs).1 ≠ 10 := by
      intro eq
      rw [eq] at slow
      exact absurd slow (by decide)
    rw [if_neg plain, if_neg plain]
    change _ ↔ b.msduFits 7 data.length = false
    rw [← same, ← mcsFitLen_default_iff slow]
    have before := mcsFitLen_calls (b.resolveMcs mcs).2 (b.resolveMcs mcs).1 data.length
    rw [calls] at before
    generalize (b.resolveMcs mcs).2.mcsFitLen (b.resolveMcs mcs).1 data.length = fit at before ⊢
    constructor
    · rintro ⟨_, quiet⟩
      by_contra sent
      rw [if_neg sent] at quiet
      have more := halowSendFrame_calls data dest fit.1 tid fit.2
      rw [quiet, before] at more
      exact Nat.lt_irrefl _ more
    · intro none
      rw [if_pos none]
      exact ⟨rfl, before⟩
  · rw [if_pos frag, if_pos frag]
    by_cases fits : data.length ≤ fragMaxPayload * fragMaxTotal
    · have more := halowTxMcs10Frag_calls dest (b.resolveMcs mcs).1 tid (b.resolveMcs mcs).2 fits
      rw [calls] at more
      simp only [fits, decide_true, Bool.true_eq_false, iff_false, not_and]
      exact fun _ quiet => Nat.ne_of_gt more quiet
    · rw [halowTxMcs10Frag, if_pos (Nat.lt_of_not_le fits)]
      simp only [fits, decide_false, iff_true]
      exact ⟨trivial, calls⟩

end RnodeHalow.Radio.Board
