import RnodeHalow.Radio.Board

set_option autoImplicit false

namespace RnodeHalow.Radio.Board

structure Ready (room : Nat) (b : Board) : Prop where
  heap : ∀ n, (b.fates n).heap.isSome = true
  skb : ∀ n, (b.fates n).skb = true
  lmac : ∀ n, (b.fates n).lmacTx = 0
  enough : room ≤ b.vacatedBytes
  bounded : b.vacatedBytes ≤ txBufferSize

theorem Ready.same {room left : Nat} {b b' : Board} (ready : b.Ready room)
    (fates : b'.fates = b.fates) (enough : left ≤ b'.vacatedBytes)
    (bounded : b'.vacatedBytes ≤ txBufferSize) : b'.Ready left where
  heap n := by rw [fates]; exact ready.heap n
  skb n := by rw [fates]; exact ready.skb n
  lmac n := by rw [fates]; exact ready.lmac n
  enough := enough
  bounded := bounded

variable {room len : Nat} {b : Board}

theorem Ready.advance (ready : b.Ready room) : b.advance.Ready room := by
  have enough := ready.enough
  have bounded := ready.bounded
  refine ready.same rfl ?_ (Nat.min_le_right _ _)
  simp only [Board.advance]
  omega

theorem Ready.less {room small : Nat} (ready : b.Ready room) (le : small ≤ room) : b.Ready small :=
  ready.same rfl (Nat.le_trans le ready.enough) ready.bounded

theorem Ready.lmacTx (ready : b.Ready room) (frame : AirFrame) :
    (b.lmacTx frame len).1 = 0 ∧ (b.lmacTx frame len).2.Ready room := by
  have accepted : ¬ b.fate.lmacTx ≠ 0 := fun refused => refused (ready.lmac _)
  rw [Board.lmacTx, if_neg accepted]
  exact ⟨rfl, ready.advance.same rfl ready.advance.enough ready.advance.bounded⟩

variable (dest : Mac) (mcs tid : Byte)

theorem Ready.send {payload : List Byte}
    (ready : b.Ready (ieee80211HdrLen + payload.length + room)) :
    (b.halowSendFrame payload dest mcs tid).1 = 0 ∧
      (b.halowSendFrame payload dest mcs tid).2.Ready room := by
  have counted : ({ b with seq := b.seq + 1 } : Board).Ready
      (ieee80211HdrLen + payload.length + room) := ready.same rfl ready.enough ready.bounded
  simp only [halowSendFrame]
  generalize ({ b with seq := b.seq + 1 } : Board) = b at counted
  have skb : (!b.fate.skb) = false := by simp [Board.fate, counted.skb]
  have later := counted.advance
  have fits : b.advance.vacatedBytes ≥ ieee80211HdrLen + payload.length :=
    Nat.le_trans (Nat.le_add_right _ _) later.enough
  have taken : b.advance.txBudgetTake (ieee80211HdrLen + payload.length) = (true, { b.advance with
      vacatedBytes := b.advance.vacatedBytes - (ieee80211HdrLen + payload.length) }) := if_pos fits
  have budget : b.advance.txBudget (ieee80211HdrLen + payload.length) = (true, { b.advance with
      vacatedBytes := b.advance.vacatedBytes - (ieee80211HdrLen + payload.length) }) := by
    simp only [txBudget, taken, if_true]
  have left : ({ b.advance with
      vacatedBytes := b.advance.vacatedBytes - (ieee80211HdrLen + payload.length) } : Board).Ready
      room :=
    later.same rfl (Nat.le_sub_of_add_le (by have := later.enough; omega))
      (Nat.le_trans (Nat.sub_le _ _) later.bounded)
  simp only [skb, budget, Bool.false_eq_true, if_false, if_true]
  exact left.lmacTx _

theorem Ready.fragLoop (uuid : Byte) (n k i : Nat) (rest : List Byte)
    (ready : b.Ready ((ieee80211HdrLen + fragHdrSize + fragMaxPayload) * k)) :
    (fragLoop dest mcs tid uuid n k i rest b).1 = 0 := by
  induction k generalizing i rest b with
  | zero => rfl
  | succ k ih =>
    simp only [Board.fragLoop]
    have size : (BitVec.ofNat 8 (n <<< 4 ||| i) :: uuid :: rest.take fragMaxPayload).length ≤
        fragHdrSize + fragMaxPayload := by
      simp only [List.length_cons, List.length_take, fragHdrSize]
      omega
    generalize BitVec.ofNat 8 (n <<< 4 ||| i) :: uuid :: rest.take fragMaxPayload = frag at size
    have room : b.Ready (ieee80211HdrLen + frag.length +
        (ieee80211HdrLen + fragHdrSize + fragMaxPayload) * k) :=
      ready.less (by rw [Nat.mul_succ]; omega)
    obtain ⟨sent, left⟩ := room.send dest mcs tid
    simp only [sent, ne_eq, not_true_eq_false, if_false]
    exact ih _ _ left

theorem Ready.fragments {data : List Byte} (ready : b.Ready txBufferSize)
    (fits : data.length ≤ fragMaxPayload * fragMaxTotal) :
    (b.halowTxMcs10Frag data dest mcs tid).1 = 0 := by
  have counted : ({ b with fragUuid := b.fragUuid + 1 } : Board).Ready txBufferSize :=
    ready.same rfl ready.enough ready.bounded
  simp only [halowTxMcs10Frag, if_neg (Nat.not_lt.mpr fits)]
  generalize b.fragUuid + 1 = uuid at counted
  generalize ({ b with fragUuid := uuid } : Board) = b at counted
  have sizes : fragMaxPayload = 300 ∧ fragMaxTotal = 8 ∧ fragHdrSize = 2 ∧
    ieee80211HdrLen = 24 ∧ txBufferSize = 29200 := ⟨rfl, rfl, rfl, rfl, rfl⟩
  split
  · have room : b.Ready (ieee80211HdrLen +
        (BitVec.ofNat 8 (1 <<< 4) :: uuid :: data).length + 0) :=
      counted.less (by simp only [List.length_cons]; omega)
    exact (room.send dest mcs tid).1
  · refine Ready.fragLoop _ _ _ _ _ _ _ _ (counted.less ?_)
    have few : (data.length + fragMaxPayload - 1) / fragMaxPayload ≤ 8 := by
      rw [sizes.1] at fits ⊢
      omega
    calc (ieee80211HdrLen + fragHdrSize + fragMaxPayload) *
          ((data.length + fragMaxPayload - 1) / fragMaxPayload)
        ≤ (ieee80211HdrLen + fragHdrSize + fragMaxPayload) * 8 := Nat.mul_le_mul_left _ few
      _ ≤ txBufferSize := by decide

theorem maxMsdu_le (w : Fin 4) (m : Fin 8) : (maxMsdu w).getD m 0 ≤ (maxMsdu w).getD 7 0 := by
  revert w m
  decide

theorem msduFits_fastest {m len : Nat} (slow : m < 8) (fits : b.msduFits m len = true) :
    b.msduFits 7 len = true := by
  have le := maxMsdu_le (bwIndex b.cfgMcsBw.2) ⟨m, slow⟩
  simp only [msduFits, decide_eq_true_eq] at fits ⊢
  exact Nat.le_trans fits le

theorem mcsBump_default_iff {rates : List Nat} (small : ∀ m ∈ rates, m < 8) :
    (b.mcsBump len rates).1 = mcsDefault ↔ ∀ m ∈ rates, b.msduFits m len = false := by
  induction rates with
  | nil => simp [mcsBump]
  | cons m rest ih =>
    have others := ih fun k mem => small k (List.mem_cons_of_mem _ mem)
    simp only [mcsBump, List.forall_mem_cons]
    cases fits : b.msduFits m len with
    | true =>
      have lt : m < 8 := small m List.mem_cons_self
      have known : BitVec.ofNat 8 m ≠ mcsDefault := by
        intro same
        have value := congrArg BitVec.toNat same
        rw [BitVec.toNat_ofNat, Nat.mod_eq_of_lt (by omega)] at value
        have top : mcsDefault.toNat = 255 := rfl
        omega
      simp [known]
    | false => simpa using others

theorem mcsFitLen_default_iff {mcs : Byte} (slow : mcs.toNat < 8) :
    (b.mcsFitLen mcs len).1 = mcsDefault ↔ b.msduFits 7 len = false := by
  have cached (m : Nat) : b.cfgMcsBwCached.2.msduFits m len = b.msduFits m len := by
    simp only [msduFits, (cfgMcsBwCached_frame b).cfgMcsBw]
  simp only [mcsFitLen, cached]
  cases fits : b.msduFits mcs.toNat len with
  | true =>
    have known : mcs ≠ mcsDefault := by
      rintro rfl
      exact absurd slow (by decide)
    simp [known, msduFits_fastest slow fits]
  | false =>
    have rates (m : Nat) (mem : m ∈ (List.range 8).drop (mcs.toNat + 1)) : m < 8 :=
      List.mem_range.mp (List.mem_of_mem_drop mem)
    simp only [Bool.false_eq_true, if_false]
    rw [mcsBump_default_iff rates]
    simp only [cached]
    constructor
    · intro none
      by_cases top : mcs.toNat = 7
      · rw [← top]
        exact fits
      · apply none 7
        rw [List.mem_iff_getElem]
        exact ⟨6 - mcs.toNat, by simp; omega, by simp; omega⟩
    · intro none m mem
      by_contra fits'
      rw [msduFits_fastest (rates m mem) (by simpa using fits')] at none
      cases none

def airMcs (rate : Byte × Byte) (mcs : Byte) : Byte :=
  if mcs = mcsDefault ∨ mcs > 7 ∧ mcs ≠ 10 then rate.1 else mcs

def airFits (rate : Byte × Byte) (mcs : Byte) (len : Nat) : Bool :=
  if airMcs rate mcs = 10 then len ≤ fragMaxPayload * fragMaxTotal
  else len + 32 ≤ (maxMsdu (bwIndex rate.2)).getD 7 0

def rateKnown (rate : Byte × Byte) : Prop := rate.1.toNat < 8 ∨ rate.1 = 10

theorem resolveMcs_rate (b : Board) (mcs : Byte) :
    (b.resolveMcs mcs).1 = airMcs b.cfgMcsBw mcs := by
  unfold resolveMcs airMcs
  split <;> rfl

theorem airMcs_cases {rate : Byte × Byte} (known : rateKnown rate) (mcs : Byte) :
    (airMcs rate mcs).toNat < 8 ∨ airMcs rate mcs = 10 := by
  unfold airMcs
  split
  · exact known
  · rename_i own
    simp only [not_or, not_and, Decidable.not_not] at own
    by_cases slow : mcs.toNat < 8
    · exact .inl slow
    · refine .inr (own.2 ?_)
      rw [gt_iff_lt, BitVec.lt_def]
      exact Nat.lt_of_not_le fun le => slow (Nat.lt_succ_of_le le)

theorem Ready.cached (ready : b.Ready room) : b.cfgMcsBwCached.2.Ready room := by
  unfold cfgMcsBwCached
  dsimp only
  split
  · exact ready
  · exact ready.same rfl ready.enough ready.bounded

theorem Ready.resolved (ready : b.Ready room) (mcs : Byte) : (b.resolveMcs mcs).2.Ready room := by
  unfold resolveMcs
  split
  · exact ready.cached
  · exact ready

theorem Ready.bumped (ready : b.Ready room) (len : Nat) (rates : List Nat) :
    (b.mcsBump len rates).2.Ready room := by
  induction rates with
  | nil => exact ready
  | cons m rest ih =>
    simp only [mcsBump]
    split
    · exact ready.same rfl ready.enough ready.bounded
    · exact ih

theorem Ready.fitted (ready : b.Ready room) (mcs : Byte) (len : Nat) :
    (b.mcsFitLen mcs len).2.Ready room := by
  simp only [mcsFitLen]
  split
  · exact ready.cached
  · exact ready.cached.bumped len _

theorem halowTxP_answer {data : List Byte} (ready : b.Ready txBufferSize) (ops : b.opsReady = true)
    (known : rateKnown b.cfgMcsBw) (pos : 0 < data.length)
    (small : ieee80211HdrLen + data.length ≤ txBufferSize) :
    (b.halowTxP data dest mcs tid).1 = if airFits b.cfgMcsBw mcs data.length then 0 else -4 := by
  have short : ¬ data.length > txBufferSize := by omega
  have frame := resolveMcs_frame mcs b
  have same (m : Nat) : (b.resolveMcs mcs).2.msduFits m data.length = b.msduFits m data.length := by
    simp only [msduFits, frame.cfgMcsBw]
  have vacancy := ready.resolved mcs
  have cases := airMcs_cases known mcs
  unfold halowTxP airFits
  rw [ops, if_neg (by simp), if_neg (by omega), if_neg short, ← resolveMcs_rate]
  rw [← resolveMcs_rate] at cases
  dsimp only
  rcases cases with slow | frag
  · have plain : (b.resolveMcs mcs).1 ≠ 10 := by
      intro eq
      rw [eq] at slow
      exact absurd slow (by decide)
    rw [if_neg plain, if_neg plain]
    change _ = if b.msduFits 7 data.length then 0 else -4
    have fit : ((b.resolveMcs mcs).2.mcsFitLen (b.resolveMcs mcs).1 data.length).1 = mcsDefault ↔
        b.msduFits 7 data.length = false := by
      rw [mcsFitLen_default_iff slow, same]
    cases fits : b.msduFits 7 data.length with
    | true =>
      rw [if_neg (by rw [fit, fits]; simp)]
      have room := (vacancy.fitted (b.resolveMcs mcs).1 data.length).less
        (show ieee80211HdrLen + data.length + 0 ≤ txBufferSize from small)
      exact (room.send dest _ tid).1
    | false => rw [if_pos (fit.mpr fits)]; rfl
  · rw [if_pos frag, if_pos frag]
    by_cases fits : data.length ≤ fragMaxPayload * fragMaxTotal
    · rw [vacancy.fragments dest _ tid fits]
      simp [fits]
    · rw [halowTxMcs10Frag, if_pos (Nat.lt_of_not_le fits)]
      simp [fits]

end RnodeHalow.Radio.Board
