import RnodeHalow.Radio.Board

set_option autoImplicit false

namespace RnodeHalow.Radio

def AirFrame.bytes (f : AirFrame) : List Byte :=
  if f.mcs = 10 then f.payload.drop fragHdrSize else f.payload

def onAir (frames : List AirFrame) : List Byte := frames.reverse.flatMap AirFrame.bytes

theorem onAir_append (newer older : List AirFrame) :
    onAir (newer ++ older) = onAir older ++ onAir newer := by
  simp [onAir]

theorem onAir_single (f : AirFrame) : onAir [f] = f.bytes := by
  simp [onAir]

def Partly (data : List Byte) (frames : List AirFrame) : Prop :=
  ∃ rest, data = onAir frames ++ rest ∧ (rest = [] → frames = [])

theorem Partly.none (data : List Byte) : Partly data [] := ⟨data, rfl, fun _ => rfl⟩

namespace Board

structure Handed (data : List Byte) (r : Int) (b b' : Board) : Prop where
  air : ∃ new, b'.air = new ++ b.air ∧ if r = 0 then onAir new = data else Partly data new
  -- a positive answer is what the LMAC said to the last call
  code : 0 < r → ∃ n, b'.calls = n + 1 ∧ (b.fates n).lmacTx = r

theorem Handed.refused {data : List Byte} {r : Int} {b b' : Board} (neg : r < 0)
    (air : b'.air = b.air) : Handed data r b b' where
  air := by
    refine ⟨[], air, ?_⟩
    rw [if_neg (by omega)]
    exact .none data
  code pos := by omega

theorem Handed.of_same {data : List Byte} {r : Int} {a b b' : Board} (handed : Handed data r b b')
    (air : b.air = a.air) (fates : b.fates = a.fates) : Handed data r a b' where
  air := by
    obtain ⟨new, eq, carried⟩ := handed.air
    exact ⟨new, by rw [eq, air], carried⟩
  code pos := by
    rw [← fates]
    exact handed.code pos

variable (len : Nat) (mcs : Byte) (b : Board)

theorem txBudgetTake_air : (b.txBudgetTake len).2.air = b.air := by
  unfold txBudgetTake
  split <;> rfl

theorem txBudgetWaitLoop_air (n : Nat) (b : Board) : (b.txBudgetWaitLoop len n).2.air = b.air := by
  induction n generalizing b with
  | zero => rfl
  | succ n ih =>
    simp only [txBudgetWaitLoop]
    split
    · exact txBudgetTake_air len b.advance
    · exact ih b.advance

theorem txBudget_air : (b.txBudget len).2.air = b.air := by
  unfold txBudget txBudgetWait
  split
  · exact txBudgetTake_air len b
  · split
    · rfl
    · exact txBudgetWaitLoop_air len _ b

structure Framed (payload : List Byte) (mcs : Byte) (r : Int) (b b' : Board) : Prop where
  sent : r = 0 → ∃ f : AirFrame, b'.air = f :: b.air ∧ f.payload = payload ∧ f.mcs = mcs
  lost : r ≠ 0 → b'.air = b.air
  code : 0 < r → ∃ n, b'.calls = n + 1 ∧ (b.fates n).lmacTx = r

theorem lmacTx_framed (frame : AirFrame) (len : Nat) (b : Board) :
    Framed frame.payload frame.mcs (b.lmacTx frame len).1 b (b.lmacTx frame len).2 := by
  unfold lmacTx
  split
  · rename_i failed
    exact ⟨fun ok => absurd ok failed, fun _ => rfl, fun _ => ⟨b.calls, rfl, rfl⟩⟩
  · exact ⟨fun _ => ⟨frame, rfl, rfl, rfl⟩, fun bad => absurd rfl bad,
      fun pos => absurd pos (Int.lt_irrefl 0)⟩

theorem Framed.refused {payload : List Byte} {mcs : Byte} {r : Int} {b b' : Board} (neg : r < 0)
    (air : b'.air = b.air) : Framed payload mcs r b b' :=
  ⟨fun ok => by omega, fun _ => air, fun pos => by omega⟩

theorem halowSendFrame_framed (payload : List Byte) (dest : Mac) (mcs tid : Byte) (b : Board) :
    Framed payload mcs (b.halowSendFrame payload dest mcs tid).1 b
      (b.halowSendFrame payload dest mcs tid).2 := by
  simp only [halowSendFrame]
  split
  · exact .refused (show (-5 : Int) < 0 by decide) rfl
  · generalize start : ({ b with seq := b.seq + 1 } : Board).advance = b1
    have air1 : b1.air = b.air := by rw [← start]; rfl
    have fates1 : b1.fates = b.fates := by rw [← start]; rfl
    have air := txBudget_air (ieee80211HdrLen + payload.length) b1
    have fates := (txBudget_frame (ieee80211HdrLen + payload.length) b1).fates
    split
    · have framed := lmacTx_framed ⟨payload, dest, mcs, tid &&& 7, (b.seq + 1 &&& 0x0fff) <<< 4⟩
        (ieee80211HdrLen + payload.length) (b1.txBudget (ieee80211HdrLen + payload.length)).2
      refine ⟨fun ok => ?_, fun bad => ?_, fun pos => ?_⟩
      · obtain ⟨f, eq, same⟩ := framed.sent ok
        exact ⟨f, by rw [eq, air, air1], same⟩
      · rw [framed.lost bad, air, air1]
      · rw [← fates1, ← fates]
        exact framed.code pos
    · exact .refused (show (-6 : Int) < 0 by decide) (air.trans air1)

theorem Framed.handed {payload data : List Byte} {mcs : Byte} {r : Int} {b b' : Board}
    (framed : Framed payload mcs r b b')
    (bytes : (if mcs = 10 then payload.drop fragHdrSize else payload) = data) :
    Handed data r b b' where
  air := by
    by_cases ok : r = 0
    · obtain ⟨f, eq, rfl, rfl⟩ := framed.sent ok
      refine ⟨[f], eq, ?_⟩
      rw [if_pos ok, onAir_single]
      exact bytes
    · refine ⟨[], framed.lost ok, ?_⟩
      rw [if_neg ok]
      exact .none data
  code := framed.code

theorem Handed.cons {piece rest : List Byte} {r : Int} {b b1 b' : Board}
    (first : Handed piece 0 b b1) (fates : b1.fates = b.fates) (more : Handed rest r b1 b')
    (left : r ≠ 0 → rest ≠ []) : Handed (piece ++ rest) r b b' where
  air := by
    obtain ⟨new1, eq1, carried1⟩ := first.air
    obtain ⟨new2, eq2, carried2⟩ := more.air
    rw [if_pos rfl] at carried1
    refine ⟨new2 ++ new1, by rw [eq2, eq1, List.append_assoc], ?_⟩
    rw [onAir_append, carried1]
    by_cases ok : r = 0
    · rw [if_pos ok] at carried2 ⊢
      rw [carried2]
    · rw [if_neg ok] at carried2 ⊢
      obtain ⟨last, split, none⟩ := carried2
      refine ⟨last, by rw [onAir_append, carried1, split, List.append_assoc], fun empty => ?_⟩
      rw [none empty, empty] at split
      exact absurd split (left ok)
  code pos := by
    rw [← fates]
    exact more.code pos

theorem fragLoop_handed (dest : Mac) (tid uuid : Byte) (n k i : Nat) (rest : List Byte) (b : Board)
    (enough : rest.length ≤ k * fragMaxPayload)
    (needed : k * fragMaxPayload < rest.length + fragMaxPayload) :
    Handed rest (fragLoop dest 10 tid uuid n k i rest b).1 b
      (fragLoop dest 10 tid uuid n k i rest b).2 := by
  induction k generalizing i rest b with
  | zero =>
    have empty : rest = [] := List.eq_nil_of_length_eq_zero (by omega)
    exact ⟨⟨[], rfl, empty.symm⟩, fun pos => absurd pos (Int.lt_irrefl 0)⟩
  | succ k ih =>
    rw [Nat.succ_mul] at enough needed
    simp only [fragLoop]
    generalize frag : BitVec.ofNat 8 (n <<< 4 ||| i) :: uuid :: rest.take fragMaxPayload = payload
    have framed := halowSendFrame_framed payload dest 10 tid b
    split
    · rename_i failed
      refine ⟨⟨[], framed.lost failed, ?_⟩, framed.code⟩
      rw [if_neg failed]
      exact .none rest
    · rename_i sent
      have first : Handed (rest.take fragMaxPayload) _ b _ := framed.handed (by rw [← frag]; rfl)
      rw [not_ne_iff.mp sent] at first
      have fates := (halowSendFrame_frame payload dest 10 tid b).fates
      have more := ih (i + 1) (rest.drop fragMaxPayload)
        (halowSendFrame payload dest 10 tid b).2 (by rw [List.length_drop]; omega)
        (by rw [List.length_drop]; omega)
      have whole := first.cons fates more fun failed empty => ?_
      · rwa [List.take_append_drop] at whole
      · cases k with
        | zero => exact failed rfl
        | succ k =>
          have short := congrArg List.length empty
          rw [List.length_drop, List.length_nil] at short
          rw [Nat.succ_mul] at needed
          omega

theorem halowTxMcs10Frag_handed (data : List Byte) (dest : Mac) (tid : Byte) (b : Board) :
    Handed data (b.halowTxMcs10Frag data dest 10 tid).1 b
      (b.halowTxMcs10Frag data dest 10 tid).2 := by
  simp only [halowTxMcs10Frag]
  split
  · exact .refused (show (-4 : Int) < 0 by decide) rfl
  · generalize named : ({ b with fragUuid := b.fragUuid + 1 } : Board) = b1
    have air : b1.air = b.air := by rw [← named]
    have fates : b1.fates = b.fates := by rw [← named]
    split
    · refine Handed.of_same (Framed.handed (halowSendFrame_framed _ dest 10 tid b1) ?_) air fates
      rfl
    · have size : fragMaxPayload = 300 := rfl
      refine (fragLoop_handed dest tid _ _ _ 0 data b1 ?_ ?_).of_same air fates <;>
        rw [size] <;> omega

theorem resolveMcs_air : (b.resolveMcs mcs).2.air = b.air := by
  unfold resolveMcs cfgMcsBwCached
  dsimp only
  split
  · dsimp only
    split <;> rfl
  · rfl

theorem mcsBump_air (rates : List Nat) (b : Board) : (b.mcsBump len rates).2.air = b.air := by
  induction rates with
  | nil => rfl
  | cons m rest ih =>
    simp only [mcsBump]
    split
    · rfl
    · exact ih

theorem mcsFitLen_air (len : Nat) (b : Board) : (b.mcsFitLen mcs len).2.air = b.air := by
  have cached : b.cfgMcsBwCached.2.air = b.air := by
    unfold cfgMcsBwCached
    dsimp only
    split <;> rfl
  simp only [mcsFitLen]
  split
  · exact cached
  · rw [mcsBump_air, cached]

theorem mcsBump_slow (rates : List Nat) (b : Board) (small : ∀ m ∈ rates, m < 8) :
    (b.mcsBump len rates).1 ≠ 10 := by
  induction rates with
  | nil => exact (by decide : mcsDefault ≠ 10)
  | cons m rest ih =>
    simp only [mcsBump]
    split
    · have bound := small m (by simp)
      intro same
      have value := congrArg BitVec.toNat same
      rw [BitVec.toNat_ofNat, Nat.mod_eq_of_lt (by omega)] at value
      change m = 10 at value
      omega
    · exact ih fun x member => small x (by simp [member])

theorem mcsFitLen_slow (len : Nat) (b : Board) (slow : mcs ≠ 10) :
    (b.mcsFitLen mcs len).1 ≠ 10 := by
  simp only [mcsFitLen]
  split
  · exact slow
  · refine mcsBump_slow _ _ _ fun m member => ?_
    simpa using List.mem_of_mem_drop member

theorem halowTxP_handed (data : List Byte) (dest : Mac) (mcs tid : Byte) (b : Board) :
    Handed data (b.halowTxP data dest mcs tid).1 b (b.halowTxP data dest mcs tid).2 := by
  have rate := resolveMcs_frame mcs b
  have rateAir := resolveMcs_air mcs b
  simp only [halowTxP]
  split
  · exact .refused (show (-1 : Int) < 0 by decide) rfl
  split
  · exact .refused (show (-3 : Int) < 0 by decide) rfl
  split
  · exact .refused (show (-4 : Int) < 0 by decide) rfl
  split
  · rename_i ten
    rw [ten]
    exact (halowTxMcs10Frag_handed data dest tid _).of_same rateAir rate.fates
  · rename_i slow
    have fit := rate.trans (mcsFitLen_frame (b.resolveMcs mcs).1 data.length _)
    have fitAir := (mcsFitLen_air (b.resolveMcs mcs).1 data.length _).trans rateAir
    have other := mcsFitLen_slow _ data.length (b.resolveMcs mcs).2 slow
    generalize (b.resolveMcs mcs).2.mcsFitLen (b.resolveMcs mcs).1 data.length = fitted at *
    split
    · exact .refused (show (-4 : Int) < 0 by decide) fitAir
    · have framed := halowSendFrame_framed data dest fitted.1 tid fitted.2
      exact (framed.handed (if_neg other)).of_same fitAir fit.fates

end Board

end RnodeHalow.Radio
