import RnodeHalow.Config.Api

set_option autoImplicit false

namespace RnodeHalow.Config

open Radio (Board)

theorem configdbSetI32_apply (flash : Key → Bool) (k j : Key) (v : BitVec 32) (db : Db) :
    (configdbSetI32 flash k v db).2 j = if j = k ∧ flash k = true then some v else db j := by
  unfold configdbSetI32
  by_cases held : db k = some v
  · rw [if_pos held]
    split
    · rename_i here
      rw [here.1]
      exact held
    · rfl
  · rw [if_neg held]
    by_cases works : flash k = true
    · rw [if_pos works]
      simp [works, Function.update_apply]
    · rw [if_neg works]
      simp [works]

structure Lmac.Carries (l : Lmac) (cfg : HalowConfig) : Prop where
  bandwidth : l.bssBw = cfg.bandwidth ∧ l.mcastTxbw = cfg.bandwidth ∧ l.txBw = cfg.bandwidth
  mcs : l.fixTxRate = cfg.mcs ∧ l.txMcs = cfg.mcs ∧ l.fallbackMcs = cfg.mcs ∧ l.mcastTxmcs = cfg.mcs
  power : l.txpower = cfg.rfPower
  freq : l.freq = cfg.centralFreq

namespace HalowConfig

end HalowConfig

def emptyStack : HalowConfig := ⟨0, 0, 0, 0, 0⟩

def readyEnv : Env where
  ops := true
  nif := true
  slipNetif := true
  malloc := true
  callback := true
  serverCallback := true
  flash := fun _ => true
  aton := fun _ => none
  stack := emptyStack

def defaultDb : Db
  | .halowFreq => some 8645
  | .halowPwr => some 14
  | .halowBand => some 1
  | .halowMcs => some 0
  | .halowSpwr => some 0
  | .netIpMode => some netIpModeStatic
  | _ => none

def defaultNode : Node := ⟨defaultDb, ⟨8645, 0, 0, 0, 0, 1, 1, 1, 14, 0⟩, []⟩

end RnodeHalow.Config
