import RnodeHalow.Ack.RateAdapt

set_option autoImplicit false

namespace RnodeHalow.Ack

open Resumption

variable {ρ : Type} [Platform ρ]

def halowAckConfigSetDefault : Config where
  maxRetries := 3
  timeoutMs := 250
  rateAdapt := 1
  raLossUp := 5
  raLossDown := 20
  window := 10
  ackFids := 4
  agg := 1
  aggBytes := aggPayloadMax
  ackHoldMs := 5
  bcRepeat := 2

def clampTo (lo hi x : Nat) : Nat :=
  let x := if x < lo then lo else x
  if x > hi then hi else x

def configClamp (cfg : Config) : Config :=
  let maxRetries := if cfg.maxRetries > 8 then 8 else cfg.maxRetries
  let timeoutMs := clampTo 5 300 cfg.timeoutMs
  let raLossUp := if cfg.raLossUp > 100 then halowAckConfigSetDefault.raLossUp else cfg.raLossUp
  let raLossDown :=
    if cfg.raLossDown > 100 then halowAckConfigSetDefault.raLossDown else cfg.raLossDown
  let crossed := raLossUp ≥ raLossDown
  let window := if cfg.window = 0 then halowAckConfigSetDefault.window else cfg.window
  let ackFids := if cfg.ackFids = 0 then 1 else cfg.ackFids
  let ackHoldMs := if cfg.ackHoldMs > 100 then 100 else cfg.ackHoldMs
  { maxRetries := maxRetries
    timeoutMs := timeoutMs
    rateAdapt := if maxRetries = 0 then 0 else cfg.rateAdapt
    raLossUp := if crossed then halowAckConfigSetDefault.raLossUp else raLossUp
    raLossDown := if crossed then halowAckConfigSetDefault.raLossDown else raLossDown
    window := if window > slotsMax then slotsMax else window
    ackFids := if ackFids > ackFidsMax then ackFidsMax else ackFids
    agg := if cfg.agg ≠ 0 then 1 else 0
    aggBytes :=
      if cfg.aggBytes = 0 ∨ cfg.aggBytes > aggPayloadMax then aggPayloadMax else cfg.aggBytes
    ackHoldMs := if timeoutMs > 2 ∧ ackHoldMs > timeoutMs / 2 then timeoutMs / 2 else ackHoldMs
    bcRepeat := clampTo 1 bcRepeatMax cfg.bcRepeat }

structure Config.Clamped (cfg : Config) : Prop where
  maxRetries_le : cfg.maxRetries ≤ 8
  timeout_pos : 5 ≤ cfg.timeoutMs
  timeout_le : cfg.timeoutMs ≤ 300
  noRetries : cfg.maxRetries = 0 → cfg.rateAdapt = 0
  window_pos : 1 ≤ cfg.window
  window_le : cfg.window ≤ 16
  ackFids_pos : 1 ≤ cfg.ackFids
  ackFids_le : cfg.ackFids ≤ 16
  aggBytes_pos : 1 ≤ cfg.aggBytes
  aggBytes_le : cfg.aggBytes ≤ 4000
  ackHold_le : cfg.ackHoldMs ≤ 100
  bcRepeat_pos : 1 ≤ cfg.bcRepeat
  bcRepeat_le : cfg.bcRepeat ≤ 3

theorem clampTo_ge (lo hi x : Nat) (order : lo ≤ hi) : lo ≤ clampTo lo hi x := by
  simp only [clampTo]
  split <;> split <;> omega

theorem clampTo_le (lo hi x : Nat) : clampTo lo hi x ≤ hi := by
  simp only [clampTo]
  split <;> split <;> omega

theorem configClamp_clamped (cfg : Config) : (configClamp cfg).Clamped where
  maxRetries_le := by simp only [configClamp]; split <;> omega
  timeout_pos := clampTo_ge 5 300 _ (by omega)
  timeout_le := clampTo_le 5 300 _
  noRetries := fun none => if_pos none
  window_pos := by simp only [configClamp, halowAckConfigSetDefault, slotsMax]; grind
  window_le := by simp only [configClamp, slotsMax]; grind
  ackFids_pos := by simp only [configClamp, ackFidsMax]; grind
  ackFids_le := by simp only [configClamp, ackFidsMax]; grind
  aggBytes_pos := by simp only [configClamp, aggPayloadMax]; grind
  aggBytes_le := by simp only [configClamp, aggPayloadMax]; grind
  ackHold_le := by simp only [configClamp]; grind
  bcRepeat_pos := clampTo_ge 1 3 _ (by omega)
  bcRepeat_le := clampTo_le 1 3 _

def cacheOf (cfg : Config) : Cache where
  ackHoldJ := msJ cfg.ackHoldMs
  staleJ := msJ raStaleMs
  quietJ := msJ 1000
  busyJ := msJ 10000
  stepGapJ := msJ raStepGapMs
  dfltTtlJ := msJ 5000
  raUpQ8 := cfg.raLossUp * 256 / 100
  raDownQ8 := cfg.raLossDown * 256 / 100

def configCache : Code ρ Unit := Sec.modify fun b => { b with cache := cacheOf b.cfg }

def configApplyRate (c : Config) (i : PeerIx) (txMcs : Byte) : Code ρ Unit :=
  if c.rateAdapt = 0 then
    modifyPeer i fun p => { p with txMcs := halowMcsDefault, lossQ8 := 0 }
  else
    Sec.when (txMcs = halowMcsDefault) do
      let initMcs ← peerInitMcs
      modifyPeer i fun p => { p with txMcs := initMcs, lossQ8 := 0 }

def configApplyPeer (c : Config) (i : PeerIx) : Code ρ Unit := do
  let p ← Sec.read (·.peers i)
  Sec.when (p.inUse = true) do
    Sec.when (p.curRetries > c.maxRetries) <|
      modifyPeer i fun p => { p with curRetries := c.maxRetries }
    configApplyRate c i p.txMcs
    modifyPeer i fun p => { p with acksSinceStep := 0, nextStepAllowed := 0 }

def configInstall (c : Config) : Code ρ Unit := do
  Sec.modify fun b =>
    { b with
      cfg := c
      window := c.window
      cwnd := if b.cwnd > c.window then c.window else b.cwnd }
  emit (.windowed c.window)
  Sec.forEach allPeers (configApplyPeer c)

def halowAckConfigApply (cfg : Config) : Prog (Node ρ) Unit := do
  let c := configClamp cfg
  sec dfltMcsRefresh
  lock
  sec (configInstall c)
  unlock
  lock
  sec configCache
  unlock
  sec do
    let live ← Sec.read (·.cfg)
    platform fun r => ((), Platform.halowAckConfigSave live r)

end RnodeHalow.Ack
