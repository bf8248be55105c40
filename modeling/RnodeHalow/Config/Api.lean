import RnodeHalow.Dhcp.Interface
import RnodeHalow.Radio.Board

set_option autoImplicit false

namespace RnodeHalow.Config

abbrev Ip := BitVec 32

structure Number where
  valueint : Int
  positive : Bool
  -- `(uint16_t)(valuedouble * 10.0 + 0.5)`
  tenths : BitVec 16

inductive Json where
  | bool (b : Bool)
  | number (n : Number)
  | string (s : String)
  | other

abbrev Body := List (String × Json)

def getBool (o : Body) (k : String) : Option Bool :=
  match o.lookup k with
  | some (.bool b) => some b
  | _ => none

def getNumber (o : Body) (k : String) : Option Number :=
  match o.lookup k with
  | some (.number n) => some n
  | _ => none

def getString (o : Body) (k : String) : Option String :=
  match o.lookup k with
  | some (.string s) => some s
  | _ => none

def digits (s : List Char) : Int :=
  (s.takeWhile Char.isDigit).foldl (fun n c => 10 * n + (c.toNat - 48 : Nat)) 0

def atoi (s : List Char) : Int :=
  match s.dropWhile fun c => c = ' ' || (9 ≤ c.toNat && c.toNat ≤ 13) with
  | '-' :: rest => -digits rest
  | '+' :: rest => digits rest
  | s => digits s

inductive Key where
  | halowFreq | halowPwr | halowBand | halowMcs | halowSpwr
  | slipEnable | slipBaud | slipIp | slipMask | slipGw
  | logEnable | logIp | logPort
  | netIpMode | netIpIp | netIpMask | netIpGw | netDhs
  deriving DecidableEq

abbrev Db := Key → Option (BitVec 32)

def clampTo (w : Nat) (low high : Int) (v : BitVec 32) : BitVec w :=
  if v.toInt < low then BitVec.ofInt w low
  else if v.toInt > high then BitVec.ofInt w high
  else v.setWidth w

def clampI8 : BitVec 32 → Byte := clampTo 8 (-128) 127

def clampI16 : BitVec 32 → BitVec 16 := clampTo 16 (-32768) 32767

-- A key that is not there leaves the variable as it was.
def configdbGetI32 (db : Db) (k : Key) (old : BitVec 32) : BitVec 32 := (db k).getD old

def configdbGetI8 (db : Db) (k : Key) (old : Byte) : Byte := ((db k).map clampI8).getD old

def configdbGetI16 (db : Db) (k : Key) (old : BitVec 16) : BitVec 16 :=
  ((db k).map clampI16).getD old

-- `flash` says for which keys `fdb_kv_set_blob` succeeds.
def configdbSetI32 (flash : Key → Bool) (k : Key) (v : BitVec 32) (db : Db) : Int × Db :=
  if db k = some v then (0, db)
  else if flash k then (0, Function.update db k (some v))
  else (-3, db)

def configdbSetI8 (flash : Key → Bool) (k : Key) (v : Byte) : Db → Int × Db :=
  configdbSetI32 flash k (v.signExtend 32)

def configdbSetI16 (flash : Key → Bool) (k : Key) (v : BitVec 16) : Db → Int × Db :=
  configdbSetI32 flash k (v.signExtend 32)

structure HalowConfig where
  centralFreq : BitVec 16
  bandwidth : Byte
  mcs : Byte
  rfPower : Byte
  rfSuperPower : Byte
  deriving DecidableEq

structure SlipConfig where
  enabled : Bool
  baud : BitVec 32
  ip : Ip
  mask : Ip
  gw : Ip

structure LogConfig where
  enable : Bool
  ip : Ip
  port : BitVec 16

structure NetIpConfig where
  mode : BitVec 32
  ip : Ip
  mask : Ip
  gw : Ip

structure Lmac where
  freq : BitVec 16
  fixTxRate : Byte
  txMcs : Byte
  fallbackMcs : Byte
  mcastTxmcs : Byte
  bssBw : Byte
  mcastTxbw : Byte
  txBw : Byte
  txpower : Byte
  superPwr : Byte
  deriving DecidableEq

inductive Applied where
  | radio (cfg : HalowConfig)
  | uart (cfg : SlipConfig)
  | logger (cfg : LogConfig)
  | netif (cfg : NetIpConfig)
  | dhcpServer (on : Bool)

structure Node where
  db : Db
  lmac : Lmac
  applied : List Applied

structure Env where
  ops : Bool
  nif : Bool
  slipNetif : Bool
  malloc : Bool
  callback : Bool
  serverCallback : Bool
  flash : Key → Bool
  aton : String → Option Ip
  -- what an uninitialised `halow_config_t` holds
  stack : HalowConfig

def Node.apply (a : Applied) (n : Node) : Node := { n with applied := a :: n.applied }

-- None of the callers looks at the return code.
def Node.store (set : Db → Int × Db) (n : Node) : Node := { n with db := (set n.db).2 }

def halowConfigLoad (stack : HalowConfig) (db : Db) : HalowConfig where
  bandwidth := configdbGetI8 db .halowBand stack.bandwidth
  rfSuperPower := configdbGetI8 db .halowSpwr stack.rfSuperPower
  rfPower := configdbGetI8 db .halowPwr stack.rfPower
  mcs := configdbGetI8 db .halowMcs stack.mcs
  centralFreq := configdbGetI16 db .halowFreq stack.centralFreq

def clamp {w : Nat} (low high v : BitVec w) : BitVec w :=
  if v < low then low else if v > high then high else v

def halowCfgSanitize (cfg : HalowConfig) : HalowConfig where
  rfPower := clamp 1 20 cfg.rfPower
  rfSuperPower := if cfg.rfSuperPower ≠ 0 ∧ cfg.rfSuperPower ≠ 1 then 0 else cfg.rfSuperPower
  mcs := if cfg.mcs > 7 ∧ cfg.mcs ≠ 10 then 0 else cfg.mcs
  centralFreq := clamp 7300 10800 cfg.centralFreq
  bandwidth := if cfg.bandwidth ≠ 1 ∧ cfg.bandwidth ≠ 2 ∧ cfg.bandwidth ≠ 4 ∧ cfg.bandwidth ≠ 8
    then 1 else cfg.bandwidth

def halowConfigSetMcsRaw (mcs : Byte) (l : Lmac) : Lmac :=
  { l with fixTxRate := mcs, txMcs := mcs, fallbackMcs := mcs, mcastTxmcs := mcs }

def halowConfigSetBandwidthRaw (bw : Byte) (l : Lmac) : Lmac :=
  { l with bssBw := bw, mcastTxbw := bw, txBw := bw }

def halowConfigApply (env : Env) (cfg : HalowConfig) (n : Node) : Node :=
  if env.ops then
    let cfg := halowCfgSanitize cfg
    let lmac := halowConfigSetBandwidthRaw cfg.bandwidth
      (halowConfigSetMcsRaw cfg.mcs { n.lmac with freq := cfg.centralFreq })
    { n.apply (.radio cfg) with
      lmac := { lmac with txpower := cfg.rfPower, superPwr := cfg.rfSuperPower } }
  else n

-- The caller's values are stored, not those that were applied.
def halowConfigSave (env : Env) (cfg : HalowConfig) (n : Node) : Node :=
  halowConfigApply env cfg n
    |>.store (configdbSetI8 env.flash .halowBand cfg.bandwidth)
    |>.store (configdbSetI8 env.flash .halowSpwr cfg.rfSuperPower)
    |>.store (configdbSetI8 env.flash .halowPwr cfg.rfPower)
    |>.store (configdbSetI8 env.flash .halowMcs cfg.mcs)
    |>.store (configdbSetI16 env.flash .halowFreq cfg.centralFreq)

def postBandwidth (o : Body) (cfg : HalowConfig) : HalowConfig :=
  match getString o "bandwidth" with
  | some s =>
    let bw := atoi s.toList
    if bw > 0 ∧ bw < 64 then { cfg with bandwidth := BitVec.ofInt 8 bw } else cfg
  | none => cfg

def postMcs (o : Body) (cfg : HalowConfig) : HalowConfig :=
  match (getString o "mcs_index").map String.toList with
  | some ('M' :: 'C' :: 'S' :: rest) =>
    let m := atoi rest
    if m ≥ 0 ∧ (m ≤ 7 ∨ m = 10) then { cfg with mcs := BitVec.ofInt 8 m } else cfg
  | _ => cfg

def postPower (o : Body) (cfg : HalowConfig) : Except String HalowConfig :=
  match getNumber o "power_dbm" with
  | some ⟨i, _, _⟩ =>
    if i < 1 ∨ i > 25 then .error "power_dbm must be in range 1..25 dBm"
    else if i > 20 then .ok { cfg with rfSuperPower := 1, rfPower := BitVec.ofInt 8 (i - 5) }
    else .ok { cfg with rfSuperPower := 0, rfPower := BitVec.ofInt 8 i }
  | none => .ok cfg

def postFreq (o : Body) (cfg : HalowConfig) : HalowConfig :=
  match getNumber o "central_freq" with
  | some n => if n.positive then { cfg with centralFreq := n.tenths } else cfg
  | none => cfg

def halowCfgOf (stack : HalowConfig) (db : Db) (o : Body) : Except String HalowConfig := do
  let cfg ← postPower o (postMcs o (postBandwidth o (halowConfigLoad stack db)))
  pure (postFreq o cfg)

-- A body of `none` is one that is missing or not an object.
def webApiHalowCfgPost (env : Env) (body : Option Body) (n : Node) : Except String Unit × Node :=
  match body with
  | none => (.error "bad json", n)
  | some o =>
    match halowCfgOf env.stack n.db o with
    | .error msg => (.error msg, n)
    | .ok cfg => (.ok (), halowConfigSave env cfg (halowConfigApply env cfg n))

def addressOf (aton : String → Option Ip) (msg : String) (old : Ip) :
    Option Json → Except String Ip
  | none => .ok old
  | some (.string s) => ((aton s).map .ok).getD (.error msg)
  | some _ => .error msg

def maskValid (mask : Ip) : Bool :=
  let m := Dhcp.lwipHtonl mask
  m != 0 && (~~~m &&& (~~~m + 1)) == 0

def uartSlipConfigIsValid (cfg : SlipConfig) : Bool := cfg.baud != 0 && maskValid cfg.mask

def uartSlipConfigLoad (db : Db) : SlipConfig where
  enabled := configdbGetI32 db .slipEnable 1 != 0
  baud := configdbGetI32 db .slipBaud 2000000
  ip := configdbGetI32 db .slipIp 0x0207A8C0#32
  mask := configdbGetI32 db .slipMask 0xFFFFFFFF#32
  gw := configdbGetI32 db .slipGw 0x0107A8C0#32

def uartSlipConfigSave (env : Env) (cfg : SlipConfig) (n : Node) : Node :=
  if uartSlipConfigIsValid cfg then
    n.store (configdbSetI32 env.flash .slipEnable (if cfg.enabled then 1 else 0))
      |>.store (configdbSetI32 env.flash .slipBaud cfg.baud)
      |>.store (configdbSetI32 env.flash .slipIp cfg.ip)
      |>.store (configdbSetI32 env.flash .slipMask cfg.mask)
      |>.store (configdbSetI32 env.flash .slipGw cfg.gw)
  else n

def uartSlipConfigApply (env : Env) (cfg : SlipConfig) (n : Node) : Node :=
  if uartSlipConfigIsValid cfg && env.malloc && env.callback && env.slipNetif then
    n.apply (.uart cfg)
  else n

def baudOf (old : BitVec 32) : Option Number → Except String (BitVec 32)
  | none => .ok old
  | some n => if n.valueint < 1 then .error "bad baud" else .ok (BitVec.ofInt 32 n.valueint)

def slipCfgOf (aton : String → Option Ip) (db : Db) (o : Body) : Except String SlipConfig := do
  let cfg := uartSlipConfigLoad db
  let baud ← baudOf cfg.baud (getNumber o "baud")
  let ip ← addressOf aton "bad ip" cfg.ip (o.lookup "ip")
  let mask ← addressOf aton "bad mask" cfg.mask (o.lookup "mask")
  let gw ← addressOf aton "bad gw" cfg.gw (o.lookup "gw")
  pure ⟨(getBool o "enable").getD cfg.enabled, baud, ip, mask, gw⟩

def webApiSlipCfgPost (env : Env) (body : Option Body) (n : Node) : Except String Unit × Node :=
  match body with
  | none => (.error "bad json", n)
  | some o =>
    match slipCfgOf env.aton n.db o with
    | .error msg => (.error msg, n)
    | .ok cfg => (.ok (), uartSlipConfigApply env cfg (uartSlipConfigSave env cfg n))

def netLogConfigIsValid (cfg : LogConfig) : Bool := cfg.port != 0

def netLogConfigLoad (db : Db) : LogConfig where
  enable := configdbGetI32 db .logEnable 1 != 0
  ip := configdbGetI32 db .logIp 0x0107A8C0#32
  port := (configdbGetI32 db .logPort 5000).setWidth 16

def netLogConfigSave (env : Env) (cfg : LogConfig) (n : Node) : Node :=
  if netLogConfigIsValid cfg then
    n.store (configdbSetI32 env.flash .logEnable (if cfg.enable then 1 else 0))
      |>.store (configdbSetI32 env.flash .logIp cfg.ip)
      |>.store (configdbSetI32 env.flash .logPort (cfg.port.setWidth 32))
  else n

def netLogConfigApply (cfg : LogConfig) (n : Node) : Node :=
  if netLogConfigIsValid cfg then n.apply (.logger cfg) else n

def portOf (old : BitVec 16) : Option Number → Except String (BitVec 16)
  | none => .ok old
  | some n =>
    if n.valueint < 1 ∨ n.valueint > 65535 then .error "bad port"
    else .ok (BitVec.ofInt 16 n.valueint)

def logCfgOf (aton : String → Option Ip) (db : Db) (o : Body) : Except String LogConfig := do
  let cfg := netLogConfigLoad db
  let ip ← addressOf aton "bad host" cfg.ip ((o.lookup "host").or (o.lookup "ip_address"))
  let port ← portOf cfg.port (getNumber o "port")
  pure ⟨((getBool o "udp_enable").or (getBool o "enable")).getD cfg.enable, ip, port⟩

def webApiLogCfgPost (env : Env) (body : Option Body) (n : Node) : Except String Unit × Node :=
  match body with
  | none => (.error "bad json", n)
  | some o =>
    match logCfgOf env.aton n.db o with
    | .error msg => (.error msg, n)
    | .ok cfg => (.ok (), netLogConfigApply cfg (netLogConfigSave env cfg n))

def netIpModeDhcp : BitVec 32 := 0#32
def netIpModeStatic : BitVec 32 := 1#32

def netIpConfigSetDefault : NetIpConfig := ⟨netIpModeDhcp, 0x2A2AA8C0#32, 0x00FFFFFF#32, 0#32⟩

def netIpConfigIsValid (cfg : NetIpConfig) : Bool :=
  (cfg.mode == netIpModeDhcp || cfg.mode == netIpModeStatic) &&
    (cfg.mode != netIpModeStatic || maskValid cfg.mask)

def netIpConfigLoad (db : Db) : NetIpConfig :=
  let cfg := { netIpConfigSetDefault with mode := configdbGetI32 db .netIpMode netIpModeDhcp }
  if cfg.mode = netIpModeStatic then
    { cfg with
      ip := configdbGetI32 db .netIpIp cfg.ip
      mask := configdbGetI32 db .netIpMask cfg.mask
      gw := configdbGetI32 db .netIpGw cfg.gw }
  else cfg

def netIpConfigSave (env : Env) (cfg : NetIpConfig) (n : Node) : Node :=
  if netIpConfigIsValid cfg then
    let n := n.store (configdbSetI32 env.flash .netIpMode cfg.mode)
    if cfg.mode = netIpModeStatic then
      n.store (configdbSetI32 env.flash .netIpIp cfg.ip)
        |>.store (configdbSetI32 env.flash .netIpMask cfg.mask)
        |>.store (configdbSetI32 env.flash .netIpGw cfg.gw)
    else n
  else n

def netIpConfigApply (env : Env) (cfg : NetIpConfig) (n : Node) : Node :=
  if env.nif && netIpConfigIsValid cfg && env.malloc && env.callback then n.apply (.netif cfg)
  else n

def netDhcpdSetEnabled (env : Env) (en : Bool) : Node → Node :=
  Node.store (configdbSetI32 env.flash .netDhs (if en then 1 else 0))

def netDhcpdOnNetcfg (env : Env) (n : Node) : Node :=
  if env.serverCallback then n.apply (.dhcpServer (configdbGetI32 n.db .netDhs 0 != 0)) else n

def shortString (o : Body) (k : String) : String :=
  ((getString o k).map fun s => String.ofList (s.toList.take 15)).getD ""

def netCfgOf (aton : String → Option Ip) (db : Db) (o : Body) : Except String NetIpConfig :=
  if (o.lookup "dhcp").isSome then
    if (getBool o "dhcp").getD false then .ok { netIpConfigSetDefault with mode := netIpModeDhcp }
    else
      match aton (shortString o "ip_address") with
      | none => .error "bad ip_address"
      | some ip =>
        match aton (shortString o "netmask") with
        | none => .error "bad netmask"
        | some mask =>
          match aton (shortString o "gw_address") with
          | none => .error "bad gw_address"
          | some gw => .ok ⟨netIpModeStatic, ip, mask, gw⟩
  else .ok (netIpConfigLoad db)

def webApiNetCfgPost (env : Env) (body : Option Body) (n : Node) : Except String Unit × Node :=
  match body with
  | none => (.error "bad json", n)
  | some o =>
    match netCfgOf env.aton n.db o with
    | .error msg => (.error msg, n)
    | .ok cfg =>
      let n := netIpConfigSave env cfg (netIpConfigApply env cfg n)
      if (o.lookup "dhcp_srv").isSome then
        let srv := (getBool o "dhcp_srv").getD false
        if srv ∧ cfg.mode = netIpModeDhcp then (.error "DHCP server requires static IP mode", n)
        else (.ok (), netDhcpdOnNetcfg env (netDhcpdSetEnabled env srv n))
      else (.ok (), netDhcpdOnNetcfg env n)

inductive Request where
  | halow | slip | log | net

def post : Request → Env → Option Body → Node → Except String Unit × Node
  | .halow => webApiHalowCfgPost
  | .slip => webApiSlipCfgPost
  | .log => webApiLogCfgPost
  | .net => webApiNetCfgPost

end RnodeHalow.Config
