import RnodeHalow.Wire
import RnodeHalow.Shared.Mutex

set_option autoImplicit false

-- Stamps, sequence numbers, bit maps and statistics keep their width: they wrap visibly.

namespace RnodeHalow.Ack

abbrev Jiffy := BitVec 32

def ackBufN : Nat := 16
def ackDedupWin : Nat := ackFidsMax
def aggMaxSub : Nat := 8
def aggPayloadMax : Nat := 4000
def ackWireMax : Nat := aggPayloadMax + 6 + 2 * aggMaxSub
def ackAggReserve : Nat := 6
def ackTxVacancyLow : Nat := 8000
def ackSlotLifeMaxMs : Nat := 6000
def ackAggMaxHoldMs : Nat := 1000
def ackBackoffShiftMax : Nat := 3
def raMaxMcs : Byte := 7#8
def raEwmaW : Nat := 8
def raGraceMs : Nat := 2000
def raProbeCooldownMs : Nat := 10000
def raRetransStepQ8 : Nat := 8
def raStaleMs : Nat := 60000
def raCooldownMs : Nat := 500
def raStepGapMs : Nat := 1000
def ackMcsMax : Byte := 6#8
def bcRepeatMax : Nat := 3
def slotsMax : Nat := 16
def seqWindow : Nat := 64
def halowMcsDefault : Byte := 0xFF#8
def txThrottle : Int := -7

def osMsPeriodTick : Nat := 1

def msJ (ms : Nat) : Jiffy := BitVec.ofNat 32 (ms / osMsPeriodTick)

-- Slots, entries and the hashes of an entry are counted modulo 16.
instance neZero_sixteen : NeZero 16 := ⟨by decide⟩

abbrev BufIx := Fin 16
abbrev PeerIx := Fin 16

inductive BufState where
  | staging
  | inflight
  | sending
  deriving DecidableEq, Repr

structure AckBuf where
  state : BufState
  retriesUsed : Nat
  ofs : Nat
  idx : BufIx
  len : Nat
  cap : Nat
  fid : BitVec 16
  seq : BitVec 16
  destMac : Mac
  bornJiff : Jiffy
  txJiff : Jiffy
  data : List Byte

structure AckPeer where
  inUse : Bool
  mac : Mac
  curRetries : Nat
  txMcs : Byte
  evmEwma : Byte
  evmEwmaSlow : Byte
  lossQ8 : Nat
  tx : BitVec 32
  acked : BitVec 32
  dropped : BitVec 32
  txBytes : BitVec 32
  retransmitted : BitVec 32
  lastTxS : BitVec 32
  lastAckJiff : Jiffy
  acksSinceStep : BitVec 16
  nextStepAllowed : Jiffy
  lastSeen : Jiffy
  dedup : Fin 16 → BitVec 32
  dedupIdx : Fin 16
  rxSinceAck : BitVec 16
  ackDue : Bool
  ackDueJiff : Jiffy
  lastRxEvm : Byte
  -- `agg_idx - 1`; `none` is the stored 0 (nothing staged).
  aggIdx : Option BufIx
  aggLen : Nat
  aggNsub : Nat
  aggFirstJiff : Jiffy
  txSeq : BitVec 16
  rxSeqLast : BitVec 16
  rxSeqWin : BitVec 64
  rxSeqSeen : Bool
  createdJiff : Jiffy
  failedTop : Byte
  lastCollapseJiff : Jiffy

def AckPeer.zero : AckPeer where
  inUse := false
  mac := ⟨0, 0, 0, 0, 0, 0⟩
  curRetries := 0
  txMcs := 0
  evmEwma := 0
  evmEwmaSlow := 0
  lossQ8 := 0
  tx := 0
  acked := 0
  dropped := 0
  txBytes := 0
  retransmitted := 0
  lastTxS := 0
  lastAckJiff := 0
  acksSinceStep := 0
  nextStepAllowed := 0
  lastSeen := 0
  dedup := fun _ => 0
  dedupIdx := 0
  rxSinceAck := 0
  ackDue := false
  ackDueJiff := 0
  lastRxEvm := 0
  aggIdx := none
  aggLen := 0
  aggNsub := 0
  aggFirstJiff := 0
  txSeq := 0
  rxSeqLast := 0
  rxSeqWin := 0
  rxSeqSeen := false
  createdJiff := 0
  failedTop := 0
  lastCollapseJiff := 0

structure Config where
  maxRetries : Nat
  timeoutMs : Nat
  rateAdapt : Nat
  raLossUp : Nat
  raLossDown : Nat
  window : Nat
  ackFids : Nat
  agg : Nat
  aggBytes : Nat
  ackHoldMs : Nat
  bcRepeat : Nat
  deriving DecidableEq, Repr

structure Stats where
  txFrames : BitVec 32 := 0
  acked : BitVec 32 := 0
  retransmitted : BitVec 32 := 0
  dropped : BitVec 32 := 0
  acksSent : BitVec 32 := 0
  acksTxFail : BitVec 32 := 0
  acksRxDup : BitVec 32 := 0
  acksRxFrames : BitVec 32 := 0
  dropDeadline : BitVec 32 := 0
  dropExhaust : BitVec 32 := 0
  dropThrottle : BitVec 32 := 0
  envTxBundles : BitVec 32 := 0
  envRxBundles : BitVec 32 := 0
  envTxAcks : BitVec 32 := 0
  envRxAcks : BitVec 32 := 0
  rxEnvUnk : BitVec 32 := 0
  ackMcsLast : Byte := 0
  ackRttHits : BitVec 32 := 0
  ackRttSumMs : BitVec 32 := 0
  ackRttEwmaMs : Nat := 0
  noackHits : BitVec 32 := 0
  lastEvm : Byte := 0
  raAckCalls : BitVec 32 := 0
  raUpshifts : BitVec 32 := 0
  raDownshifts : BitVec 32 := 0
  raBlockedLoss : BitVec 32 := 0
  raBlockedGap : BitVec 32 := 0
  raBlockedMax : BitVec 32 := 0
  raBlkProbe : BitVec 32 := 0
  bcRepeats : BitVec 32 := 0
  heapFail : BitVec 32 := 0
  dbgPathBc : BitVec 32 := 0
  dbgPathPlain : BitVec 32 := 0
  dbgPathBundle : BitVec 32 := 0
  dbgPathPlainl : BitVec 32 := 0
  dbgLastDest : Mac := ⟨0, 0, 0, 0, 0, 0⟩

structure Cache where
  ackHoldJ : Jiffy
  staleJ : Jiffy
  quietJ : Jiffy
  busyJ : Jiffy
  stepGapJ : Jiffy
  dfltTtlJ : Jiffy
  raUpQ8 : Nat
  raDownQ8 : Nat

-- History of a run, kept for stating properties; no code reads it.
inductive Event where
  | nullDeref
  -- a write behind the end of a block
  | overrun
  | txP (data : List Byte) (dest : Mac) (mcs tid : Byte)
  -- `peer_create` (re)used entry `i`
  | opened (i : PeerIx) (mac : Mac)
  -- thread `t` wrote `payload` into the bundle staged for `i`
  | appended (t : Nat) (i : PeerIx) (payload : List Byte)
  -- `tx_bundle_locked` run by `t` returns 0 for the non-empty `payload`
  | bundled (t : Nat) (i : PeerIx) (payload : List Byte)
  -- the bundle of `i` got its sequence number
  | flushed (i : PeerIx) (seq : BitVec 16) (data : List Byte)
  -- `now_j()` was stored in `agg_first_jiff` of `i`
  | stamped (i : PeerIx)
  -- the hold timeout, run by `t`, dropped the bundle of `i` with its `nsub` payloads
  | holdDropped (t : Nat) (i : PeerIx) (nsub : Nat) (data : List Byte)
  -- `now_j()` was stored in `born_jiff` of slot `j`
  | born (j : BufIx)
  | txStamped (j : BufIx)
  -- the tick of `t` stored the time it sampled in `tx_jiff` of slot `j`
  | txSampled (t : Nat) (j : BufIx)
  | sent (j : BufIx)
  | kicked (j : BufIx)
  -- the tick of `t` sampled `now_j()`
  | sampled (t : Nat)
  -- the tick of `t` dropped slot `j`, `life` being the slot life it computed
  | deadlineDropped (t : Nat) (j : BufIx) (life : Jiffy)
  -- the tick of `t` found slot `j` due for another transmission after `backoff`
  | retried (t : Nat) (j : BufIx) (backoff : Jiffy)
  -- slot `j` left the in-flight state for good
  | landed (j : BufIx)
  | windowed (window : Nat)
  -- the bundle path of `i` turned away an empty payload
  | rejected (i : PeerIx)
  -- `peer_get` reset the receive window of `i`, the entry of `mac`
  | forgot (i : PeerIx) (mac : Mac)
  -- `rx_env` run by `t` looked at a bundle of `src`, known as `found`; `retrans` if consumed
  | heard (t : Nat) (src : Mac) (found : Option PeerIx) (payload : List Byte) (retrans : Bool)
  -- `rx_data` run by `t` decides to deliver `payload`
  | delivered (t : Nat) (src : Mac) (payload : List Byte)
  deriving DecidableEq, Repr

-- Newest first, each event with its time.
abbrev History := List (Nat × Event)

structure HeapBlock where
  data : Nat → Byte
  fid : BitVec 16
  txJiff : Jiffy

-- Everything the ACK layer calls. The tick counter never runs backwards, whatever is called.
class Platform (ρ : Type) where
  jiffies : ρ → Nat
  elapse : ρ → ρ
  osMalloc : Nat → ρ → Option HeapBlock × ρ
  osFree : ρ → ρ
  halowTxP : List Byte → Mac → Byte → Byte → ρ → Int × ρ
  halowGetTxVacancy : ρ → Nat × ρ
  halowTxVacancyWatchdog : ρ → ρ
  halowConfigLoadMcs : ρ → Byte × ρ
  timeS : ρ → BitVec 32 × ρ
  halowAckConfigSave : Config → ρ → ρ
  statisticsRadioRegisterTxPackage : Nat → ρ → ρ
  -- what the compiled `1u << n` gives for `n ≥ 32`, which C leaves undefined
  undefinedShl : Nat → BitVec 32
  elapse_le : ∀ r, jiffies r ≤ jiffies (elapse r)
  osMalloc_le : ∀ n r, jiffies r ≤ jiffies (osMalloc n r).2
  osFree_le : ∀ r, jiffies r ≤ jiffies (osFree r)
  halowTxP_le : ∀ d m c i r, jiffies r ≤ jiffies (halowTxP d m c i r).2
  halowGetTxVacancy_le : ∀ r, jiffies r ≤ jiffies (halowGetTxVacancy r).2
  halowTxVacancyWatchdog_le : ∀ r, jiffies r ≤ jiffies (halowTxVacancyWatchdog r)
  halowConfigLoadMcs_le : ∀ r, jiffies r ≤ jiffies (halowConfigLoadMcs r).2
  timeS_le : ∀ r, jiffies r ≤ jiffies (timeS r).2
  halowAckConfigSave_le : ∀ c r, jiffies r ≤ jiffies (halowAckConfigSave c r)
  statisticsRadioRegisterTxPackage_le :
    ∀ n r, jiffies r ≤ jiffies (statisticsRadioRegisterTxPackage n r)

-- One step down of a rate: from `mcs`, with this `ra_floor`, while this MCS was configured.
structure DownStep where
  peer : PeerIx
  mcs : Byte
  floor : Byte
  configured : Byte
  deriving DecidableEq, Repr

-- One run of `peer_get` that found its peer: the time, and the entry before and after.
structure Look where
  time : Nat
  peer : PeerIx
  rateAdapt : Nat
  before : AckPeer
  after : AckPeer

-- The `g_` variables, the platform, and ghosts: who set a slot SENDING, the history (newest first),
-- every MCS loaded, every step down and every look-up of a known peer.
structure Body (ρ : Type) where
  cfg : Config
  stats : Stats
  bufs : BufIx → Option AckBuf
  window : Nat
  cwnd : Nat
  peers : PeerIx → AckPeer
  usedN : Nat
  inflightN : Nat
  peersN : Nat
  heapBytes : Nat
  lastDataTxJiff : Jiffy
  cache : Cache
  dfltMcsCache : Byte
  dfltMcsJiff : Jiffy
  plat : ρ
  sender : BufIx → Nat
  trace : History
  loaded : List Byte
  downshifts : List DownStep
  looks : List Look

abbrev Node (ρ : Type) := Resumption.Locked (Body ρ)

abbrev Code (ρ : Type) := Resumption.Sec (Body ρ)

end RnodeHalow.Ack
