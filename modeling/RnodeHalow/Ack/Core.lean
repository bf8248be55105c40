import RnodeHalow.Ack.Entry
import RnodeHalow.Shared.Tally

set_option autoImplicit false

-- `Micro t` lists the moves of thread `t` on the core; every block of the code is a chain of them.

namespace RnodeHalow.Ack

open Resumption Tally
open Function (update)

variable {ρ : Type} [Platform ρ]

structure Counts where
  acked : BitVec 32
  dropped : BitVec 32
  dropDeadline : BitVec 32
  dropExhaust : BitVec 32
  dropThrottle : BitVec 32
  ackRttEwmaMs : Nat

def Stats.counts (st : Stats) : Counts :=
  ⟨st.acked, st.dropped, st.dropDeadline, st.dropExhaust, st.dropThrottle, st.ackRttEwmaMs⟩

inductive Landing where
  | acked
  | deadline
  | exhausted
  deriving DecidableEq, Repr

def Counts.land (n : Counts) : Landing → Counts
  | .acked => { n with acked := n.acked + 1 }
  | .deadline => { n with dropped := n.dropped + 1, dropDeadline := n.dropDeadline + 1 }
  | .exhausted => { n with dropped := n.dropped + 1, dropExhaust := n.dropExhaust + 1 }

def Counts.throttle (n : Counts) (nsub : Nat) : Counts :=
  { n with
    dropped := n.dropped + BitVec.ofNat 32 nsub
    dropThrottle := n.dropThrottle + BitVec.ofNat 32 nsub }

def Counts.reject (n : Counts) : Counts := { n with dropped := n.dropped + 1 }

structure Core where
  cfg : Config
  counts : Counts
  window : Nat
  cwnd : Nat
  bufs : BufIx → Option AckBuf
  peers : PeerIx → AckPeer
  usedN : Nat
  inflightN : Nat
  peersN : Nat
  heapBytes : Nat
  sender : BufIx → Nat
  trace : History
  clock : Nat

def core (b : Body ρ) : Core where
  cfg := b.cfg
  counts := b.stats.counts
  window := b.window
  cwnd := b.cwnd
  bufs := b.bufs
  peers := b.peers
  usedN := b.usedN
  inflightN := b.inflightN
  peersN := b.peersN
  heapBytes := b.heapBytes
  sender := b.sender
  trace := b.trace
  clock := Platform.jiffies b.plat

def latest (p : Event → Bool) : History → Option Nat
  | [] => none
  | (τ, e) :: older => if p e then some τ else latest p older

def lastSample (t : Nat) : History → Option Nat := latest fun e => e = .sampled t

def stampOf (j : BufIx) : History → Option Nat
  | [] => none
  | (τ, .txStamped k) :: older => if k = j then some τ else stampOf j older
  | (_, .txSampled t k) :: older => if k = j then lastSample t older else stampOf j older
  | _ :: older => stampOf j older

def cleared (t : Nat) (src : Mac) (payload : List Byte) : History → Bool
  | [] => false
  | (_, .heard u mac _ q retrans) :: older =>
    if u = t ∧ mac = src ∧ q = payload then !retrans else cleared t src payload older
  | (_, .delivered u mac q) :: older =>
    if u = t ∧ mac = src ∧ q = payload then false else cleared t src payload older
  | _ :: older => cleared t src payload older

namespace Core

def note (c : Core) (e : Event) : Core := { c with trace := (c.clock, e) :: c.trace }

def setBuf (c : Core) (j : BufIx) (buf : AckBuf) : Core :=
  { c with bufs := update c.bufs j (some buf) }

def setPeer (c : Core) (i : PeerIx) (p : AckPeer) : Core :=
  { c with peers := update c.peers i p }

def free (c : Core) (j : BufIx) (buf : AckBuf) : Core :=
  { c with
    inflightN := if buf.state = .staging then c.inflightN else c.inflightN - 1
    heapBytes := c.heapBytes - bufAllocSz buf.cap
    bufs := update c.bufs j none
    usedN := c.usedN - 1 }

def effWindow (c : Core) : Nat := if c.cwnd < c.window then c.cwnd else c.window

end Core

structure Place where
  inUse : Bool
  mac : Mac
  aggIdx : Option BufIx
  aggLen : Nat
  aggNsub : Nat
  aggFirstJiff : Jiffy
  txSeq : BitVec 16

def AckPeer.place (p : AckPeer) : Place :=
  ⟨p.inUse, p.mac, p.aggIdx, p.aggLen, p.aggNsub, p.aggFirstJiff, p.txSeq⟩

structure RxWindow where
  rxSeqLast : BitVec 16
  rxSeqWin : BitVec 64
  rxSeqSeen : Bool

def AckPeer.rxWindow (p : AckPeer) : RxWindow := ⟨p.rxSeqLast, p.rxSeqWin, p.rxSeqSeen⟩

def RxWindow.forget (w : RxWindow) : RxWindow := { w with rxSeqWin := 0, rxSeqSeen := false }

def SamePlace (p q : AckPeer) : Prop := q.place = p.place

namespace SamePlace

variable {p q : AckPeer} (same : SamePlace p q)
include same

theorem inUse : q.inUse = p.inUse := congrArg Place.inUse same
theorem mac : q.mac = p.mac := congrArg Place.mac same
theorem aggIdx : q.aggIdx = p.aggIdx := congrArg Place.aggIdx same
theorem aggLen : q.aggLen = p.aggLen := congrArg Place.aggLen same
theorem aggNsub : q.aggNsub = p.aggNsub := congrArg Place.aggNsub same
theorem aggFirstJiff : q.aggFirstJiff = p.aggFirstJiff := congrArg Place.aggFirstJiff same
theorem txSeq : q.txSeq = p.txSeq := congrArg Place.txSeq same

end SamePlace

def AckPeer.debt (p : AckPeer) : Bool × Mac × Bool × Jiffy :=
  (p.inUse, p.mac, p.ackDue, p.ackDueJiff)

def AckPeer.seat (p : AckPeer) : Place × RxWindow := (p.place, p.rxWindow)

def AckPeer.standing (p : AckPeer) : (Place × RxWindow) × (Bool × Mac × Bool × Jiffy) :=
  (p.seat, p.debt)

def Event.actor : Event → Option Nat
  | .appended t _ _ => some t
  | .bundled t _ _ => some t
  | .holdDropped t _ _ _ => some t
  | .txSampled t _ => some t
  | .sampled t => some t
  | .deadlineDropped t _ _ => some t
  | .retried t _ _ => some t
  | .heard t _ _ _ _ => some t
  | .delivered t _ _ => some t
  | _ => none

def Event.opens (i : PeerIx) : Event → Bool
  | .opened k _ => k = i
  | _ => false

structure FreshPeer (p : AckPeer) (mac : Mac) : Prop where
  inUse : p.inUse = true
  mac : p.mac = mac
  aggIdx : p.aggIdx = none
  txSeq : p.txSeq = 0
  rxSeqSeen : p.rxSeqSeen = false

def AckPeer.aggOpen (p : AckPeer) (j : BufIx) (first : Jiffy) : AckPeer :=
  { p with aggIdx := some j, aggLen := ackAggReserve, aggNsub := 0, aggFirstJiff := first }

def AckPeer.aggGrow (p : AckPeer) (len : Nat) : AckPeer :=
  { p with aggLen := p.aggLen + 2 + len, aggNsub := p.aggNsub + 1 }

def AckPeer.nextSeq (p : AckPeer) : AckPeer :=
  { aggClear p with txSeq := (takeSeq p.txSeq).2 }

def AckBuf.writeSub (buf : AckBuf) (ofs : Nat) (payload : List Byte) : AckBuf :=
  let len := BitVec.ofNat 16 payload.length
  { buf with data := writeAt (writeAt buf.data ofs [lo8 len, hi8 len]) (ofs + 2) payload }

def Core.stageAt (c : Core) (i : PeerIx) (j : BufIx) (blk : HeapBlock) (cap n₁ n₂ : Nat) : Core :=
  { c with
    bufs := update c.bufs j
      (some (freshBuf blk .staging j (c.peers i).mac cap (BitVec.ofNat 32 n₁)))
    peers := update c.peers i ((c.peers i).aggOpen j (BitVec.ofNat 32 n₂))
    usedN := c.usedN + 1
    heapBytes := c.heapBytes + bufAllocSz cap
    trace := (n₂, .stamped i) :: (n₁, .born j) :: c.trace
    clock := n₂ }

def Core.appendAt (c : Core) (t : Nat) (i : PeerIx) (j : BufIx) (buf : AckBuf)
    (payload : List Byte) : Core :=
  ((c.setBuf j (buf.writeSub (c.peers i).aggLen payload)).setPeer i
    ((c.peers i).aggGrow payload.length)).note (.appended t i payload)

def sealBuf (p : AckPeer) (buf : AckBuf) (tx born : Jiffy) : AckBuf :=
  let data := writeAt buf.data 0 (bundleHdr (takeSeq p.txSeq).1 p.aggNsub)
  { buf with
    state := .sending
    retriesUsed := 0
    txJiff := tx
    bornJiff := born
    seq := (takeSeq p.txSeq).1
    ofs := 0
    len := p.aggLen
    data := data
    fid := frameFid (data.take p.aggLen) }

def plainBuf (blk : HeapBlock) (j : BufIx) (mac : Mac) (payload : List Byte)
    (tx born : Jiffy) : AckBuf :=
  { freshBuf blk .sending j mac payload.length born with
    txJiff := tx
    len := payload.length
    data := payload
    fid := frameFid payload }

theorem peerRxSeq_place (undefinedShl : Nat → BitVec 32) (p : AckPeer) (seq : BitVec 16) :
    SamePlace p (peerRxSeq undefinedShl p seq) := by
  unfold SamePlace peerRxSeq
  dsimp only
  repeat' split
  all_goals rfl

-- No slot is taken, filled or freed, and no payload is staged, heard or delivered.
inductive Calm (c : Core) : Core → Prop
  | elapse (n : Nat) : c.clock ≤ n → Calm c { c with clock := n }
  | air (data : List Byte) (dest : Mac) (mcs tid : Byte) : Calm c (c.note (.txP data dest mcs tid))
  | peer (i : PeerIx) (p : AckPeer) : SamePlace (c.peers i) p →
      p.rxWindow = (c.peers i).rxWindow → Calm c (c.setPeer i p)
  | kick (j : BufIx) (buf : AckBuf) (due : Jiffy) : c.bufs j = some buf →
      buf.state = .inflight → Calm c ((c.setBuf j { buf with txJiff := due }).note (.kicked j))
  | opened (i : PeerIx) (p : AckPeer) (mac : Mac) : FreshPeer p mac →
      (∀ k, (c.peers k).inUse = true → (c.peers k).mac ≠ mac) →
      ((c.peers i).inUse = true → ∀ j buf, c.bufs j = some buf → buf.destMac ≠ (c.peers i).mac) →
      Calm c ({ c.setPeer i p with
        peersN := if (c.peers i).inUse then c.peersN else c.peersN + 1 }.note (.opened i mac))
  | governor (n : Nat) : 1 ≤ n → (n ≤ c.cwnd ∨ n ≤ c.window) → Calm c { c with cwnd := n }
  | measured (n : Nat) : Calm c { c with counts := { c.counts with ackRttEwmaMs := n } }
  | forget (i : PeerIx) (p : AckPeer) (mac : Mac) : (c.peers i).inUse = true →
      (c.peers i).mac = mac → SamePlace (c.peers i) p →
      p.rxWindow = (c.peers i).rxWindow.forget → Calm c ((c.setPeer i p).note (.forgot i mac))

inductive Micro (t : Nat) (c : Core) : Core → Prop
  | calm {c' : Core} : Calm c c' → Micro t c c'
  | sample : Micro t c (c.note (.sampled t))
  | accept (i : PeerIx) (payload : List Byte) : Micro t c (c.note (.bundled t i payload))
  | expire (j : BufIx) (buf : AckBuf) (life : Jiffy) (τ : Nat) : c.bufs j = some buf →
      buf.state = .inflight → lastSample t c.trace = some τ →
      life ≤ BitVec.ofNat 32 τ - buf.bornJiff →
      Micro t c (({ c.free j buf with counts := c.counts.land .deadline }.note (.landed j)).note
        (.deadlineDropped t j life))
  | due (j : BufIx) (buf : AckBuf) (backoff : Jiffy) (τ : Nat) : c.bufs j = some buf →
      buf.state = .inflight → lastSample t c.trace = some τ →
      backoff ≤ BitVec.ofNat 32 τ - buf.txJiff → Micro t c (c.note (.retried t j backoff))
  | stage (i : PeerIx) (j : BufIx) (blk : HeapBlock) (cap n₁ n₂ : Nat) (payload : List Byte) :
      (c.peers i).inUse = true → (c.peers i).aggIdx = none → c.bufs j = none →
      ackAggReserve + 2 + payload.length ≤ cap → cap ≤ ackWireMax → c.clock ≤ n₁ → n₁ ≤ n₂ →
      payload ≠ [] →
      Micro t c ((c.stageAt i j blk cap n₁ n₂).appendAt t i j
        (freshBuf blk .staging j (c.peers i).mac cap (BitVec.ofNat 32 n₁)) payload)
  | append (i : PeerIx) (j : BufIx) (buf : AckBuf) (payload : List Byte) :
      (c.peers i).inUse = true → (c.peers i).aggIdx = some j → c.bufs j = some buf →
      (c.peers i).aggLen + 2 + payload.length ≤ buf.cap → (c.peers i).aggNsub + 1 ≤ aggMaxSub →
      payload ≠ [] → Micro t c (c.appendAt t i j buf payload)
  | launch (i : PeerIx) (j : BufIx) (buf : AckBuf) (p : AckPeer) (n₁ n₂ n₃ : Nat) :
      (c.peers i).inUse = true → (c.peers i).aggIdx = some j → c.bufs j = some buf →
      c.inflightN < c.effWindow → c.clock ≤ n₁ → n₁ ≤ n₂ → n₂ ≤ n₃ →
      SamePlace (c.peers i).nextSeq p → p.rxWindow = (c.peers i).rxWindow →
      Micro t c { c with
        bufs := update c.bufs j (some (sealBuf (c.peers i) buf (BitVec.ofNat 32 n₁)
          (BitVec.ofNat 32 n₂)))
        peers := update c.peers i p
        inflightN := c.inflightN + 1
        sender := update c.sender j t
        trace := (n₃, .flushed i (takeSeq (c.peers i).txSeq).1
            ((sealBuf (c.peers i) buf 0 0).data.take (c.peers i).aggLen)) ::
          (n₂, .born j) :: (n₁, .txStamped j) :: c.trace
        clock := n₃ }
  | plain (i : PeerIx) (j : BufIx) (blk : HeapBlock) (payload : List Byte) (n₁ n₂ : Nat) :
      (c.peers i).inUse = true → c.bufs j = none → c.inflightN < c.effWindow →
      payload.length ≤ ackWireMax → c.clock ≤ n₁ → n₁ ≤ n₂ →
      Micro t c { c with
        bufs := update c.bufs j (some (plainBuf blk j (c.peers i).mac payload
          (BitVec.ofNat 32 n₂) (BitVec.ofNat 32 n₁)))
        usedN := c.usedN + 1
        heapBytes := c.heapBytes + bufAllocSz payload.length
        inflightN := c.inflightN + 1
        sender := update c.sender j t
        trace := (n₂, .txStamped j) :: (n₁, .born j) :: c.trace
        clock := n₂ }
  | touch (j : BufIx) (buf : AckBuf) (τ : Nat) : c.bufs j = some buf → buf.state = .inflight →
      lastSample t c.trace = some τ →
      Micro t c ((c.setBuf j { buf with
        retriesUsed := buf.retriesUsed + 1
        txJiff := BitVec.ofNat 32 τ }).note (.txSampled t j))
  | mark (j : BufIx) (buf : AckBuf) (τ : Nat) : c.bufs j = some buf → buf.state = .inflight →
      stampOf j c.trace = some τ → buf.txJiff = BitVec.ofNat 32 τ →
      Micro t c { c.setBuf j { buf with state := .sending } with
        sender := update c.sender j t }
  | handOff (j : BufIx) (buf : AckBuf) : c.bufs j = some buf → buf.state = .sending →
      c.sender j = t → Micro t c (c.note (.sent j))
  | sentOff (j : BufIx) (buf : AckBuf) : c.bufs j = some buf → buf.state = .sending →
      c.sender j = t → Micro t c (c.setBuf j { buf with state := .inflight })
  | release (j : BufIx) (buf : AckBuf) (why : Landing) : c.bufs j = some buf →
      buf.state = .inflight →
      Micro t c ({ c.free j buf with counts := c.counts.land why }.note (.landed j))
  | hold (i : PeerIx) (j : BufIx) (buf : AckBuf) (τ : Nat) : (c.peers i).inUse = true →
      (c.peers i).aggIdx = some j → c.bufs j = some buf → lastSample t c.trace = some τ →
      msJ ackAggMaxHoldMs ≤ BitVec.ofNat 32 τ - (c.peers i).aggFirstJiff →
      Micro t c { (((c.note (.holdDropped t i (c.peers i).aggNsub
        (buf.data.take (c.peers i).aggLen))).free j buf).setPeer i (aggClear (c.peers i))) with
        counts := c.counts.throttle (c.peers i).aggNsub }
  | reconfig (cfg : Config) (n : Nat) : cfg.Clamped → 1 ≤ n → n ≤ cfg.window →
      Micro t c ({ c with cfg := cfg, window := cfg.window, cwnd := n }.note
        (.windowed cfg.window))
  | reject (i : PeerIx) : Micro t c ({ c with counts := c.counts.reject }.note (.rejected i))
  | hear (i : PeerIx) (src : Mac) (payload : List Byte) (undefinedShl : Nat → BitVec 32) :
      (c.peers i).inUse = true → (c.peers i).mac = src →
      Micro t c ((c.setPeer i (peerRxSeq undefinedShl (c.peers i) (le16 payload 3))).note
        (.heard t src (some i) payload (seqRetrans (c.peers i) (le16 payload 3))))
  | meet (src : Mac) (payload : List Byte) :
      (∀ k, (c.peers k).inUse = true → (c.peers k).mac ≠ src) →
      Micro t c (c.note (.heard t src none payload false))
  | deliver (src : Mac) (payload : List Byte) :
      (isEnvFrame payload = true → cleared t src payload c.trace = true) →
      Micro t c (c.note (.delivered t src payload))

def Chain (t : Nat) : Core → Core → Prop := Relation.ReflTransGen (Micro t)

end RnodeHalow.Ack
