import RnodeHalow.Dhcp.Packets
import Mathlib.Tactic.IntervalCases

set_option autoImplicit false

-- The first octet of an lwIP address is the lowest byte of the word, and `pool_ip` adds the slot to
-- it; `put32` writes the highest byte first. So every address leaves with its octets reversed.

namespace RnodeHalow.Dhcp

open Octets

structure Ip4 where
  o0 : Byte
  o1 : Byte
  o2 : Byte
  o3 : Byte
  deriving DecidableEq, Repr

def Ip4.bytes (a : Ip4) : List Byte := [a.o0, a.o1, a.o2, a.o3]

def Ip4.addr (a : Ip4) : Ip := word a.o3 a.o2 a.o1 a.o0

def netmaskOf (p : Nat) : Ip4 :=
  let m := BitVec.allOnes 32 <<< (32 - p)
  ⟨octet m 3, octet m 2, octet m 1, octet m 0⟩

def lwipHtonl (x : BitVec 32) : BitVec 32 :=
  (x &&& 0x000000FF#32) <<< 24 ||| (x &&& 0x0000FF00#32) <<< 8 |||
    (x &&& 0x00FF0000#32) >>> 8 ||| (x &&& 0xFF000000#32) >>> 24

inductive IpMode where
  | dhcp
  | static
  deriving DecidableEq, Repr

structure NetIf where
  ip : Ip
  mask : Ip
  mode : IpMode
  dhs : Int

def dhcpdLeaseMs : Nat := 12 * 60 * 60 * 1000
def dhcpdPoolSize : Byte := 4#8
def dhcpdPoolTail : BitVec 32 := 200#32

def netDhcpdEnabledCfg (dhs : Int) : Bool := dhs != 0

def netDhcpdFillState (net : NetIf) : Option State :=
  if net.ip = 0#32 ∨ net.mask = 0#32 then none
  else if net.mode ≠ .static then none
  else if netDhcpdEnabledCfg net.dhs = false then none
  else some
    { serverIp := net.ip
      netmask := net.mask
      poolBase := (net.ip &&& net.mask) ||| lwipHtonl dhcpdPoolTail
      poolSize := dhcpdPoolSize
      leaseMs := BitVec.ofNat 32 dhcpdLeaseMs
      leases := fun _ => .zero }

def netDhcpdRecv (st : State) (now : Millis) (p : List Byte) : State × Option (List Byte) :=
  if p.length = 0 ∨ dhcpdPktMax < p.length then (st, none)
  else
    match dhcpdParse p with
    | none => (st, none)
    | some q =>
      match dhcpdDecide st q now with
      | (st', none) => (st', none)
      | (st', some reply) =>
        (st', dhcpdBuild dhcpdPktMax reply.type q.xid q.mac reply.ip st'.serverIp st'.netmask
          (BitVec.ofNat 32 (dhcpdLeaseMs / 1000)))

structure Requests (opts : List Opt) (y : List Byte) : Prop where
  type : (opts.find? Opt.isType).map Opt.value = some [MsgType.request.code]
  addr : (opts.reverse.find? Opt.isReqIp).map Opt.value = some y

theorem Requests.parsed {opts : List Opt} {y : List Byte} (asks : Requests opts y) (f : Fixed)
    (short : (clientPacket f opts).length ≤ dhcpdPktMax) :
    dhcpdParse (clientPacket f opts) =
      some ⟨.request, get32 f.bytes 4, macAt f.bytes 28, get32 y 0⟩ := by
  obtain ⟨t, found, value⟩ := Option.map_eq_some_iff.mp asks.type
  obtain ⟨a, named, bytes⟩ := Option.map_eq_some_iff.mp asks.addr
  rw [dhcpdParse_clientPacket short, read_msgtype, read_reqIp, found, named]
  simp only [Found.nothing, Option.map_some, Option.or_some, Option.getD_some, value, bytes]
  rfl

structure RightAddresses (iface mask : Ip4) (slot : Slot) (type : MsgType) (pkt : List Byte) :
    Prop where
  subnet : ∀ k < 4, byteAt (yiaddrOf pkt) k &&& byteAt mask.bytes k =
    byteAt iface.bytes k &&& byteAt mask.bytes k
  tail : byteAt (yiaddrOf pkt) 3 = 200#8 + BitVec.ofNat 8 slot.val
  siaddr : siaddrOf pkt = iface.bytes
  serverid : optionOf pkt optServerid = some iface.bytes
  router : type = .ack → optionOf pkt optRouter = some iface.bytes
  netmask : type = .ack → optionOf pkt optSubnet = some mask.bytes

def RequestAccepted (st : State) (slot : Slot) (y : List Byte) : Prop :=
  ∀ (f : Fixed) (opts : List Opt) (now : Millis), Requests opts y →
    (clientPacket f opts).length ≤ dhcpdPktMax →
    (netDhcpdRecv st now (clientPacket f opts)).2 =
      dhcpdBuild dhcpdPktMax .ack (get32 f.bytes 4) (macAt f.bytes 28) (st.poolIp slot.val)
        st.serverIp st.netmask (BitVec.ofNat 32 (dhcpdLeaseMs / 1000)) ∧
    ((netDhcpdRecv st now (clientPacket f opts)).1.leases slot).used = true ∧
    ((netDhcpdRecv st now (clientPacket f opts)).1.leases slot).mac = macAt f.bytes 28

theorem put32_addr (a : Ip4) : put32 a.addr = [a.o3, a.o2, a.o1, a.o0] := by
  simp [put32_octets, Ip4.addr]

theorem put32_addr_eq_bytes (a : Ip4) : put32 a.addr = a.bytes ↔ a.o0 = a.o3 ∧ a.o1 = a.o2 := by
  rw [put32_addr, Ip4.bytes]
  simp only [List.cons.injEq, and_true]
  constructor
  · rintro ⟨outer, inner, -, -⟩
    exact ⟨outer.symm, inner.symm⟩
  · rintro ⟨outer, inner⟩
    exact ⟨outer.symm, inner.symm, inner, outer⟩

theorem State.poolIp_zero (st : State) : st.poolIp 0 = st.poolBase := by
  simp [State.poolIp]

theorem netmaskOf_ends {p : Nat} (low : 8 ≤ p) (high : p ≤ 24) :
    (netmaskOf p).o0 = BitVec.allOnes 8 ∧ (netmaskOf p).o3 = 0#8 := by
  interval_cases p <;> decide

section Filled

variable {iface : Ip4} {p : Nat} {net : NetIf} {st : State}

structure Serves (iface mask : Ip4) (st : State) : Prop where
  serverIp : st.serverIp = iface.addr
  netmask : st.netmask = mask.addr
  poolBase : st.poolBase = iface.addr &&& mask.addr ||| lwipHtonl dhcpdPoolTail
  poolSize : st.poolSize = dhcpdPoolSize
  leases : st.leases = fun _ => .zero

theorem netDhcpdFillState_serves {mask : Ip4} (ip : net.ip = iface.addr)
    (masked : net.mask = mask.addr) (filled : netDhcpdFillState net = some st) :
    Serves iface mask st := by
  unfold netDhcpdFillState at filled
  split at filled
  next => cases filled
  next =>
    split at filled
    next => cases filled
    next =>
      split at filled
      next => cases filled
      next =>
        cases filled
        exact ⟨ip, masked, by rw [ip, masked], rfl, rfl⟩

namespace Serves

variable {mask : Ip4} (serves : Serves iface mask st)
include serves

theorem poolBase_octets : octet st.poolBase 3 = iface.o3 &&& mask.o3 ||| 200#8 ∧
    octet st.poolBase 2 = iface.o2 &&& mask.o2 ∧ octet st.poolBase 1 = iface.o1 &&& mask.o1 ∧
    octet st.poolBase 0 = iface.o0 &&& mask.o0 := by
  rw [serves.poolBase, show lwipHtonl dhcpdPoolTail = word 200#8 0#8 0#8 0#8 by decide]
  simp [Ip4.addr]

-- The slot is added to the first octet of the address, not to the last.
theorem poolIp_first (slot : Nat) : octet (st.poolIp slot) 0 =
    (iface.o0 &&& mask.o0) + BitVec.ofNat 8 slot := by
  have low : octet (BitVec.ofNat 32 slot) 0 = BitVec.ofNat 8 slot := by
    simp [octet]
  rw [State.poolIp, octet_zero_add (by decide), serves.poolBase_octets.2.2.2, low]

theorem requestable_zero (tail : mask.o3 = 0#8) : st.requestable (st.poolIp 0) = true := by
  obtain ⟨top, third, second, first⟩ := serves.poolBase_octets
  rw [tail, BitVec.and_zero, BitVec.zero_or] at top
  have bound : st.poolBase.toNat < 2 ^ 32 - 4 := by
    have high := congrArg BitVec.toNat top
    simp only [octet, BitVec.toNat_setWidth, BitVec.toNat_ushiftRight, Nat.shiftRight_eq_div_pow,
      BitVec.toNat_ofNat] at high
    have total := st.poolBase.isLt
    omega
  have nonzero : st.poolBase ≠ 0#32 := by
    intro zero
    rw [zero] at top
    exact absurd top (by decide)
  have inside : st.poolBase &&& st.netmask = st.serverIp &&& st.netmask := by
    rw [serves.netmask, serves.serverIp]
    apply ext_octets
    · simp [Ip4.addr, tail]
    · simp [third, Ip4.addr, BitVec.and_assoc]
    · simp [second, Ip4.addr, BitVec.and_assoc]
    · simp [first, Ip4.addr, BitVec.and_assoc]
  have ends : st.poolBase < st.poolIp st.poolSize.toNat := by
    rw [serves.poolSize, State.poolIp, BitVec.lt_def, BitVec.toNat_add]
    simp only [dhcpdPoolSize, BitVec.toNat_ofNat]
    omega
  simp [State.requestable, State.poolIp, nonzero, inside]
  simpa [State.poolIp] using ends

theorem not_requestable (head : mask.o0 = BitVec.allOnes 8) {slot : Slot} (other : slot.val ≠ 0) :
    st.requestable (st.poolIp slot.val) = false := by
  have outside : st.poolIp slot.val &&& st.netmask ≠ st.serverIp &&& st.netmask := by
    intro same
    have first := congrArg (octet · 0) same
    rw [serves.netmask, serves.serverIp] at first
    simp only [octet_and, serves.poolIp_first, Ip4.addr, octet_word_zero, head] at first
    rw [BitVec.and_allOnes, BitVec.and_allOnes] at first
    have zero : BitVec.ofNat 8 slot.val = 0#8 := by simpa using first
    have value := congrArg BitVec.toNat zero
    have slot_lt : slot.val < 4 := slot.isLt
    simp only [BitVec.toNat_ofNat] at value
    exact other (by omega)
  simp [State.requestable, outside]

theorem requestedSlot_zero (tail : mask.o3 = 0#8) (now : Millis) :
    st.requestedSlot (st.poolIp 0) now = some ⟨0, by decide⟩ := by
  rw [State.requestedSlot, if_pos (serves.requestable_zero tail)]
  refine Fin.find?_eq_some_iff.mpr ⟨?_, ?_⟩
  · simp [serves.poolSize, dhcpdPoolSize, serves.leases, Lease.zero]
  · intro j before
    exact absurd before (Nat.not_lt_zero _)

theorem leaseByMac_none (mac : Mac) : st.leaseByMac mac = none := by
  apply Fin.find?_eq_none_iff.mpr
  intro k
  simp [serves.leases, Lease.zero]

end Serves

theorem netDhcpdRecv_request {f : Fixed} {opts : List Opt} {y : List Byte} {now : Millis}
    (asks : Requests opts y) (short : (clientPacket f opts).length ≤ dhcpdPktMax)
    {st' : State} {reply : Reply}
    (decided : decideRequest st ⟨.request, get32 f.bytes 4, macAt f.bytes 28, get32 y 0⟩ now =
      (st', some reply)) :
    netDhcpdRecv st now (clientPacket f opts) =
      (st', dhcpdBuild dhcpdPktMax reply.type (get32 f.bytes 4) (macAt f.bytes 28) reply.ip
        st'.serverIp st'.netmask (BitVec.ofNat 32 (dhcpdLeaseMs / 1000))) := by
  have long := clientPacket_length f opts
  rw [netDhcpdRecv, if_neg (by omega), asks.parsed f short]
  simp only [dhcpdDecide, decided]

def plainFixed : Fixed where
  bytes := [dhcpOpRequest, 1#8, 6#8] ++ List.replicate 233 0#8 ++ dhcpMagic
  length_eq := by
    rw [List.length_append, List.length_append, List.length_replicate]
    rfl
  op := rfl
  htype := rfl
  hlen := rfl
  magic := by rfl

def plainRequest (y : List Byte) (fits : y.length < 256) : List Opt :=
  [⟨optMsgtype, [MsgType.request.code], by decide, by decide, by decide⟩,
    ⟨optReqIp, y, by decide, by decide, fits⟩]

theorem plainRequest_requests {y : List Byte} (four : y.length = 4) :
    Requests (plainRequest y (by omega)) y where
  type := by simp [plainRequest, Opt.isType]
  addr := by simp [plainRequest, Opt.isReqIp, four]

theorem Serves.requestAccepted_iff {mask : Ip4} (serves : Serves iface mask st)
    (head : mask.o0 = BitVec.allOnes 8) (tail : mask.o3 = 0#8) (slot : Slot) :
    RequestAccepted st slot (put32 (st.poolIp slot.val)) ↔ slot.val = 0 := by
  constructor
  · intro accepted
    by_contra other
    have asks := plainRequest_requests (y := put32 (st.poolIp slot.val)) rfl
    have short : (clientPacket plainFixed
        (plainRequest (put32 (st.poolIp slot.val)) (show 4 < 256 by decide))).length ≤ dhcpdPktMax := by
      rw [clientPacket_length]
      exact (show 240 + (9 + 1) ≤ 548 by decide)
    have given := accepted plainFixed _ 0 asks short
    have refused : decideRequest st ⟨.request, get32 plainFixed.bytes 4,
        macAt plainFixed.bytes 28, get32 (put32 (st.poolIp slot.val)) 0⟩ 0 =
        (st, some nakReply) := by
      simp only [decideRequest, serves.leaseByMac_none, get32_put32, State.requestedSlot,
        serves.not_requestable head other]
      rfl
    rw [netDhcpdRecv_request asks short refused] at given
    have unused := given.2.1
    rw [serves.leases] at unused
    cases unused
  · intro first f opts now asks short
    obtain rfl : slot = ⟨0, by decide⟩ := Fin.ext first
    have granted : decideRequest st ⟨.request, get32 f.bytes 4, macAt f.bytes 28,
        get32 (put32 (st.poolIp 0)) 0⟩ now =
        (st.give ⟨0, by decide⟩ (macAt f.bytes 28) (st.poolIp 0) now, some ⟨.ack, st.poolIp 0⟩) := by
      simp only [decideRequest, serves.leaseByMac_none, get32_put32,
        serves.requestedSlot_zero tail]
    rw [netDhcpdRecv_request asks short granted]
    refine ⟨rfl, ?_, ?_⟩
    · simp [State.give]
    · simp [State.give]

section Replies

variable {slot : Slot} {type : MsgType} {xid : BitVec 32} {mac : Mac} {leaseS : BitVec 32}
  {pkt : List Byte} {mask : Ip4}

structure Symmetric (iface mask : Ip4) : Prop where
  first : iface.o0 = 200#8
  last : iface.o3 = 200#8
  inner : iface.o1 = iface.o2
  masked : iface.o1 &&& mask.o1 = iface.o1 &&& mask.o2

theorem Serves.symmetric (serves : Serves iface mask st) (head : mask.o0 = BitVec.allOnes 8)
    (built : dhcpdBuild dhcpdPktMax type xid mac (st.poolIp slot.val) st.serverIp st.netmask leaseS =
      some pkt) (right : RightAddresses iface mask slot type pkt) (first : slot.val = 0) :
    Symmetric iface mask := by
  have both := right.siaddr
  rw [dhcpdBuild_siaddr built, serves.serverIp, put32_addr_eq_bytes] at both
  have last := right.tail
  rw [dhcpdBuild_yiaddr built, put32_octets] at last
  have starts : iface.o0 = 200#8 := by
    have added : octet (st.poolIp slot.val) 0 = 200#8 + BitVec.ofNat 8 slot.val := last
    rw [serves.poolIp_first, head, BitVec.and_allOnes] at added
    simpa using added
  have inside := right.subnet
  rw [dhcpdBuild_yiaddr built, put32_octets, first, st.poolIp_zero] at inside
  have second : iface.o2 &&& mask.o2 &&& mask.o1 = iface.o1 &&& mask.o1 :=
    serves.poolBase_octets.2.1 ▸ inside 1 (by decide)
  have third : iface.o1 &&& mask.o1 &&& mask.o2 = iface.o2 &&& mask.o2 :=
    serves.poolBase_octets.2.2.1 ▸ inside 2 (by decide)
  refine ⟨starts, both.1 ▸ starts, both.2, ?_⟩
  calc iface.o1 &&& mask.o1
      = iface.o2 &&& mask.o2 &&& mask.o1 := second.symm
    _ = iface.o1 &&& mask.o1 &&& mask.o2 := by
      rw [both.2, BitVec.and_assoc, BitVec.and_comm mask.o2, BitVec.and_assoc]
    _ = iface.o1 &&& mask.o2 := by rw [third, both.2]

theorem Serves.ack_wrong (serves : Serves iface mask st) (head : mask.o0 = BitVec.allOnes 8)
    (tail : mask.o3 = 0#8)
    (built : dhcpdBuild dhcpdPktMax .ack xid mac (st.poolIp slot.val) st.serverIp st.netmask leaseS =
      some pkt) : ¬RightAddresses iface mask slot .ack pkt := by
  intro right
  have netmask := right.netmask rfl
  rw [dhcpdBuild_subnet built, serves.netmask, Option.some.injEq, put32_addr_eq_bytes, head,
    tail] at netmask
  exact absurd netmask.1 (by decide)

theorem Serves.offer_right (serves : Serves iface mask st) (head : mask.o0 = BitVec.allOnes 8)
    (tail : mask.o3 = 0#8) (symmetric : Symmetric iface mask) (first : slot.val = 0)
    (built : dhcpdBuild dhcpdPktMax .offer xid mac (st.poolIp slot.val) st.serverIp st.netmask
      leaseS = some pkt) : RightAddresses iface mask slot .offer pkt := by
  obtain ⟨starts, ends, inner, masked⟩ := symmetric
  have reads : put32 iface.addr = iface.bytes :=
    (put32_addr_eq_bytes iface).mpr ⟨starts.trans ends.symm, inner⟩
  have yiaddr : yiaddrOf pkt = [200#8, iface.o2 &&& mask.o2, iface.o1 &&& mask.o1, 200#8] := by
    obtain ⟨top, third, second, low⟩ := serves.poolBase_octets
    rw [dhcpdBuild_yiaddr built, first, st.poolIp_zero, put32_octets, top, third, second, low, head,
      tail, starts]
    simp
  refine ⟨?_, ?_, ?_, ?_, by simp, by simp⟩
  · rw [yiaddr]
    intro k inside
    interval_cases k
    · simp [byteAt, Ip4.bytes, starts]
    · change iface.o2 &&& mask.o2 &&& mask.o1 = iface.o1 &&& mask.o1
      rw [← inner, ← masked, BitVec.and_assoc, BitVec.and_self]
    · change iface.o1 &&& mask.o1 &&& mask.o2 = iface.o2 &&& mask.o2
      rw [masked, BitVec.and_assoc, BitVec.and_self, inner]
    · simp [byteAt, Ip4.bytes, ends]
  · rw [yiaddr, first]
    rfl
  · rw [dhcpdBuild_siaddr built, serves.serverIp, reads]
  · rw [dhcpdBuild_serverid built, serves.serverIp, reads]

end Replies

end Filled

-- Only an OFFER of the first slot, on an address 200.x.x.200 whose middle octets are both masked.
theorem dhcp_reply_right_iff {iface : Ip4} {p : Nat} (low : 8 ≤ p) (high : p ≤ 24) {net : NetIf}
    {st : State} (ip : net.ip = iface.addr) (mask : net.mask = (netmaskOf p).addr)
    (filled : netDhcpdFillState net = some st) (slot : Slot) {type : MsgType}
    (kind : type = .offer ∨ type = .ack) (xid : BitVec 32) (mac : Mac) :
    (∃ pkt, dhcpdBuild dhcpdPktMax type xid mac (st.poolIp slot.val) st.serverIp st.netmask
        (BitVec.ofNat 32 (dhcpdLeaseMs / 1000)) = some pkt ∧
      RightAddresses iface (netmaskOf p) slot type pkt ∧
      RequestAccepted st slot (yiaddrOf pkt)) ↔
    type = .offer ∧ slot.val = 0 ∧ Symmetric iface (netmaskOf p) := by
  have serves := netDhcpdFillState_serves ip mask filled
  obtain ⟨head, tail⟩ := netmaskOf_ends low high
  constructor
  · rintro ⟨pkt, built, right, accepted⟩
    rw [dhcpdBuild_yiaddr built] at accepted
    have first := (serves.requestAccepted_iff head tail slot).mp accepted
    have symmetric := serves.symmetric head built right first
    rcases kind with rfl | rfl
    · exact ⟨rfl, first, symmetric⟩
    · exact absurd right (serves.ack_wrong head tail built)
  · rintro ⟨rfl, first, symmetric⟩
    have room : (dhcpdBuild dhcpdPktMax .offer xid mac (st.poolIp slot.val) st.serverIp st.netmask
        (BitVec.ofNat 32 (dhcpdLeaseMs / 1000))).isSome = true := dhcpdBuild_isSome (by decide)
    obtain ⟨pkt, built⟩ := Option.isSome_iff_exists.mp room
    refine ⟨pkt, built, serves.offer_right head tail symmetric first built, ?_⟩
    rw [dhcpdBuild_yiaddr built]
    exact (serves.requestAccepted_iff head tail slot).mpr first

def staticNet (iface : Ip4) : NetIf := ⟨iface.addr, (netmaskOf 24).addr, .static, 1⟩

theorem dhcp_reply_right_palindrome :
    ∃ st, netDhcpdFillState (staticNet ⟨200#8, 7#8, 7#8, 200#8⟩) = some st ∧
    ∃ pkt, dhcpdBuild dhcpdPktMax .offer 1#32 ⟨2, 0, 0, 0, 0, 1⟩ (st.poolIp 0) st.serverIp st.netmask
        (BitVec.ofNat 32 (dhcpdLeaseMs / 1000)) = some pkt ∧
      RightAddresses ⟨200#8, 7#8, 7#8, 200#8⟩ (netmaskOf 24) ⟨0, by decide⟩ .offer pkt ∧
      RequestAccepted st ⟨0, by decide⟩ (yiaddrOf pkt) := by
  have filled : netDhcpdFillState (staticNet ⟨200#8, 7#8, 7#8, 200#8⟩) = some _ := rfl
  refine ⟨_, filled, ?_⟩
  refine (dhcp_reply_right_iff (by decide) (by decide) rfl rfl filled ⟨0, by decide⟩ (.inl rfl) 1#32
    ⟨2, 0, 0, 0, 0, 1⟩).mpr ⟨rfl, rfl, ?_⟩
  exact ⟨by decide, by decide, by decide, by decide⟩

theorem dhcp_reply_reversed :
    ∃ st, netDhcpdFillState (staticNet ⟨192#8, 168#8, 1#8, 1#8⟩) = some st ∧
      (∃ pkt, dhcpdBuild dhcpdPktMax .ack 1#32 ⟨2, 0, 0, 0, 0, 1⟩ (st.poolIp 0) st.serverIp
          st.netmask (BitVec.ofNat 32 (dhcpdLeaseMs / 1000)) = some pkt ∧
        yiaddrOf pkt = [200#8, 1#8, 168#8, 192#8] ∧ siaddrOf pkt = [1#8, 1#8, 168#8, 192#8] ∧
        optionOf pkt optRouter = some [1#8, 1#8, 168#8, 192#8] ∧
        optionOf pkt optSubnet = some [0#8, 255#8, 255#8, 255#8]) ∧
      ¬RequestAccepted st ⟨1, by decide⟩ (put32 (st.poolIp 1)) := by
  have filled : netDhcpdFillState (staticNet ⟨192#8, 168#8, 1#8, 1#8⟩) = some _ := rfl
  refine ⟨_, filled, ⟨_, rfl, ?_, ?_, ?_, ?_⟩, ?_⟩
  · decide +kernel
  · decide +kernel
  · decide +kernel
  · decide +kernel
  · have serves : Serves ⟨192#8, 168#8, 1#8, 1#8⟩ (netmaskOf 24) _ :=
      netDhcpdFillState_serves rfl rfl filled
    exact fun accepted => absurd ((serves.requestAccepted_iff (by decide) (by decide)
      ⟨1, by decide⟩).mp accepted) (by decide)

end RnodeHalow.Dhcp
