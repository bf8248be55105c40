import RnodeHalow.Wire

set_option autoImplicit false

namespace RnodeHalow.Dhcp

open Function (update update_of_ne update_self)

abbrev Ip := BitVec 32
abbrev Millis := BitVec 64

def dhcpdLeases : Nat := 4

abbrev Slot := Fin dhcpdLeases

inductive MsgType where
  | discover
  | offer
  | request
  | decline
  | ack
  | nak
  | release
  deriving DecidableEq, Repr

structure Req where
  msgtype : MsgType
  xid : BitVec 32
  mac : Mac
  reqIp : Ip
  deriving DecidableEq, Repr

structure Lease where
  used : Bool
  mac : Mac
  ip : Ip
  expiresMs : Millis
  deriving DecidableEq, Repr

structure State where
  serverIp : Ip
  netmask : Ip
  poolBase : Ip
  poolSize : Byte
  leaseMs : BitVec 32
  leases : Slot → Lease

structure Reply where
  type : MsgType
  ip : Ip
  deriving DecidableEq, Repr

def Lease.zero : Lease := ⟨false, ⟨0, 0, 0, 0, 0, 0⟩, 0, 0⟩

def dhcpdStateInit (serverIp netmask poolBase : Ip) (poolSize : Byte) : State where
  serverIp := serverIp
  netmask := netmask
  poolBase := poolBase
  poolSize := poolSize
  leaseMs := BitVec.ofNat 32 (12 * 60 * 60 * 1000)
  leases := fun _ => .zero

def Lease.Expired (l : Lease) (now : Millis) : Prop := l.expiresMs ≤ now

instance (l : Lease) (now : Millis) : Decidable (l.Expired now) :=
  inferInstanceAs (Decidable (_ ≤ _))

namespace State

def leaseByMac (st : State) (mac : Mac) : Option Slot :=
  Fin.find? fun k => (st.leases k).used && (st.leases k).mac == mac

def leaseFreePick (st : State) (now : Millis) : Option Slot :=
  let free := Fin.find? fun k : Slot => decide (k.val < st.poolSize.toNat) && !(st.leases k).used
  let expired := Fin.find? fun k : Slot =>
    decide (k.val < st.poolSize.toNat) && decide ((st.leases k).Expired now)
  free.or expired

def poolIp (st : State) (slot : Nat) : Ip := st.poolBase + BitVec.ofNat 32 slot

def deadline (st : State) (now : Millis) : Millis := now + st.leaseMs.setWidth 64

def put (st : State) (k : Slot) (l : Lease) : State :=
  { st with leases := update st.leases k l }

def give (st : State) (k : Slot) (mac : Mac) (ip : Ip) (now : Millis) : State :=
  st.put k ⟨true, mac, ip, st.deadline now⟩

def forget (st : State) (mac : Mac) : State :=
  match st.leaseByMac mac with
  | some k => st.put k { st.leases k with used := false }
  | none => st

def requestable (st : State) (ip : Ip) : Bool :=
  ip != 0 && decide (st.poolBase ≤ ip) && decide (ip < st.poolIp st.poolSize.toNat) &&
    ip &&& st.netmask == st.serverIp &&& st.netmask

def requestedSlot (st : State) (ip : Ip) (now : Millis) : Option Slot :=
  if st.requestable ip then
    Fin.find? fun k : Slot => decide (k.val < st.poolSize.toNat) && st.poolIp k.val == ip &&
      (!(st.leases k).used || decide ((st.leases k).Expired now))
  else none

end State

def nakReply : Reply := ⟨.nak, 0⟩

def decideDiscover (st : State) (q : Req) (now : Millis) : State × Option Reply :=
  let known := (st.leaseByMac q.mac).filter fun k => !decide ((st.leases k).Expired now)
  match known with
  | some k => (st, some ⟨.offer, (st.leases k).ip⟩)
  | none =>
    match st.leaseFreePick now with
    | none => (st, none)
    | some k => (st.give k q.mac (st.poolIp k.val) now, some ⟨.offer, st.poolIp k.val⟩)

def decideRequest (st : State) (q : Req) (now : Millis) : State × Option Reply :=
  match st.leaseByMac q.mac with
  | some k =>
    let l := st.leases k
    let ip := if q.reqIp ≠ 0 then q.reqIp else l.ip
    if ip ≠ l.ip then (st, some nakReply)
    else (st.put k { l with expiresMs := st.deadline now }, some ⟨.ack, l.ip⟩)
  | none =>
    match st.requestedSlot q.reqIp now with
    | some k => (st.give k q.mac q.reqIp now, some ⟨.ack, q.reqIp⟩)
    | none => (st, some nakReply)

def dhcpdDecide (st : State) (q : Req) (now : Millis) : State × Option Reply :=
  match q.msgtype with
  | .release => (st.forget q.mac, none)
  -- Declining an address gives the lease back in the same way.
  | .decline => (st.forget q.mac, none)
  | .discover => decideDiscover st q now
  | .request => decideRequest st q now
  | _ => (st, none)

def Lease.Live (l : Lease) (now : Millis) : Prop := l.used = true ∧ ¬l.Expired now

instance (l : Lease) (now : Millis) : Decidable (l.Live now) :=
  inferInstanceAs (Decidable (_ ∧ _))

def Lease.Vacant (l : Lease) (now : Millis) : Prop := l.used = false ∨ l.Expired now

theorem Lease.Vacant.not_live {l : Lease} {now : Millis} (vacant : l.Vacant now) : ¬l.Live now := by
  intro live
  rcases vacant with free | expired
  · rw [live.1] at free
    cases free
  · exact live.2 expired

section Slots

variable {st : State} {mac : Mac} {now : Millis} {k : Slot}

theorem leaseByMac_some (found : st.leaseByMac mac = some k) :
    (st.leases k).used = true ∧ (st.leases k).mac = mac ∧
      ∀ j < k, (st.leases j).used = true → (st.leases j).mac ≠ mac := by
  obtain ⟨hit, first⟩ := Fin.find?_eq_some_iff.mp found
  rw [Bool.and_eq_true, beq_iff_eq] at hit
  refine ⟨hit.1, hit.2, ?_⟩
  intro j before used same
  have miss := first j before
  simp [used, same] at miss

theorem leaseByMac_none (missing : st.leaseByMac mac = none) (j : Slot)
    (used : (st.leases j).used = true) : (st.leases j).mac ≠ mac := by
  intro same
  have miss := Fin.find?_eq_none_iff.mp missing j
  simp [used, same] at miss

theorem leaseByMac_eq_some (used : (st.leases k).used = true) (own : (st.leases k).mac = mac)
    (first : ∀ j < k, (st.leases j).used = true → (st.leases j).mac ≠ mac) :
    st.leaseByMac mac = some k := by
  refine Fin.find?_eq_some_iff.mpr ⟨by simp [used, own], ?_⟩
  intro j before
  rw [Bool.and_eq_false_iff, beq_eq_false_iff_ne]
  by_cases taken : (st.leases j).used = true
  · exact .inr (first j before taken)
  · exact .inl (Bool.not_eq_true _ ▸ taken)

theorem leaseFreePick_vacant (picked : st.leaseFreePick now = some k) :
    (st.leases k).Vacant now := by
  rcases Option.or_eq_some_iff.mp picked with free | ⟨-, expired⟩
  · have hit := (Fin.find?_eq_some_iff.mp free).1
    simp only [Bool.and_eq_true, Bool.not_eq_true'] at hit
    exact .inl hit.2
  · have hit := (Fin.find?_eq_some_iff.mp expired).1
    simp only [Bool.and_eq_true, decide_eq_true_eq] at hit
    exact .inr hit.2

theorem requestedSlot_vacant {ip : Ip} (found : st.requestedSlot ip now = some k) :
    st.poolIp k.val = ip ∧ (st.leases k).Vacant now := by
  unfold State.requestedSlot at found
  split at found
  · have hit := (Fin.find?_eq_some_iff.mp found).1
    simp only [Bool.and_eq_true, Bool.or_eq_true, Bool.not_eq_true', decide_eq_true_eq,
      beq_iff_eq] at hit
    exact ⟨hit.1.2, hit.2⟩
  · cases found

end Slots

inductive Outcome (st : State) (q : Req) (now : Millis) : State × Option Reply → Prop where
  | silent : Outcome st q now (st, none)
  | forgot (k : Slot) (found : st.leaseByMac q.mac = some k) :
      Outcome st q now (st.put k { st.leases k with used := false }, none)
  | reoffered (k : Slot) (asked : q.msgtype = .discover) (found : st.leaseByMac q.mac = some k)
      (live : ¬(st.leases k).Expired now) :
      Outcome st q now (st, some ⟨.offer, (st.leases k).ip⟩)
  | offered (k : Slot) (asked : q.msgtype = .discover)
      (stale : ∀ j, st.leaseByMac q.mac = some j → (st.leases j).Expired now)
      (picked : st.leaseFreePick now = some k) :
      Outcome st q now
        (st.give k q.mac (st.poolIp k.val) now, some ⟨.offer, st.poolIp k.val⟩)
  | renewed (k : Slot) (asked : q.msgtype = .request) (found : st.leaseByMac q.mac = some k)
      (names : q.reqIp = 0 ∨ q.reqIp = (st.leases k).ip) :
      Outcome st q now
        (st.put k { st.leases k with expiresMs := st.deadline now },
          some ⟨.ack, (st.leases k).ip⟩)
  | claimed (k : Slot) (asked : q.msgtype = .request) (missing : st.leaseByMac q.mac = none)
      (found : st.requestedSlot q.reqIp now = some k) :
      Outcome st q now (st.give k q.mac (st.poolIp k.val) now, some ⟨.ack, st.poolIp k.val⟩)
  | refused (asked : q.msgtype = .request) : Outcome st q now (st, some nakReply)

theorem forget_outcome (st : State) (q : Req) (now : Millis) :
    Outcome st q now (st.forget q.mac, none) := by
  unfold State.forget
  cases found : st.leaseByMac q.mac with
  | none => exact .silent
  | some k => exact .forgot k found

theorem decideDiscover_outcome (st : State) (q : Req) (now : Millis)
    (asked : q.msgtype = .discover) : Outcome st q now (decideDiscover st q now) := by
  unfold decideDiscover
  cases known : (st.leaseByMac q.mac).filter fun k => !decide ((st.leases k).Expired now) with
  | some k =>
    obtain ⟨found, live⟩ := Option.filter_eq_some_iff.mp known
    exact .reoffered k asked found (by simpa using live)
  | none =>
    have stale (j : Slot) (found : st.leaseByMac q.mac = some j) : (st.leases j).Expired now := by
      simpa [found, Option.filter] using known
    cases picked : st.leaseFreePick now with
    | none => exact .silent
    | some k => exact .offered k asked stale picked

theorem decideRequest_outcome (st : State) (q : Req) (now : Millis)
    (asked : q.msgtype = .request) : Outcome st q now (decideRequest st q now) := by
  unfold decideRequest
  cases found : st.leaseByMac q.mac with
  | some k =>
    dsimp only
    by_cases agree : (if q.reqIp ≠ 0 then q.reqIp else (st.leases k).ip) = (st.leases k).ip
    · rw [if_neg (not_not_intro agree)]
      refine .renewed k asked found ?_
      by_cases zero : q.reqIp = 0
      · exact .inl zero
      · rw [if_pos zero] at agree
        exact .inr agree
    · rw [if_pos agree]
      exact .refused asked
  | none =>
    cases slot : st.requestedSlot q.reqIp now with
    | some k =>
      have claimed := Outcome.claimed k asked found slot
      rw [(requestedSlot_vacant slot).1] at claimed
      exact claimed
    | none => exact .refused asked

theorem dhcpdDecide_outcome (st : State) (q : Req) (now : Millis) :
    Outcome st q now (dhcpdDecide st q now) := by
  unfold dhcpdDecide
  split
  next => exact forget_outcome st q now
  next => exact forget_outcome st q now
  next asked => exact decideDiscover_outcome st q now asked
  next asked => exact decideRequest_outcome st q now asked
  next => exact .silent

-- Messages arrive at non-decreasing times, and each meets `admits` in the state it arrives in.
inductive Reached (admits : State → Req → Millis → Prop) (start : State) : State → Millis → Prop
  | start (now : Millis) : Reached admits start start now
  | step {st : State} {last now : Millis} (q : Req) (run : Reached admits start st last)
      (later : last ≤ now) (fine : admits st q now) :
      Reached admits start (dhcpdDecide st q now).1 now

abbrev AnyMessage : State → Req → Millis → Prop := fun _ _ _ => True

section Frame

variable (st : State) (k : Slot) (l : Lease)

@[simp]
theorem put_same : (st.put k l).leases k = l := update_self ..

@[simp]
theorem put_other {j : Slot} (other : j ≠ k) : (st.put k l).leases j = st.leases j :=
  update_of_ne other ..

end Frame

theorem dhcpdDecide_poolBase (st : State) (q : Req) (now : Millis) :
    (dhcpdDecide st q now).1.poolBase = st.poolBase := by
  have outcome := dhcpdDecide_outcome st q now
  generalize dhcpdDecide st q now = out at outcome ⊢
  cases outcome <;> rfl

theorem dhcpdDecide_leaseMs (st : State) (q : Req) (now : Millis) :
    (dhcpdDecide st q now).1.leaseMs = st.leaseMs := by
  have outcome := dhcpdDecide_outcome st q now
  generalize dhcpdDecide st q now = out at outcome ⊢
  cases outcome <;> rfl

def Natural (st : State) : Prop :=
  ∀ k : Slot, (st.leases k).used = true → (st.leases k).ip = st.poolIp k.val

theorem Natural.put {st : State} (natural : Natural st) (k : Slot) (l : Lease)
    (own : l.used = true → l.ip = st.poolIp k.val) : Natural (st.put k l) := by
  intro j used
  by_cases same : j = k
  · subst same
    rw [put_same] at used ⊢
    exact own used
  · rw [put_other st k l same] at used ⊢
    exact natural j used

theorem dhcpdDecide_natural {st : State} (natural : Natural st) (q : Req) (now : Millis) :
    Natural (dhcpdDecide st q now).1 := by
  have outcome := dhcpdDecide_outcome st q now
  generalize dhcpdDecide st q now = out at outcome ⊢
  cases outcome with
  | silent | reoffered | refused => exact natural
  | forgot k found => exact natural.put k _ fun used => by cases used
  | offered k asked stale picked => exact natural.put k _ fun _ => rfl
  | renewed k asked found names =>
    exact natural.put k _ fun _ => natural k (leaseByMac_some found).1
  | claimed k asked missing found => exact natural.put k _ fun _ => rfl

theorem Reached.natural {admits : State → Req → Millis → Prop} {serverIp netmask poolBase : Ip}
    {poolSize : Byte} {st : State} {last : Millis}
    (run : Reached admits (dhcpdStateInit serverIp netmask poolBase poolSize) st last) :
    Natural st := by
  induction run with
  | start now =>
    intro k used
    cases used
  | step q run later fine ih => exact dhcpdDecide_natural ih q _

theorem Reached.poolBase {admits : State → Req → Millis → Prop} {start st : State}
    {last : Millis} (run : Reached admits start st last) : st.poolBase = start.poolBase := by
  induction run with
  | start now => rfl
  | step q run later fine ih => rw [dhcpdDecide_poolBase, ih]

theorem poolIp_injective (st : State) {i j : Slot} (same : st.poolIp i.val = st.poolIp j.val) :
    i = j := by
  have offsets : BitVec.ofNat 32 i.val = BitVec.ofNat 32 j.val := by
    simpa [State.poolIp] using same
  have i_lt : i.val < 4 := i.isLt
  have j_lt : j.val < 4 := j.isLt
  have values := congrArg BitVec.toNat offsets
  simp only [BitVec.toNat_ofNat] at values
  apply Fin.ext
  omega

theorem granted_slot {st : State} (natural : Natural st) {q : Req} {now : Millis} {reply : Reply}
    (answered : (dhcpdDecide st q now).2 = some reply) (granted : reply.type ≠ .nak) :
    ∃ k : Slot, reply.ip = st.poolIp k.val ∧
      ((st.leases k).Vacant now ∨ (st.leases k).mac = q.mac) ∧
      ((dhcpdDecide st q now).1.leases k).mac = q.mac := by
  have outcome := dhcpdDecide_outcome st q now
  generalize dhcpdDecide st q now = out at outcome answered ⊢
  cases outcome with
  | silent => cases answered
  | forgot k found => cases answered
  | reoffered k asked found live =>
    cases answered
    obtain ⟨used, own, -⟩ := leaseByMac_some found
    exact ⟨k, natural k used, .inr own, own⟩
  | offered k asked stale picked =>
    cases answered
    exact ⟨k, rfl, .inl (leaseFreePick_vacant picked), by simp [State.give]⟩
  | renewed k asked found names =>
    cases answered
    obtain ⟨used, own, -⟩ := leaseByMac_some found
    exact ⟨k, natural k used, .inr own, by simpa using own⟩
  | claimed k asked missing found =>
    cases answered
    exact ⟨k, rfl, .inl (requestedSlot_vacant found).2, by simp [State.give]⟩
  | refused asked =>
    cases answered
    exact absurd rfl granted

def Unclaimed (st : State) (mac : Mac) (ip : Ip) (now : Millis) : Prop :=
  ∀ j : Slot, (st.leases j).Live now → (st.leases j).ip = ip → (st.leases j).mac = mac

theorem Natural.unclaimed {st : State} (natural : Natural st) {mac : Mac} {now : Millis}
    {k : Slot} (held : (st.leases k).Vacant now ∨ (st.leases k).mac = mac) :
    Unclaimed st mac (st.poolIp k.val) now := by
  intro j live same
  rw [natural j live.1] at same
  obtain rfl := poolIp_injective st same
  rcases held with vacant | own
  · exact absurd live vacant.not_live
  · exact own

theorem lease_safety {serverIp netmask poolBase : Ip} {st : State} {last : Millis}
    (run : Reached AnyMessage (dhcpdStateInit serverIp netmask poolBase 4) st last) :
    (∀ k : Slot, (st.leases k).used = true →
      (st.leases k).ip = poolBase + BitVec.ofNat 32 k.val) ∧
    (∀ (now : Millis) (i j : Slot), (st.leases i).Live now → (st.leases j).Live now →
      (st.leases i).ip = (st.leases j).ip → i = j) ∧
    ∀ (q : Req) (now : Millis), last ≤ now → ∀ reply : Reply,
      (dhcpdDecide st q now).2 = some reply → reply.type = .offer ∨ reply.type = .ack →
      (∃ k : Slot, reply.ip = poolBase + BitVec.ofNat 32 k.val) ∧
      Unclaimed st q.mac reply.ip now ∧
      Unclaimed (dhcpdDecide st q now).1 q.mac reply.ip now := by
  have natural := run.natural
  have base : st.poolBase = poolBase := run.poolBase
  subst base
  refine ⟨natural, ?_, ?_⟩
  · intro now i j live_i live_j same
    rw [natural i live_i.1, natural j live_j.1] at same
    exact poolIp_injective st same
  · intro q now later reply answered kind
    have granted : reply.type ≠ .nak := by
      rcases kind with kind | kind <;> rw [kind] <;> decide
    obtain ⟨k, ip, before, after⟩ := granted_slot natural answered granted
    rw [ip]
    refine ⟨⟨k, rfl⟩, natural.unclaimed before, ?_⟩
    have kept : Unclaimed (dhcpdDecide st q now).1 q.mac (State.poolIp _ k.val) now :=
      (dhcpdDecide_natural natural q now).unclaimed (.inr after)
    rwa [State.poolIp, dhcpdDecide_poolBase] at kept

def fourAddresses : State := dhcpdStateInit 0xC0A80001#32 0xFFFFFF00#32 0xC0A800C8#32 4

def clientMac (n : Byte) : Mac := ⟨0x02#8, 0, 0, 0, 0, n⟩

def discoverFrom (mac : Mac) : Req := ⟨.discover, 0, mac, 0⟩

def requestFrom (mac : Mac) (ip : Ip) : Req := ⟨.request, 0, mac, ip⟩

theorem lease_safety_secondClient :
    let st := (dhcpdDecide fourAddresses (discoverFrom (clientMac 1)) 5).1
    (dhcpdDecide st (discoverFrom (clientMac 2)) 7).2 = some ⟨.offer, 0xC0A800C9#32⟩ ∧
      Unclaimed st (clientMac 2) 0xC0A800C9#32 7 := by
  have run : Reached AnyMessage fourAddresses
      (dhcpdDecide fourAddresses (discoverFrom (clientMac 1)) 5).1 5 :=
    .step _ (.start 5) (by decide) trivial
  have offered : (dhcpdDecide (dhcpdDecide fourAddresses (discoverFrom (clientMac 1)) 5).1
      (discoverFrom (clientMac 2)) 7).2 = some ⟨.offer, 0xC0A800C9#32⟩ := by decide +kernel
  exact ⟨offered, ((lease_safety run).2.2 _ 7 (by decide) _ offered (.inl rfl)).2.1⟩

end RnodeHalow.Dhcp
