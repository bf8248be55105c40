import RnodeHalow.Dhcp.Leases

set_option autoImplicit false

namespace RnodeHalow.Dhcp

def Gives (st : State) (q : Req) (now : Millis) (ip : Ip) : Prop :=
  ∃ reply, (dhcpdDecide st q now).2 = some reply ∧
    (reply.type = .offer ∨ reply.type = .ack) ∧ reply.ip = ip

inductive Regrants (st : State) (k : Slot) (q : Req) (now : Millis) : Prop
  | reoffer (asked : q.msgtype = .discover) (found : st.leaseByMac q.mac = some k)
      (live : ¬(st.leases k).Expired now)
  | renew (asked : q.msgtype = .request) (found : st.leaseByMac q.mac = some k)
      (names : q.reqIp = 0 ∨ q.reqIp = st.poolIp k.val)
  | offer (asked : q.msgtype = .discover)
      (stale : ∀ j, st.leaseByMac q.mac = some j → (st.leases j).Expired now)
      (free : (st.leases k).used = false) (inPool : k.val < st.poolSize.toNat)
      (first : ∀ j < k, (st.leases j).used = true)
  | claim (asked : q.msgtype = .request) (missing : st.leaseByMac q.mac = none)
      (free : (st.leases k).used = false) (inPool : k.val < st.poolSize.toNat)
      (names : q.reqIp = st.poolIp k.val) (requestable : st.requestable q.reqIp = true)

section Replies

variable {st : State} {q : Req} {now : Millis} {k : Slot}

theorem reoffered_eq (asked : q.msgtype = .discover) (found : st.leaseByMac q.mac = some k)
    (live : ¬(st.leases k).Expired now) :
    dhcpdDecide st q now = (st, some ⟨.offer, (st.leases k).ip⟩) := by
  have known : (st.leaseByMac q.mac).filter (fun k => !decide ((st.leases k).Expired now)) =
      some k := by
    simp [found, Option.filter, live]
  simp only [dhcpdDecide, asked, decideDiscover, known]

theorem offered_eq (asked : q.msgtype = .discover)
    (stale : ∀ j, st.leaseByMac q.mac = some j → (st.leases j).Expired now)
    (picked : st.leaseFreePick now = some k) : dhcpdDecide st q now =
      (st.give k q.mac (st.poolIp k.val) now, some ⟨.offer, st.poolIp k.val⟩) := by
  have unknown : (st.leaseByMac q.mac).filter (fun k => !decide ((st.leases k).Expired now)) =
      none := by
    rw [Option.filter_eq_none_iff]
    intro j found
    simp [stale j found]
  simp only [dhcpdDecide, asked, decideDiscover, unknown, picked]

theorem renewed_eq (asked : q.msgtype = .request) (found : st.leaseByMac q.mac = some k)
    (names : q.reqIp = 0 ∨ q.reqIp = (st.leases k).ip) : dhcpdDecide st q now =
      (st.put k { st.leases k with expiresMs := st.deadline now },
        some ⟨.ack, (st.leases k).ip⟩) := by
  have agree : (if q.reqIp ≠ 0 then q.reqIp else (st.leases k).ip) = (st.leases k).ip := by
    split
    next named => exact names.resolve_left named
    next => rfl
  simp only [dhcpdDecide, asked, decideRequest, found, agree, ne_eq, not_true_eq_false, if_false]

theorem claimed_eq (asked : q.msgtype = .request) (missing : st.leaseByMac q.mac = none)
    (found : st.requestedSlot q.reqIp now = some k) :
    dhcpdDecide st q now = (st.give k q.mac q.reqIp now, some ⟨.ack, q.reqIp⟩) := by
  simp only [dhcpdDecide, asked, decideRequest, missing, found]

theorem leaseFreePick_free (free : (st.leases k).used = false) : st.leaseFreePick now = some k ↔
    k.val < st.poolSize.toNat ∧ ∀ j < k, (st.leases j).used = true := by
  unfold State.leaseFreePick
  constructor
  · intro picked
    rcases Option.or_eq_some_iff.mp picked with picked | ⟨none, expired⟩
    · obtain ⟨hit, first⟩ := Fin.find?_eq_some_iff.mp picked
      simp only [Bool.and_eq_true, decide_eq_true_eq] at hit
      refine ⟨hit.1, ?_⟩
      intro j before
      have below : j.val < st.poolSize.toNat := lt_trans before hit.1
      simpa [below] using first j before
    · -- The free slot itself would have been found.
      have hit := (Fin.find?_eq_some_iff.mp expired).1
      have miss := Fin.find?_eq_none_iff.mp none k
      simp only [Bool.and_eq_true, decide_eq_true_eq] at hit
      simp [hit.1, free] at miss
  · rintro ⟨inPool, first⟩
    apply Option.or_eq_some_iff.mpr
    refine .inl (Fin.find?_eq_some_iff.mpr ⟨by simp [inPool, free], ?_⟩)
    intro j before
    simp [first j before]

theorem requestedSlot_inPool {ip : Ip} (found : st.requestedSlot ip now = some k) :
    k.val < st.poolSize.toNat ∧ st.requestable ip = true := by
  unfold State.requestedSlot at found
  split at found
  next requestable =>
    have hit := (Fin.find?_eq_some_iff.mp found).1
    simp only [Bool.and_eq_true, decide_eq_true_eq] at hit
    exact ⟨hit.1.1, requestable⟩
  next => cases found

variable (now) in
theorem requestedSlot_free (free : (st.leases k).used = false)
    (inPool : k.val < st.poolSize.toNat) (requestable : st.requestable (st.poolIp k.val) = true) :
    st.requestedSlot (st.poolIp k.val) now = some k := by
  unfold State.requestedSlot
  rw [if_pos requestable, Fin.find?_eq_some_iff]
  refine ⟨by simp [inPool, free], ?_⟩
  intro j before
  have other : st.poolIp j.val ≠ st.poolIp k.val :=
    fun same => ne_of_lt before (poolIp_injective st same)
  simp [other]

end Replies

structure Declined (k : Slot) (e : Millis) (st : State) : Prop where
  natural : Natural st
  lease : (st.leases k).used = true → (st.leases k).expiresMs = e

section Declined

variable {k : Slot} {e : Millis} {st : State} {now : Millis}

theorem Declined.free (declined : Declined k e st) (before : now < e)
    (vacant : (st.leases k).Vacant now) : (st.leases k).used = false := by
  rcases vacant with free | expired
  · exact free
  · by_contra used
    rw [Bool.not_eq_false] at used
    rw [Lease.Expired, declined.lease used] at expired
    exact absurd before (BitVec.not_lt.mpr expired)

theorem Declined.gives_iff (declined : Declined k e st) (before : now < e) (q : Req) :
    Gives st q now (st.poolIp k.val) ↔ Regrants st k q now := by
  constructor
  · rintro ⟨reply, answered, kind, same⟩
    have outcome := dhcpdDecide_outcome st q now
    generalize dhcpdDecide st q now = out at outcome answered
    cases outcome with
    | silent => cases answered
    | forgot j found => cases answered
    | reoffered j asked found live =>
      cases answered
      change (st.leases j).ip = _ at same
      rw [declined.natural j (leaseByMac_some found).1] at same
      obtain rfl := poolIp_injective st same
      exact .reoffer asked found live
    | offered j asked stale picked =>
      cases answered
      obtain rfl := poolIp_injective st same
      have free := declined.free before (leaseFreePick_vacant picked)
      obtain ⟨inPool, first⟩ := (leaseFreePick_free free).mp picked
      exact .offer asked stale free inPool first
    | renewed j asked found names =>
      cases answered
      have own := declined.natural j (leaseByMac_some found).1
      rw [own] at names
      change (st.leases j).ip = _ at same
      rw [own] at same
      obtain rfl := poolIp_injective st same
      exact .renew asked found names
    | claimed j asked missing found =>
      cases answered
      obtain rfl := poolIp_injective st same
      obtain ⟨names, vacant⟩ := requestedSlot_vacant found
      obtain ⟨inPool, requestable⟩ := requestedSlot_inPool found
      exact .claim asked missing (declined.free before vacant) inPool names.symm requestable
    | refused asked =>
      cases answered
      rcases kind with kind | kind <;> cases kind
  · intro regrants
    cases regrants with
    | reoffer asked found live =>
      refine ⟨_, congrArg Prod.snd (reoffered_eq asked found live), .inl rfl, ?_⟩
      exact declined.natural k (leaseByMac_some found).1
    | renew asked found names =>
      have own := declined.natural k (leaseByMac_some found).1
      rw [← own] at names
      exact ⟨_, congrArg Prod.snd (renewed_eq asked found names), .inr rfl, own⟩
    | offer asked stale free inPool first =>
      have picked : st.leaseFreePick now = some k := (leaseFreePick_free free).mpr ⟨inPool, first⟩
      exact ⟨_, congrArg Prod.snd (offered_eq asked stale picked), .inl rfl, rfl⟩
    | claim asked missing free inPool names requestable =>
      have found := requestedSlot_free now free inPool (names ▸ requestable)
      rw [← names] at found
      exact ⟨_, congrArg Prod.snd (claimed_eq asked missing found), .inr rfl, names⟩

theorem Declined.put {st : State} (declined : Declined k e st) {j : Slot} {l : Lease}
    (natural : Natural (st.put j l)) (other : j ≠ k ∨ l.used = false) :
    Declined k e (st.put j l) := by
  refine ⟨natural, ?_⟩
  intro used
  by_cases same : j = k
  · subst same
    rw [put_same] at used
    exact absurd used (by simp [other.resolve_left (not_not_intro rfl)])
  · rw [put_other _ _ _ (Ne.symm same)] at used ⊢
    exact declined.lease used

theorem Declined.decide (declined : Declined k e st) (q : Req)
    (withheld : ¬Gives st q now (st.poolIp k.val)) : Declined k e (dhcpdDecide st q now).1 := by
  have natural := dhcpdDecide_natural declined.natural q now
  have outcome := dhcpdDecide_outcome st q now
  unfold Gives at withheld
  generalize dhcpdDecide st q now = out at outcome withheld natural ⊢
  cases outcome with
  | silent | reoffered | refused => exact declined
  | forgot j found => exact declined.put natural (.inr rfl)
  | offered j asked stale picked =>
    apply declined.put natural
    left
    rintro rfl
    exact withheld ⟨_, rfl, .inl rfl, rfl⟩
  | renewed j asked found names =>
    apply declined.put natural
    left
    rintro rfl
    exact withheld ⟨_, rfl, .inr rfl, declined.natural j (leaseByMac_some found).1⟩
  | claimed j asked missing found =>
    apply declined.put natural
    left
    rintro rfl
    exact withheld ⟨_, rfl, .inr rfl, rfl⟩

end Declined

theorem Declined.reached {k : Slot} {e : Millis} {start st : State} {last : Millis}
    (declined : Declined k e start)
    (run : Reached (fun st q now => ¬Regrants st k q now) start st last) (before : last < e) :
    Declined k e st := by
  induction run with
  | start now => exact declined
  | step q run later fine ih =>
    have kept := ih (Nat.lt_of_le_of_lt later before)
    apply kept.decide
    rw [kept.gives_iff before]
    exact fine

theorem declined_withheld_iff (serverIp netmask poolBase : Ip) (poolSize : Byte) (st : State)
    (last : Millis)
    (run : Reached AnyMessage (dhcpdStateInit serverIp netmask poolBase poolSize) st last) :
    ∀ (k : Slot) (d : Req) (t : Millis), last ≤ t → (st.leases k).Live t → d.msgtype = .decline →
      d.mac = (st.leases k).mac →
      ∀ (st' : State) (last' : Millis),
        Reached (fun st q now => ¬Regrants st k q now) (dhcpdDecide st d t).1 st' last' →
        ∀ (q : Req) (now : Millis), last' ≤ now → now < (st.leases k).expiresMs →
          (Gives st' q now (st.leases k).ip ↔ Regrants st' k q now) := by
  intro k d t later live declines own st' last' rest q now after before
  have declined : Declined k (st.leases k).expiresMs st := ⟨run.natural, fun _ => rfl⟩
  have silent : ¬Gives st d t (st.poolIp k.val) := by
    rintro ⟨reply, answered, -⟩
    rw [dhcpdDecide, declines] at answered
    cases answered
  have reached := (declined.decide d silent).reached rest (Nat.lt_of_le_of_lt after before)
  have address : (st.leases k).ip = st'.poolIp k.val := by
    rw [run.natural k live.1, State.poolIp, State.poolIp, rest.poolBase, dhcpdDecide_poolBase]
  rw [address]
  exact reached.gives_iff before q

def firstSlot : Slot := ⟨0, by decide⟩

def secondSlot : Slot := ⟨1, by decide⟩

def declineFrom (mac : Mac) : Req := ⟨.decline, 0, mac, 0⟩

def twoClients : State :=
  (dhcpdDecide (dhcpdDecide fourAddresses (discoverFrom (clientMac 1)) 0).1
    (discoverFrom (clientMac 2)) 0).1

theorem twoClients_reached : Reached AnyMessage fourAddresses twoClients 0 :=
  .step _ (.step _ (.start 0) (by decide) trivial) (by decide) trivial

theorem declined_withheld_iff_twoClients :
    ¬Gives (dhcpdDecide twoClients (declineFrom (clientMac 2)) 10).1 (discoverFrom (clientMac 1)) 20
      0xC0A800C9#32 := by
  have given_iff := declined_withheld_iff 0xC0A80001#32 0xFFFFFF00#32 0xC0A800C8#32 4 twoClients 0
    twoClients_reached secondSlot (declineFrom (clientMac 2)) 10 (by decide) (by decide +kernel) rfl
    (by decide +kernel) _ 10 (.start 10) (discoverFrom (clientMac 1)) 20 (by decide)
    (by decide +kernel)
  have address : (twoClients.leases secondSlot).ip = 0xC0A800C9#32 := by decide +kernel
  have found : (dhcpdDecide twoClients (declineFrom (clientMac 2)) 10).1.leaseByMac (clientMac 1) =
      some firstSlot := by decide +kernel
  have live :
      ¬((dhcpdDecide twoClients (declineFrom (clientMac 2)) 10).1.leases firstSlot).Expired 20 := by
    decide +kernel
  rw [address] at given_iff
  rw [given_iff]
  intro regrants
  cases regrants with
  | reoffer asked found' live' =>
    have same := found.symm.trans found'
    cases same
  | renew asked found' names => cases asked
  | offer asked stale free inPool first => exact live (stale firstSlot found)
  | claim asked missing free inPool names requestable => cases asked

theorem declined_offered_again :
    Reached AnyMessage fourAddresses twoClients 0 ∧ (twoClients.leases secondSlot).Live 10 ∧
      (twoClients.leases secondSlot).mac = clientMac 2 ∧
      (twoClients.leases secondSlot).ip = 0xC0A800C9#32 ∧
      (twoClients.leases secondSlot).expiresMs = 43200000 ∧
      (dhcpdDecide (dhcpdDecide twoClients (declineFrom (clientMac 2)) 10).1
        (discoverFrom (clientMac 3)) 20).2 = some ⟨.offer, 0xC0A800C9#32⟩ :=
  ⟨twoClients_reached, by decide +kernel⟩

end RnodeHalow.Dhcp
