import RnodeHalow.Dhcp.Leases

set_option autoImplicit false

namespace RnodeHalow.Dhcp

-- The slot that DISCOVER takes does not come after an expired lease of the same client.
def Unshadowed (st : State) (mac : Mac) (now : Millis) : Prop :=
  ∀ k j : Slot, st.leaseByMac mac = some k → (st.leases k).Expired now →
    st.leaseFreePick now = some j → j ≤ k

variable {st : State} {mac : Mac} {now last : Millis} {k : Slot}

theorem leaseByMac_le {j : Slot} (used : (st.leases j).used = true)
    (own : (st.leases j).mac = mac) : ∃ k ≤ j, st.leaseByMac mac = some k := by
  cases found : st.leaseByMac mac with
  | none => exact absurd own (leaseByMac_none found j used)
  | some k =>
    refine ⟨k, ?_, rfl⟩
    by_contra before
    exact (leaseByMac_some found).2.2 j (not_le.mp before) used own

theorem leaseByMac_give_first {ip : Ip} (first : ∀ i, st.leaseByMac mac = some i → k ≤ i) :
    (st.give k mac ip now).leaseByMac mac = some k := by
  apply leaseByMac_eq_some
  · simp [State.give]
  · simp [State.give]
  · intro j before used own
    rw [State.give, put_other _ _ _ (ne_of_lt before)] at used own
    obtain ⟨i, le, found⟩ := leaseByMac_le used own
    exact absurd (lt_of_le_of_lt le before) (not_lt.mpr (first i found))

theorem leaseByMac_give_later {ip : Ip} {i k : Slot} (found : st.leaseByMac mac = some i)
    (after : i < k) : (st.give k mac ip now).leaseByMac mac = some i := by
  obtain ⟨used, own, first⟩ := leaseByMac_some found
  have kept (j : Slot) (le : j ≤ i) : (st.give k mac ip now).leases j = st.leases j :=
    put_other _ _ _ (ne_of_lt (lt_of_le_of_lt le after))
  apply leaseByMac_eq_some
  · rw [kept i le_rfl]
    exact used
  · rw [kept i le_rfl]
    exact own
  · intro j before
    rw [kept j before.le]
    exact first j before

theorem request_acked_iff {r : Req} (asked : r.msgtype = .request)
    (found : st.leaseByMac r.mac = some k) :
    (dhcpdDecide st r now).2 = some ⟨.ack, r.reqIp⟩ ↔ (st.leases k).ip = r.reqIp := by
  have unfolded : dhcpdDecide st r now = decideRequest st r now := by rw [dhcpdDecide, asked]
  rw [unfolded, decideRequest, found]
  dsimp only
  by_cases zero : r.reqIp = 0
  · rw [if_neg (not_not_intro zero), if_neg (not_not_intro rfl)]
    simp
  · rw [if_pos zero]
    by_cases same : r.reqIp = (st.leases k).ip
    · rw [if_neg (not_not_intro same), same]
      simp
    · rw [if_pos same]
      have other : (st.leases k).ip ≠ r.reqIp := fun h => same h.symm
      simp [nakReply, other]

theorem offered_found (natural : Natural st) {q : Req} {ip : Ip}
    (offer : (dhcpdDecide st q now).2 = some ⟨.offer, ip⟩) :
    ∃ k : Slot, (dhcpdDecide st q now).1.leaseByMac q.mac = some k ∧
      (((dhcpdDecide st q now).1.leases k).ip = ip ↔ Unshadowed st q.mac now) := by
  have outcome := dhcpdDecide_outcome st q now
  generalize dhcpdDecide st q now = out at outcome offer ⊢
  cases outcome with
  | silent | forgot | renewed | claimed | refused => cases offer
  | reoffered k asked found live =>
    cases offer
    refine ⟨k, found, iff_of_true rfl ?_⟩
    intro i j found' expired
    rw [found] at found'
    cases found'
    exact absurd expired live
  | offered k asked stale picked =>
    cases offer
    by_cases fine : Unshadowed st q.mac now
    · have first (i : Slot) (found : st.leaseByMac q.mac = some i) : k ≤ i :=
        fine i k found (stale i found) picked
      refine ⟨k, leaseByMac_give_first first, iff_of_true ?_ fine⟩
      simp [State.give]
    · -- The slot taken comes after the stale lease, which is found first.
      have shadowed := fine
      simp only [Unshadowed, not_forall, not_le] at fine
      obtain ⟨i, j, found, expired, picked', after⟩ := fine
      rw [picked] at picked'
      cases picked'
      refine ⟨i, leaseByMac_give_later found after, iff_of_false ?_ shadowed⟩
      have used := (leaseByMac_some found).1
      rw [State.give, put_other _ _ _ (ne_of_lt after), natural i used]
      intro same
      exact ne_of_lt after (poolIp_injective st same)

def Careful (st : State) (q : Req) (now : Millis) : Prop :=
  q.msgtype = .discover → Unshadowed st q.mac now

def FirstOnly (st : State) (now : Millis) : Prop :=
  ∀ i j : Slot, i < j → (st.leases i).used = true → (st.leases j).used = true →
    (st.leases i).mac = (st.leases j).mac → (st.leases j).Expired now

theorem FirstOnly.later (firstOnly : FirstOnly st last) (later : last ≤ now) :
    FirstOnly st now := by
  intro i j before used_i used_j same
  exact BitVec.le_trans (firstOnly i j before used_i used_j same) later

theorem FirstOnly.put (firstOnly : FirstOnly st now) {l : Lease}
    (first : ∀ i, st.leaseByMac l.mac = some i → k ≤ i)
    (stale : ∀ j, k < j → (st.leases j).used = true → (st.leases j).mac = l.mac →
      (st.leases j).Expired now) : FirstOnly (st.put k l) now := by
  intro i j before used_i used_j same
  by_cases at_j : j = k
  · subst at_j
    have other : i ≠ j := ne_of_lt before
    rw [put_other _ _ _ other, put_same] at same
    rw [put_other _ _ _ other] at used_i
    obtain ⟨first', le, found⟩ := leaseByMac_le used_i same
    exact absurd (lt_of_le_of_lt le before) (not_lt.mpr (first first' found))
  · rw [put_other _ _ _ at_j] at used_j same ⊢
    by_cases at_i : i = k
    · subst at_i
      rw [put_same] at same
      exact stale j before used_j same.symm
    · rw [put_other _ _ _ at_i] at used_i same
      exact firstOnly i j before used_i used_j same

theorem FirstOnly.forget (firstOnly : FirstOnly st now) (k : Slot) :
    FirstOnly (st.put k { st.leases k with used := false }) now := by
  intro i j before used_i used_j same
  by_cases at_i : i = k
  · subst at_i
    rw [put_same] at used_i
    cases used_i
  · by_cases at_j : j = k
    · subst at_j
      rw [put_same] at used_j
      cases used_j
    · rw [put_other _ _ _ at_i] at used_i same
      rw [put_other _ _ _ at_j] at used_j same ⊢
      exact firstOnly i j before used_i used_j same

theorem FirstOnly.behind (firstOnly : FirstOnly st now) (found : st.leaseByMac mac = some k)
    (j : Slot) (after : k < j) (used : (st.leases j).used = true) (own : (st.leases j).mac = mac) :
    (st.leases j).Expired now := by
  obtain ⟨used_k, own_k, -⟩ := leaseByMac_some found
  exact firstOnly k j after used_k used (own_k.trans own.symm)

theorem dhcpdDecide_firstOnly (firstOnly : FirstOnly st last) (later : last ≤ now) (q : Req)
    (careful : Careful st q now) : FirstOnly (dhcpdDecide st q now).1 now := by
  have before := firstOnly.later later
  have outcome := dhcpdDecide_outcome st q now
  generalize dhcpdDecide st q now = out at outcome ⊢
  cases outcome with
  | silent | reoffered | refused => exact before
  | forgot k found => exact before.forget k
  | offered k asked stale picked =>
    apply before.put
    · intro i found
      exact careful asked i k found (stale i found) picked
    · intro j after used own
      obtain ⟨i, le, found⟩ := leaseByMac_le used own
      rcases eq_or_lt_of_le le with same | less
      · subst same
        exact stale i found
      · exact before.behind found j less used own
  | renewed k asked found names =>
    have own := (leaseByMac_some found).2.1
    apply before.put
    · intro i found'
      rw [own, found] at found'
      cases found'
      exact le_rfl
    · intro j after used same
      exact before.behind found j after used (same.trans own)
  | claimed k asked missing found =>
    apply before.put
    · intro i found'
      rw [missing] at found'
      cases found'
    · intro j after used own
      exact absurd own (leaseByMac_none missing j used)

theorem Reached.firstOnly {serverIp netmask poolBase : Ip} {poolSize : Byte}
    (run : Reached Careful (dhcpdStateInit serverIp netmask poolBase poolSize) st last) :
    FirstOnly st last := by
  induction run with
  | start now =>
    intro i j before used
    cases used
  | step q run later fine ih => exact dhcpdDecide_firstOnly ih later q fine

def OneEach (st : State) (now : Millis) : Prop :=
  ∀ i j : Slot, (st.leases i).Live now → (st.leases j).Live now →
    (st.leases i).mac = (st.leases j).mac → i = j

theorem FirstOnly.oneEach (firstOnly : FirstOnly st now) : OneEach st now := by
  intro i j live_i live_j same
  rcases lt_trichotomy i j with before | equal | after
  · exact absurd (firstOnly i j before live_i.1 live_j.1 same) live_j.2
  · exact equal
  · exact absurd (firstOnly j i after live_j.1 live_i.1 same.symm) live_i.2

theorem Reached.leaseMs {admits : State → Req → Millis → Prop} {start st : State}
    (run : Reached admits start st last) : st.leaseMs = start.leaseMs := by
  induction run with
  | start now => rfl
  | step q run later fine ih => rw [dhcpdDecide_leaseMs, ih]

theorem deadline_live (st : State) {l : Lease} (used : l.used = true)
    (until_deadline : l.expiresMs = st.deadline now) (lasting : 0 < st.leaseMs.toNat)
    (noWrap : now.toNat + st.leaseMs.toNat < 2 ^ 64) : l.Live now := by
  refine ⟨used, ?_⟩
  have width : st.leaseMs.toNat < 2 ^ 32 := st.leaseMs.isLt
  simp only [Lease.Expired, until_deadline, State.deadline, BitVec.le_def, BitVec.toNat_add,
    BitVec.toNat_setWidth]
  omega

theorem discover_gives {i k : Slot} (found : st.leaseByMac mac = some i)
    (expired : (st.leases i).Expired now) (picked : st.leaseFreePick now = some k) :
    (dhcpdDecide st (discoverFrom mac) now).1 = st.give k mac (st.poolIp k.val) now := by
  have known : (st.leaseByMac mac).filter (fun k => !decide ((st.leases k).Expired now)) =
      none := by
    simp [found, Option.filter, expired]
  simp only [dhcpdDecide, decideDiscover, discoverFrom, known, picked]

theorem request_renews {i : Slot} (found : st.leaseByMac mac = some i) :
    (dhcpdDecide st (requestFrom mac 0) now).1 =
      st.put i { st.leases i with expiresMs := st.deadline now } := by
  simp [dhcpdDecide, decideRequest, requestFrom, found]

theorem shadowed_twoLeases (lasting : 0 < st.leaseMs.toNat)
    (noWrap : now.toNat + st.leaseMs.toNat < 2 ^ 64) (shadowed : ¬Unshadowed st mac now) :
    ¬OneEach (dhcpdDecide (dhcpdDecide st (discoverFrom mac) now).1 (requestFrom mac 0) now).1
      now := by
  simp only [Unshadowed, not_forall, not_le] at shadowed
  obtain ⟨i, k, found, expired, picked, after⟩ := shadowed
  obtain ⟨used, own, -⟩ := leaseByMac_some found
  have different : i ≠ k := ne_of_lt after
  have again : (st.give k mac (st.poolIp k.val) now).leaseByMac mac = some i :=
    leaseByMac_give_later found after
  rw [discover_gives found expired picked, request_renews again]
  intro oneEach
  refine different (oneEach i k ?_ ?_ ?_)
  · rw [put_same]
    refine deadline_live st ?_ rfl lasting noWrap
    simpa [State.give, put_other _ _ _ different] using used
  · rw [put_other _ _ _ different.symm]
    exact deadline_live st (by simp [State.give]) (by simp [State.give]) lasting noWrap
  · rw [put_same, put_other _ _ _ different.symm]
    simp [State.give, put_other _ _ _ different, own]

theorem offer_claimable_iff (serverIp netmask poolBase : Ip) :
    (∀ (st : State) (last : Millis),
      Reached AnyMessage (dhcpdStateInit serverIp netmask poolBase 4) st last →
      ∀ (q r : Req) (t₁ t₂ : Millis) (ip : Ip), last ≤ t₁ → q.msgtype = .discover →
        (dhcpdDecide st q t₁).2 = some ⟨.offer, ip⟩ →
        r.msgtype = .request → r.mac = q.mac → r.reqIp = ip →
        t₁ ≤ t₂ → t₂.toNat < t₁.toNat + st.leaseMs.toNat →
        ((dhcpdDecide (dhcpdDecide st q t₁).1 r t₂).2 = some ⟨.ack, ip⟩ ↔
          Unshadowed st q.mac t₁)) ∧
    (∀ (st : State) (last : Millis),
      Reached Careful (dhcpdStateInit serverIp netmask poolBase 4) st last →
      ∀ now : Millis, last ≤ now → OneEach st now) ∧
    ∀ (st : State) (last : Millis),
      Reached AnyMessage (dhcpdStateInit serverIp netmask poolBase 4) st last →
      ∀ (mac : Mac) (now : Millis), last ≤ now → now.toNat + st.leaseMs.toNat < 2 ^ 64 →
        ¬Unshadowed st mac now →
        ¬OneEach (dhcpdDecide (dhcpdDecide st (discoverFrom mac) now).1 (requestFrom mac 0)
          now).1 now := by
  refine ⟨?_, ?_, ?_⟩
  · intro st last run q r t₁ t₂ ip later discover offer request same named _ _
    obtain ⟨k, found, atIp⟩ := offered_found run.natural offer
    subst named
    rw [← same] at found
    exact (request_acked_iff request found).trans atIp
  · intro st last run now later
    exact (run.firstOnly.later later).oneEach
  · intro st last run mac now later noWrap shadowed
    refine shadowed_twoLeases ?_ noWrap shadowed
    rw [run.leaseMs]
    change 0 < (BitVec.ofNat 32 (12 * 60 * 60 * 1000)).toNat
    decide

theorem offer_claimable_iff_newClient :
    let st := (dhcpdDecide fourAddresses (discoverFrom (clientMac 1)) 5).1
    (dhcpdDecide st (requestFrom (clientMac 1) 0xC0A800C8#32) 7).2 =
      some ⟨.ack, 0xC0A800C8#32⟩ ∧ OneEach st 7 := by
  have fine : Unshadowed fourAddresses (clientMac 1) 5 := by
    intro k j found
    cases found
  have claimable := offer_claimable_iff 0xC0A80001#32 0xFFFFFF00#32 0xC0A800C8#32
  refine ⟨?_, ?_⟩
  · exact (claimable.1 fourAddresses 5 (.start 5) (discoverFrom (clientMac 1))
      (requestFrom (clientMac 1) 0xC0A800C8#32) 5 7 0xC0A800C8#32 (by decide) rfl
      (by decide +kernel) rfl rfl rfl (by decide) (by decide)).mpr fine
  · exact claimable.2.1 _ 5 (.step _ (.start 5) (by decide) fun _ => fine) 7 (by decide)

def returning : State := (dhcpdDecide fourAddresses (discoverFrom (clientMac 1)) 0).1

theorem offer_not_claimable_returning :
    let st := (dhcpdDecide returning (discoverFrom (clientMac 1)) 43200000).1
    (dhcpdDecide returning (discoverFrom (clientMac 1)) 43200000).2 =
        some ⟨.offer, 0xC0A800C9#32⟩ ∧
      (dhcpdDecide st (requestFrom (clientMac 1) 0xC0A800C9#32) 43200000).2 = some nakReply ∧
      ∃ i j : Slot, i ≠ j ∧
        let st' := (dhcpdDecide st (requestFrom (clientMac 1) 0) 43200000).1
        (st'.leases i).Live 43200000 ∧ (st'.leases j).Live 43200000 ∧
          (st'.leases i).mac = clientMac 1 ∧ (st'.leases j).mac = clientMac 1 := by
  decide +kernel

end RnodeHalow.Dhcp
