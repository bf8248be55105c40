import RnodeHalow.Ack.Core

set_option autoImplicit false

namespace RnodeHalow.Ack

open Resumption Tally
open Function (update update_eq_self update_of_ne update_self)

def used : Option AckBuf → Nat
  | none => 0
  | some _ => 1

def flying : Option AckBuf → Nat
  | none => 0
  | some buf => if buf.state = .staging then 0 else 1

def heapOf : Option AckBuf → Nat
  | none => 0
  | some buf => bufAllocSz buf.cap

def occupied (p : AckPeer) : Nat := if p.inUse then 1 else 0

def StagedAt (c : Core) (j : BufIx) (mac : Mac) : Prop :=
  ∃ buf, c.bufs j = some buf ∧ buf.state = .staging ∧ buf.destMac = mac

structure RepInv (c : Core) : Prop where
  usedN_eq : c.usedN = total used c.bufs
  inflightN_eq : c.inflightN = total flying c.bufs
  heapBytes_eq : c.heapBytes = total heapOf c.bufs
  idx_eq : ∀ j buf, c.bufs j = some buf → buf.idx = j
  peersN_eq : c.peersN = total occupied c.peers
  mac_inj : ∀ i k, (c.peers i).inUse = true → (c.peers k).inUse = true →
    (c.peers i).mac = (c.peers k).mac → i = k
  agg_iff : ∀ i, (c.peers i).inUse = true → ∀ j,
    (c.peers i).aggIdx = some j ↔ StagedAt c j (c.peers i).mac
  owned : ∀ j buf, c.bufs j = some buf →
    ∃ i, (c.peers i).inUse = true ∧ (c.peers i).mac = buf.destMac

structure SlotView where
  idx : BufIx
  staging : Bool
  destMac : Mac
  cap : Nat

def AckBuf.view (buf : AckBuf) : SlotView := ⟨buf.idx, buf.state = .staging, buf.destMac, buf.cap⟩

structure PeerView where
  inUse : Bool
  mac : Mac
  aggIdx : Option BufIx

def AckPeer.view (p : AckPeer) : PeerView := ⟨p.inUse, p.mac, p.aggIdx⟩

structure SameView (c c' : Core) : Prop where
  bufs : ∀ j, (c'.bufs j).map AckBuf.view = (c.bufs j).map AckBuf.view
  peers : ∀ i, (c'.peers i).view = (c.peers i).view
  usedN : c'.usedN = c.usedN
  inflightN : c'.inflightN = c.inflightN
  heapBytes : c'.heapBytes = c.heapBytes
  peersN : c'.peersN = c.peersN

theorem SamePlace.view {p q : AckPeer} (same : SamePlace p q) : q.view = p.view := by
  simp [AckPeer.view, same.inUse, same.mac, same.aggIdx]

theorem weights_of_view {x y : Option AckBuf} (same : x.map AckBuf.view = y.map AckBuf.view) :
    used x = used y ∧ flying x = flying y ∧ heapOf x = heapOf y := by
  cases x with
  | none =>
    cases y with
    | none => exact ⟨rfl, rfl, rfl⟩
    | some buf => cases same
  | some buf =>
    cases y with
    | none => cases same
    | some buf' =>
      simp only [Option.map_some, AckBuf.view, Option.some.injEq, SlotView.mk.injEq,
        decide_eq_decide] at same
      simp [used, flying, heapOf, same]

variable {c c' : Core} {j : BufIx} {buf : AckBuf} {i : PeerIx} {p : AckPeer} {t : Nat}

theorem SameView.slot (same : SameView c c') (held : c'.bufs j = some buf) :
    ∃ old, c.bufs j = some old ∧ buf.view = old.view := by
  have h := same.bufs j
  rw [held, Option.map_some] at h
  obtain ⟨old, present, eq⟩ := Option.map_eq_some_iff.mp h.symm
  exact ⟨old, present, eq.symm⟩

theorem SameView.symm (same : SameView c c') : SameView c' c where
  bufs j := (same.bufs j).symm
  peers i := (same.peers i).symm
  usedN := same.usedN.symm
  inflightN := same.inflightN.symm
  heapBytes := same.heapBytes.symm
  peersN := same.peersN.symm

theorem SameView.stagedAt (same : SameView c c') {mac : Mac} (staged : StagedAt c' j mac) :
    StagedAt c j mac := by
  obtain ⟨buf, held, staging, dest⟩ := staged
  obtain ⟨old, present, eq⟩ := same.slot held
  simp only [AckBuf.view, SlotView.mk.injEq, decide_eq_decide] at eq
  exact ⟨old, present, eq.2.1.mp staging, eq.2.2.1 ▸ dest⟩

theorem SameView.peer (same : SameView c c') (i : PeerIx) :
    (c'.peers i).inUse = (c.peers i).inUse ∧ (c'.peers i).mac = (c.peers i).mac ∧
      (c'.peers i).aggIdx = (c.peers i).aggIdx := by
  simpa only [AckPeer.view, PeerView.mk.injEq] using same.peers i

theorem RepInv.sameView (inv : RepInv c) (same : SameView c c') : RepInv c' where
  usedN_eq := by
    rw [same.usedN, inv.usedN_eq]
    exact Finset.sum_congr rfl fun j _ => (weights_of_view (same.bufs j)).1.symm
  inflightN_eq := by
    rw [same.inflightN, inv.inflightN_eq]
    exact Finset.sum_congr rfl fun j _ => (weights_of_view (same.bufs j)).2.1.symm
  heapBytes_eq := by
    rw [same.heapBytes, inv.heapBytes_eq]
    exact Finset.sum_congr rfl fun j _ => (weights_of_view (same.bufs j)).2.2.symm
  idx_eq := by
    intro j buf held
    obtain ⟨old, present, eq⟩ := same.slot held
    simp only [AckBuf.view, SlotView.mk.injEq] at eq
    exact eq.1.trans (inv.idx_eq j old present)
  peersN_eq := by
    rw [same.peersN, inv.peersN_eq]
    exact Finset.sum_congr rfl fun i _ => by simp only [occupied, (same.peer i).1]
  mac_inj := by
    intro i k usedI usedK eq
    rw [(same.peer i).1] at usedI
    rw [(same.peer k).1] at usedK
    rw [(same.peer i).2.1, (same.peer k).2.1] at eq
    exact inv.mac_inj i k usedI usedK eq
  agg_iff := by
    intro i inUse j
    rw [(same.peer i).1] at inUse
    rw [(same.peer i).2.2, (same.peer i).2.1, inv.agg_iff i inUse j]
    exact ⟨same.symm.stagedAt, same.stagedAt⟩
  owned := by
    intro j buf held
    obtain ⟨old, present, eq⟩ := same.slot held
    simp only [AckBuf.view, SlotView.mk.injEq] at eq
    obtain ⟨i, inUse, mac⟩ := inv.owned j old present
    exact ⟨i, (same.peer i).1.trans inUse, (same.peer i).2.1.trans (mac.trans eq.2.2.1.symm)⟩

theorem SameView.ofSlot {buf buf' : AckBuf} (held : c.bufs j = some buf)
    (view : buf'.view = buf.view) : SameView c (c.setBuf j buf') where
  bufs k := by
    by_cases same : k = j
    · subst same
      simp [Core.setBuf, held, view]
    · simp [Core.setBuf, update_of_ne same]
  peers _ := rfl
  usedN := rfl
  inflightN := rfl
  heapBytes := rfl
  peersN := rfl

theorem SameView.ofPeer (view : p.view = (c.peers i).view) : SameView c (c.setPeer i p) where
  bufs _ := rfl
  peers k := by
    by_cases same : k = i
    · subst same
      simp [Core.setPeer, view]
    · simp [Core.setPeer, update_of_ne same]
  usedN := rfl
  inflightN := rfl
  heapBytes := rfl
  peersN := rfl

theorem SameView.aside (bufs : c'.bufs = c.bufs) (peers : c'.peers = c.peers)
    (usedN : c'.usedN = c.usedN) (inflightN : c'.inflightN = c.inflightN)
    (heapBytes : c'.heapBytes = c.heapBytes) (peersN : c'.peersN = c.peersN) : SameView c c' where
  bufs j := by rw [bufs]
  peers i := by rw [peers]
  usedN := usedN
  inflightN := inflightN
  heapBytes := heapBytes
  peersN := peersN

structure Change (c c' : Core) (i : PeerIx) (j : BufIx) (y : Option AckBuf) (p : AckPeer) :
    Prop where
  bufs : c'.bufs = Function.update c.bufs j y
  peers : c'.peers = Function.update c.peers i p
  usedN : c'.usedN + used (c.bufs j) = c.usedN + used y
  inflightN : c'.inflightN + flying (c.bufs j) = c.inflightN + flying y
  heapBytes : c'.heapBytes + heapOf (c.bufs j) = c.heapBytes + heapOf y
  peersN : c'.peersN = c.peersN
  inUse : (c.peers i).inUse = true
  inUse' : p.inUse = true
  mac : p.mac = (c.peers i).mac
  before : ∀ buf, c.bufs j = some buf → buf.destMac = (c.peers i).mac
  after : ∀ buf, y = some buf → buf.idx = j ∧ buf.destMac = (c.peers i).mac
  agg : p.aggIdx = some j ↔ ∃ buf, y = some buf ∧ buf.state = .staging
  agg_ne : ∀ k, k ≠ j → (p.aggIdx = some k ↔ (c.peers i).aggIdx = some k)

namespace Change

variable {c c' : Core} {i : PeerIx} {j : BufIx} {y : Option AckBuf} {p : AckPeer}

theorem peer_inUse (change : Change c c' i j y p) (k : PeerIx) :
    (c'.peers k).inUse = (c.peers k).inUse := by
  rw [change.peers]
  by_cases same : k = i
  · subst same
    simp [change.inUse, change.inUse']
  · simp [update_of_ne same]

theorem peer_mac (change : Change c c' i j y p) (k : PeerIx) :
    (c'.peers k).mac = (c.peers k).mac := by
  rw [change.peers]
  by_cases same : k = i
  · subst same
    simp [change.mac]
  · simp [update_of_ne same]

theorem slot_ne (change : Change c c' i j y p) {k : BufIx} (ne : k ≠ j) : c'.bufs k = c.bufs k := by
  rw [change.bufs, update_of_ne ne]

theorem slot_eq (change : Change c c' i j y p) : c'.bufs j = y := by
  rw [change.bufs, update_self]

theorem stagedAt_ne (change : Change c c' i j y p) {k : BufIx} (ne : k ≠ j) (mac : Mac) :
    StagedAt c' k mac ↔ StagedAt c k mac := by
  simp only [StagedAt, change.slot_ne ne]

theorem not_stagedAt_other (change : Change c c' i j y p) (inv : RepInv c) {k : PeerIx}
    (ne : k ≠ i) (inUse : (c.peers k).inUse = true) :
    ¬ StagedAt c j (c.peers k).mac ∧ ¬ StagedAt c' j (c.peers k).mac := by
  constructor
  · rintro ⟨buf, held, _, dest⟩
    have eq := (change.before buf held).symm.trans dest
    exact ne (inv.mac_inj k i inUse change.inUse eq.symm)
  · rintro ⟨buf, held, _, dest⟩
    rw [change.slot_eq] at held
    have eq := (change.after buf held).2.symm.trans dest
    exact ne (inv.mac_inj k i inUse change.inUse eq.symm)

theorem agg_self (change : Change c c' i j y p) (inv : RepInv c) (k : BufIx) :
    p.aggIdx = some k ↔ StagedAt c' k (c.peers i).mac := by
  by_cases same : k = j
  · subst same
    rw [change.agg]
    constructor
    · rintro ⟨buf, held, staging⟩
      exact ⟨buf, change.slot_eq.trans held, staging, (change.after buf held).2⟩
    · rintro ⟨buf, held, staging, _⟩
      exact ⟨buf, change.slot_eq.symm.trans held, staging⟩
  · rw [change.agg_ne k same, change.stagedAt_ne same]
    exact inv.agg_iff i change.inUse k

theorem repInv (change : Change c c' i j y p) (inv : RepInv c) : RepInv c' where
  usedN_eq := by
    have moved := total_update used c.bufs j y
    have kept := change.usedN
    rw [change.bufs]
    have old := inv.usedN_eq
    omega
  inflightN_eq := by
    have moved := total_update flying c.bufs j y
    have kept := change.inflightN
    rw [change.bufs]
    have old := inv.inflightN_eq
    omega
  heapBytes_eq := by
    have moved := total_update heapOf c.bufs j y
    have kept := change.heapBytes
    rw [change.bufs]
    have old := inv.heapBytes_eq
    omega
  idx_eq := by
    intro k buf held
    by_cases same : k = j
    · subst same
      rw [change.slot_eq] at held
      exact (change.after buf held).1
    · rw [change.slot_ne same] at held
      exact inv.idx_eq k buf held
  peersN_eq := by
    rw [change.peersN, inv.peersN_eq]
    exact Finset.sum_congr rfl fun k _ => by simp only [occupied, change.peer_inUse k]
  mac_inj := by
    intro k k' usedK usedK' eq
    rw [change.peer_inUse] at usedK usedK'
    rw [change.peer_mac, change.peer_mac] at eq
    exact inv.mac_inj k k' usedK usedK' eq
  agg_iff := by
    intro k inUse m
    rw [change.peer_inUse] at inUse
    rw [change.peer_mac, change.peers]
    by_cases same : k = i
    · subst same
      rw [update_self]
      exact change.agg_self inv m
    · rw [update_of_ne same, inv.agg_iff k inUse m]
      by_cases slot : m = j
      · subst slot
        have neither := change.not_stagedAt_other inv same inUse
        exact ⟨fun h => absurd h neither.1, fun h => absurd h neither.2⟩
      · exact (change.stagedAt_ne slot _).symm
  owned := by
    intro k buf held
    by_cases same : k = j
    · subst same
      rw [change.slot_eq] at held
      exact ⟨i, by rw [change.peer_inUse]; exact change.inUse,
        by rw [change.peer_mac]; exact (change.after buf held).2.symm⟩
    · rw [change.slot_ne same] at held
      obtain ⟨k', inUse, mac⟩ := inv.owned k buf held
      exact ⟨k', by rw [change.peer_inUse]; exact inUse, by rw [change.peer_mac]; exact mac⟩

end Change

theorem RepInv.opened {mac : Mac} (inv : RepInv c) (fresh : FreshPeer p mac)
    (new : ∀ k, (c.peers k).inUse = true → (c.peers k).mac ≠ mac)
    (bare : (c.peers i).inUse = true → ∀ j buf, c.bufs j = some buf →
      buf.destMac ≠ (c.peers i).mac) :
    RepInv { c.setPeer i p with
      peersN := if (c.peers i).inUse then c.peersN else c.peersN + 1 } where
  usedN_eq := inv.usedN_eq
  inflightN_eq := inv.inflightN_eq
  heapBytes_eq := inv.heapBytes_eq
  idx_eq := inv.idx_eq
  peersN_eq := by
    have moved := total_update occupied c.peers i p
    have old := inv.peersN_eq
    simp only [Core.setPeer, occupied, fresh.inUse, if_true] at *
    split <;> simp_all
  mac_inj := by
    intro k k' usedK usedK' eq
    simp only [Core.setPeer] at usedK usedK' eq
    by_cases one : k = i <;> by_cases two : k' = i
    · exact one.trans two.symm
    · subst one
      rw [update_of_ne two] at usedK' eq
      rw [update_self, fresh.mac] at eq
      exact absurd eq.symm (new k' usedK')
    · subst two
      rw [update_of_ne one] at usedK eq
      rw [update_self, fresh.mac] at eq
      exact absurd eq (new k usedK)
    · rw [update_of_ne one] at usedK eq
      rw [update_of_ne two] at usedK' eq
      exact inv.mac_inj k k' usedK usedK' eq
  agg_iff := by
    intro k inUse j
    simp only [Core.setPeer] at inUse ⊢
    by_cases same : k = i
    · subst same
      rw [update_self, fresh.aggIdx, fresh.mac]
      constructor
      · intro h
        cases h
      · rintro ⟨buf, held, _, dest⟩
        obtain ⟨k', used', owner⟩ := inv.owned j buf held
        exact absurd (owner.trans dest) (new k' used')
    · rw [update_of_ne same] at inUse ⊢
      exact inv.agg_iff k inUse j
  owned := by
    intro j buf held
    obtain ⟨k, inUse, owner⟩ := inv.owned j buf held
    have ne : k ≠ i := by
      intro same
      subst same
      exact bare inUse j buf held owner.symm
    refine ⟨k, ?_, ?_⟩
    · simpa only [Core.setPeer, update_of_ne ne] using inUse
    · simpa only [Core.setPeer, update_of_ne ne] using owner

structure BlockOk (buf : AckBuf) : Prop where
  size : buf.data.length = buf.cap
  cap_le : buf.cap ≤ ackWireMax
  inside : buf.ofs + buf.len ≤ buf.cap

structure StagedOk (p : AckPeer) (buf : AckBuf) : Prop where
  reserve : ackAggReserve + 2 * p.aggNsub ≤ p.aggLen
  inside : p.aggLen ≤ buf.cap
  subs : p.aggNsub ≤ aggMaxSub

structure Layout (c : Core) : Prop where
  block : ∀ j buf, c.bufs j = some buf → BlockOk buf
  staged : ∀ i j buf, (c.peers i).inUse = true → (c.peers i).aggIdx = some j →
    c.bufs j = some buf → StagedOk (c.peers i) buf

theorem Layout.aside (lay : Layout c) (bufs : c'.bufs = c.bufs) (peers : c'.peers = c.peers) :
    Layout c' where
  block := by rw [bufs]; exact lay.block
  staged := by rw [bufs, peers]; exact lay.staged

theorem Layout.change {y : Option AckBuf} (lay : Layout c) (rep : RepInv c)
    (bufs : c'.bufs = update c.bufs j y) (peers : c'.peers = update c.peers i p)
    (block : ∀ buf', y = some buf' → BlockOk buf')
    (cap : ∀ buf', y = some buf' → ∀ buf, c.bufs j = some buf → buf'.cap = buf.cap)
    (own : ∀ k buf', p.inUse = true → p.aggIdx = some k → c'.bufs k = some buf' → StagedOk p buf') :
    Layout c' where
  block := by
    intro k buf held
    rw [bufs] at held
    by_cases same : k = j
    · subst same
      exact block buf (by simpa using held)
    · exact lay.block k buf (by simpa [update_of_ne same] using held)
  staged := by
    intro k m buf inUse agg held
    rw [peers] at inUse agg ⊢
    by_cases same : k = i
    · subst same
      rw [update_self] at inUse agg ⊢
      exact own m buf inUse agg held
    · rw [update_of_ne same] at inUse agg ⊢
      rw [bufs] at held
      by_cases slot : m = j
      · subst slot
        obtain ⟨old, present, _⟩ := (rep.agg_iff k inUse m).mp agg
        have ok := lay.staged k m old inUse agg present
        rw [update_self] at held
        exact ⟨ok.reserve, (cap buf held old present) ▸ ok.inside, ok.subs⟩
      · rw [update_of_ne slot] at held
        exact lay.staged k m buf inUse agg held

section Slot

variable {x : Option AckBuf} {P : AckBuf → Prop}

theorem held_all (held : x = some buf) (here : P buf) : ∀ old, x = some old → P old := by
  intro old present
  rw [held] at present
  cases present
  exact here

theorem empty_all (empty : x = none) : ∀ old, x = some old → P old := by
  intro old present
  rw [empty] at present
  cases present

end Slot

theorem Layout.slot {buf buf' : AckBuf} (lay : Layout c) (rep : RepInv c)
    (held : c.bufs j = some buf) (block : BlockOk buf') (cap : buf'.cap = buf.cap) :
    Layout (c.setBuf j buf') := by
  refine lay.change rep (i := 0) (j := j) (y := some buf') (p := c.peers 0) rfl
    (update_eq_self 0 c.peers).symm ?_ ?_ ?_
  · rintro _ ⟨⟩
    exact block
  · rintro _ ⟨⟩
    exact held_all held cap
  · intro k x inUse agg present
    simp only [Core.setBuf] at present
    by_cases same : k = j
    · subst same
      rw [update_self] at present
      cases present
      have ok := lay.staged 0 k buf inUse agg held
      exact ⟨ok.reserve, cap ▸ ok.inside, ok.subs⟩
    · rw [update_of_ne same] at present
      exact lay.staged 0 k x inUse agg present

theorem Layout.peer (lay : Layout c) (same : SamePlace (c.peers i) p) : Layout (c.setPeer i p) where
  block := lay.block
  staged := by
    intro k j buf inUse agg held
    simp only [Core.setPeer] at inUse agg held ⊢
    by_cases eq : k = i
    · subst eq
      rw [update_self] at inUse agg ⊢
      have ok := lay.staged k j buf (same.inUse ▸ inUse) (same.aggIdx ▸ agg) held
      exact ⟨by rw [same.aggNsub, same.aggLen]; exact ok.reserve,
        by rw [same.aggLen]; exact ok.inside, by rw [same.aggNsub]; exact ok.subs⟩
    · rw [update_of_ne eq] at inUse agg ⊢
      exact lay.staged k j buf inUse agg held

theorem freshBuf_block (blk : HeapBlock) (state : BufState) (j : BufIx) (mac : Mac) {cap : Nat}
    (now : Jiffy) (small : cap ≤ ackWireMax) : BlockOk (freshBuf blk state j mac cap now) where
  size := by simp [freshBuf]
  cap_le := small
  inside := Nat.zero_le _

theorem plainBuf_block (blk : HeapBlock) (j : BufIx) (mac : Mac) {payload : List Byte}
    (tx born : Jiffy) (small : payload.length ≤ ackWireMax) :
    BlockOk (plainBuf blk j mac payload tx born) where
  size := rfl
  cap_le := small
  inside := Nat.le_of_eq (Nat.zero_add _)

theorem sealBuf_block (tx born : Jiffy) (block : BlockOk buf) (staged : StagedOk p buf) :
    BlockOk (sealBuf p buf tx born) where
  size := by
    have room := staged.reserve
    have inside := staged.inside
    have size := block.size
    simp only [ackAggReserve] at room
    change (writeAt _ _ _).length = buf.cap
    rw [writeAt_length, size]
    simp only [bundleHdr, List.length_cons, List.length_nil]
    omega
  cap_le := block.cap_le
  inside := by simpa [sealBuf] using staged.inside

theorem writeSub_block {ofs : Nat} {payload : List Byte} (block : BlockOk buf)
    (room : ofs + 2 + payload.length ≤ buf.cap) : BlockOk (buf.writeSub ofs payload) where
  size := by
    have size := block.size
    have first (lo hi : Byte) : (writeAt buf.data ofs [lo, hi]).length = buf.data.length := by
      apply writeAt_length
      simp only [List.length_cons, List.length_nil]
      omega
    change (writeAt _ _ _).length = buf.cap
    rw [writeAt_length _ _ _ (by rw [first]; omega), first, size]
  cap_le := block.cap_le
  inside := block.inside

structure Inv (c : Core) : Prop where
  rep : RepInv c
  layout : Layout c
  cwnd_pos : 1 ≤ c.cwnd
  cwnd_le : c.cwnd ≤ c.window
  window_eq : c.window = c.cfg.window
  clamped : c.cfg.Clamped
  faultless : ∀ e ∈ c.trace, e.2 ≠ .nullDeref ∧ e.2 ≠ .overrun

theorem Inv.noted (inv : Inv c) (e : Event) (fine : e ≠ .nullDeref ∧ e ≠ .overrun) :
    Inv (c.note e) where
  rep := inv.rep.sameView (.aside rfl rfl rfl rfl rfl rfl)
  layout := inv.layout.aside rfl rfl
  cwnd_pos := inv.cwnd_pos
  cwnd_le := inv.cwnd_le
  window_eq := inv.window_eq
  clamped := inv.clamped
  faultless := by
    intro entry member
    rcases List.mem_cons.mp member with rfl | old
    · exact fine
    · exact inv.faultless entry old

theorem Inv.slot {buf buf' : AckBuf} (inv : Inv c) (held : c.bufs j = some buf)
    (view : buf'.view = buf.view) (block : BlockOk buf') : Inv (c.setBuf j buf') where
  rep := inv.rep.sameView (.ofSlot held view)
  layout := inv.layout.slot inv.rep held block (by
    simp only [AckBuf.view, SlotView.mk.injEq] at view
    exact view.2.2.2)
  cwnd_pos := inv.cwnd_pos
  cwnd_le := inv.cwnd_le
  window_eq := inv.window_eq
  clamped := inv.clamped
  faultless := inv.faultless

theorem Inv.ofCore (inv : Inv c) (rep : RepInv c') (layout : Layout c')
    (window : c'.window = c.window) (cwnd : c'.cwnd = c.cwnd) (cfg : c'.cfg = c.cfg)
    (faultless : ∀ e ∈ c'.trace, e.2 ≠ .nullDeref ∧ e.2 ≠ .overrun) : Inv c' where
  rep := rep
  layout := layout
  cwnd_pos := by rw [cwnd]; exact inv.cwnd_pos
  cwnd_le := by rw [cwnd, window]; exact inv.cwnd_le
  window_eq := by rw [window, cfg]; exact inv.window_eq
  clamped := by rw [cfg]; exact inv.clamped
  faultless := faultless

theorem Inv.peer (inv : Inv c) (same : SamePlace (c.peers i) p) : Inv (c.setPeer i p) :=
  inv.ofCore (inv.rep.sameView (.ofPeer same.view)) (inv.layout.peer same) rfl rfl rfl inv.faultless

theorem Inv.counted (inv : Inv c) (n : Counts) : Inv { c with counts := n } :=
  inv.ofCore (inv.rep.sameView (.aside rfl rfl rfl rfl rfl rfl)) (inv.layout.aside rfl rfl) rfl rfl
    rfl inv.faultless

theorem Calm.inv (move : Calm c c') (inv : Inv c) : Inv c' := by
  cases move with
  | elapse n later =>
    exact inv.ofCore (inv.rep.sameView (.aside rfl rfl rfl rfl rfl rfl))
      (inv.layout.aside rfl rfl) rfl rfl rfl inv.faultless
  | air data dest mcs tid => exact inv.noted _ ⟨by simp, by simp⟩
  | peer i p same => exact inv.peer same
  | kick j buf due held inflight =>
    have block := inv.layout.block j buf held
    apply Inv.noted
    · exact inv.slot held rfl ⟨block.size, block.cap_le, block.inside⟩
    · simp
  | opened i p mac fresh new bare =>
    apply Inv.noted
    · refine inv.ofCore (inv.rep.opened fresh new bare) ?_ rfl rfl rfl inv.faultless
      refine inv.layout.change inv.rep (j := 0) (y := c.bufs 0)
        (update_eq_self 0 c.bufs).symm rfl ?_ ?_ ?_
      · exact fun buf held => inv.layout.block 0 buf held
      · exact fun buf held => held_all held rfl
      · intro k buf _ agg
        rw [fresh.aggIdx] at agg
        cases agg
    · simp
  | governor n pos bound =>
    exact
      { rep := inv.rep.sameView (.aside rfl rfl rfl rfl rfl rfl)
        layout := inv.layout.aside rfl rfl
        cwnd_pos := pos
        cwnd_le := by
          have le := inv.cwnd_le
          change n ≤ c.window
          omega
        window_eq := inv.window_eq
        clamped := inv.clamped
        faultless := inv.faultless }
  | measured n => exact inv.counted _
  | forget i p mac inUse named same =>
    apply Inv.noted
    · exact inv.peer same
    · simp

theorem flying_pos (rep : RepInv c) (held : c.bufs j = some buf) (away : buf.state ≠ .staging) :
    1 ≤ c.inflightN := by
  have le := le_total flying c.bufs j
  rw [held, flying, if_neg away] at le
  have eq := rep.inflightN_eq
  omega

theorem counts_pos (rep : RepInv c) (held : c.bufs j = some buf) :
    1 ≤ c.usedN ∧ bufAllocSz buf.cap ≤ c.heapBytes := by
  have one := le_total used c.bufs j
  have sum := le_total heapOf c.bufs j
  rw [held] at one sum
  rw [rep.usedN_eq, rep.heapBytes_eq]
  exact ⟨one, sum⟩

theorem RepInv.not_named (rep : RepInv c) (inUse : (c.peers i).inUse = true)
    (empty : c.bufs j = none) : (c.peers i).aggIdx ≠ some j := by
  intro agg
  obtain ⟨buf, held, _⟩ := (rep.agg_iff i inUse j).mp agg
  rw [empty] at held
  cases held

theorem RepInv.named (rep : RepInv c) (inUse : (c.peers i).inUse = true)
    (agg : (c.peers i).aggIdx = some j) (held : c.bufs j = some buf) :
    buf.state = .staging ∧ buf.destMac = (c.peers i).mac := by
  obtain ⟨buf', held', staging, dest⟩ := (rep.agg_iff i inUse j).mp agg
  rw [held] at held'
  cases held'
  exact ⟨staging, dest⟩

theorem RepInv.not_named_flying (rep : RepInv c) (inUse : (c.peers i).inUse = true)
    (held : c.bufs j = some buf) (away : buf.state ≠ .staging) : (c.peers i).aggIdx ≠ some j :=
  fun agg => away (rep.named inUse agg held).1

theorem free_counts (rep : RepInv c) (held : c.bufs j = some buf) :
    (c.free j buf).usedN + used (c.bufs j) = c.usedN ∧
      (c.free j buf).heapBytes + heapOf (c.bufs j) = c.heapBytes := by
  have counts := counts_pos rep held
  rw [held]
  exact ⟨Nat.sub_add_cancel counts.1, Nat.sub_add_cancel counts.2⟩

theorem Inv.free (inv : Inv c) (held : c.bufs j = some buf) (away : buf.state ≠ .staging) :
    Inv (c.free j buf) := by
  obtain ⟨i, inUse, mac⟩ := inv.rep.owned j buf held
  have unnamed := inv.rep.not_named_flying inUse held away
  have flew := flying_pos inv.rep held away
  have counts := free_counts inv.rep held
  have change : Change c (c.free j buf) i j none (c.peers i) :=
    { bufs := rfl
      peers := (update_eq_self i c.peers).symm
      usedN := counts.1
      inflightN := by
        rw [held]
        simp only [Core.free, flying, if_neg away]
        omega
      heapBytes := counts.2
      peersN := rfl
      inUse := inUse
      inUse' := inUse
      mac := rfl
      before := held_all held mac.symm
      after := by
        intro _ none
        cases none
      agg := by simp [unnamed]
      agg_ne := fun _ _ => Iff.rfl }
  refine inv.ofCore (change.repInv inv.rep) ?_ rfl rfl rfl inv.faultless
  refine inv.layout.change inv.rep change.bufs change.peers ?_ ?_ ?_
  · rintro _ ⟨⟩
  · rintro _ ⟨⟩
  · intro k buf' used' agg present
    have ne : k ≠ j := by
      rintro rfl
      exact unnamed agg
    rw [change.slot_ne ne] at present
    exact inv.layout.staged i k buf' used' agg present

theorem Inv.landed (inv : Inv c) (why : Landing) (held : c.bufs j = some buf)
    (inflight : buf.state = .inflight) :
    Inv ({ c.free j buf with counts := c.counts.land why }.note (.landed j)) := by
  apply Inv.noted _ _ (by simp)
  apply Inv.counted
  exact inv.free held (by rw [inflight]; decide)

theorem faultless_cons {τ : Nat} {e : Event} {rest : History}
    (fine : e ≠ .nullDeref ∧ e ≠ .overrun)
    (older : ∀ x ∈ rest, x.2 ≠ .nullDeref ∧ x.2 ≠ .overrun) :
    ∀ x ∈ (τ, e) :: rest, x.2 ≠ .nullDeref ∧ x.2 ≠ .overrun := by
  intro x member
  rcases List.mem_cons.mp member with rfl | old
  · exact fine
  · exact older x old

theorem Inv.filled {y : Option AckBuf} (inv : Inv c) (change : Change c c' i j y p)
    (block : ∀ buf, y = some buf → BlockOk buf)
    (cap : ∀ buf', y = some buf' → ∀ buf, c.bufs j = some buf → buf'.cap = buf.cap)
    (own : ∀ k buf', p.aggIdx = some k → c'.bufs k = some buf' → StagedOk p buf')
    (window : c'.window = c.window) (cwnd : c'.cwnd = c.cwnd) (cfg : c'.cfg = c.cfg)
    (faultless : ∀ e ∈ c'.trace, e.2 ≠ .nullDeref ∧ e.2 ≠ .overrun) : Inv c' :=
  inv.ofCore (change.repInv inv.rep)
    (inv.layout.change inv.rep change.bufs change.peers block cap fun k buf' _ => own k buf')
    window cwnd cfg faultless

theorem Inv.stageAt {blk : HeapBlock} {cap n1 n2 : Nat} (inv : Inv c)
    (inUse : (c.peers i).inUse = true) (idle : (c.peers i).aggIdx = none) (empty : c.bufs j = none)
    (reserve : ackAggReserve ≤ cap) (small : cap ≤ ackWireMax) :
    Inv (c.stageAt i j blk cap n1 n2) := by
  refine inv.filled (i := i) (j := j) (y := some _) (p := _)
    { bufs := rfl
      peers := rfl
      usedN := by rw [empty]; rfl
      inflightN := by rw [empty]; rfl
      heapBytes := by rw [empty]; rfl
      peersN := rfl
      inUse := inUse
      inUse' := inUse
      mac := rfl
      before := empty_all empty
      after := by
        rintro _ ⟨⟩
        exact ⟨rfl, rfl⟩
      agg := by simp [AckPeer.aggOpen, freshBuf]
      agg_ne := by
        intro k ne
        simp [AckPeer.aggOpen, idle, Ne.symm ne] } ?_ ?_ ?_ rfl rfl rfl ?_
  · rintro _ ⟨⟩
    exact freshBuf_block _ _ _ _ _ small
  · exact fun _ _ => empty_all empty
  · rintro k buf ⟨⟩ held
    simp only [Core.stageAt, update_self, Option.some.injEq] at held
    subst held
    exact ⟨Nat.le_refl _, reserve, Nat.zero_le _⟩
  · exact faultless_cons (by simp) (faultless_cons (by simp) inv.faultless)

theorem Inv.appendAt {payload : List Byte} (inv : Inv c) (inUse : (c.peers i).inUse = true)
    (agg : (c.peers i).aggIdx = some j) (held : c.bufs j = some buf)
    (room : (c.peers i).aggLen + 2 + payload.length ≤ buf.cap)
    (subs : (c.peers i).aggNsub + 1 ≤ aggMaxSub) : Inv (c.appendAt t i j buf payload) := by
  have staged := inv.rep.named inUse agg held
  have ok := inv.layout.staged i j buf inUse agg held
  apply Inv.noted _ _ (by simp)
  refine inv.filled (i := i) (j := j) (y := some _) (p := _)
    { bufs := rfl
      peers := rfl
      usedN := by rw [held]; rfl
      inflightN := by rw [held]; rfl
      heapBytes := by rw [held]; rfl
      peersN := rfl
      inUse := inUse
      inUse' := inUse
      mac := rfl
      before := held_all held staged.2
      after := by
        rintro _ ⟨⟩
        exact ⟨inv.rep.idx_eq j buf held, staged.2⟩
      agg := by simp [AckPeer.aggGrow, AckBuf.writeSub, agg, staged.1]
      agg_ne := fun _ _ => Iff.rfl } ?_ ?_ ?_ rfl rfl rfl inv.faultless
  · rintro _ ⟨⟩
    exact writeSub_block (inv.layout.block j buf held) room
  · rintro _ ⟨⟩
    exact held_all held rfl
  · intro k buf' named present
    have same : k = j := Option.some.inj (named.symm.trans agg)
    subst same
    simp only [Core.setPeer, Core.setBuf, update_self] at present
    cases present
    have reserve := ok.reserve
    refine ⟨?_, room, subs⟩
    simp only [AckPeer.aggGrow]
    omega

theorem Micro.inv (move : Micro t c c') (inv : Inv c) : Inv c' := by
  cases move with
  | calm move => exact move.inv inv
  | sample | accept | due | meet | deliver => exact inv.noted _ (by simp)
  | expire j buf life τ held inflight =>
    apply Inv.noted _ _ (by simp)
    exact inv.landed .deadline held inflight
  | stage i j blk cap n1 n2 payload inUse idle empty room small =>
    have staged : Inv (c.stageAt i j blk cap n1 n2) := inv.stageAt inUse idle empty (by omega) small
    refine staged.appendAt ?_ ?_ (update_self ..) ?_ ?_
    · simpa [Core.stageAt, AckPeer.aggOpen] using inUse
    · simp [Core.stageAt, AckPeer.aggOpen]
    · simpa [Core.stageAt, AckPeer.aggOpen, freshBuf] using room
    · simp [Core.stageAt, AckPeer.aggOpen, aggMaxSub]
  | append i j buf payload inUse agg held room subs => exact inv.appendAt inUse agg held room subs
  | launch i j buf p n1 n2 n3 inUse agg held window _ _ _ same =>
    have staged := inv.rep.named inUse agg held
    have ok := inv.layout.staged i j buf inUse agg held
    have cleared : p.aggIdx = none := same.aggIdx
    refine inv.filled (i := i) (j := j) (y := some _) (p := p)
      { bufs := rfl
        peers := rfl
        usedN := by rw [held]; rfl
        inflightN := by
          rw [held]
          simp [flying, staged.1, sealBuf]
        heapBytes := by rw [held]; rfl
        peersN := rfl
        inUse := inUse
        inUse' := same.inUse.trans inUse
        mac := same.mac
        before := held_all held staged.2
        after := by
          rintro _ ⟨⟩
          exact ⟨inv.rep.idx_eq j buf held, staged.2⟩
        agg := by simp [cleared, sealBuf]
        agg_ne := by
          intro k ne
          simp [cleared, agg, Ne.symm ne] } ?_ ?_ ?_ rfl rfl rfl ?_
    · rintro _ ⟨⟩
      exact sealBuf_block _ _ (inv.layout.block j buf held) ok
    · rintro _ ⟨⟩
      exact held_all held rfl
    · intro k buf' named
      rw [cleared] at named
      cases named
    · exact faultless_cons (by simp)
        (faultless_cons (by simp) (faultless_cons (by simp) inv.faultless))
  | plain i j blk payload n1 n2 inUse empty window small =>
    have unnamed := inv.rep.not_named inUse empty
    refine inv.filled (i := i) (j := j) (y := some _) (p := c.peers i)
      { bufs := rfl
        peers := (update_eq_self i c.peers).symm
        usedN := by rw [empty]; rfl
        inflightN := by rw [empty]; rfl
        heapBytes := by rw [empty]; rfl
        peersN := rfl
        inUse := inUse
        inUse' := inUse
        mac := rfl
        before := empty_all empty
        after := by
          rintro _ ⟨⟩
          exact ⟨rfl, rfl⟩
        agg := by simp [unnamed, plainBuf, freshBuf]
        agg_ne := fun _ _ => Iff.rfl } ?_ ?_ ?_ rfl rfl rfl ?_
    · rintro _ ⟨⟩
      exact plainBuf_block _ _ _ _ _ small
    · exact fun _ _ => empty_all empty
    · intro k buf' named present
      have ne : k ≠ j := by
        rintro rfl
        exact unnamed named
      simp only [update_of_ne ne] at present
      exact inv.layout.staged i k buf' inUse named present
    · exact faultless_cons (by simp) (faultless_cons (by simp) inv.faultless)
  | touch j buf τ held inflight =>
    have block := inv.layout.block j buf held
    apply Inv.noted _ _ (by simp)
    exact inv.slot held rfl ⟨block.size, block.cap_le, block.inside⟩
  | mark j buf τ held inflight =>
    have block := inv.layout.block j buf held
    have slot : Inv (c.setBuf j { buf with state := .sending }) :=
      inv.slot held (by simp [AckBuf.view, inflight]) ⟨block.size, block.cap_le, block.inside⟩
    exact slot.ofCore (slot.rep.sameView (.aside rfl rfl rfl rfl rfl rfl))
      (slot.layout.aside rfl rfl) rfl rfl rfl slot.faultless
  | handOff j buf => exact inv.noted _ ⟨by simp, by simp⟩
  | sentOff j buf held sending own =>
    have block := inv.layout.block j buf held
    exact inv.slot held (by simp [AckBuf.view, sending]) ⟨block.size, block.cap_le, block.inside⟩
  | release j buf why held inflight =>
    exact inv.landed why held inflight
  | hold i j buf τ inUse agg held sampled old =>
    have staged := inv.rep.named inUse agg held
    have counts := free_counts inv.rep held
    refine inv.filled (i := i) (j := j) (y := none) (p := aggClear (c.peers i))
      { bufs := rfl
        peers := rfl
        usedN := counts.1
        inflightN := by
          rw [held]
          simp [Core.free, Core.note, Core.setPeer, flying, staged.1]
        heapBytes := counts.2
        peersN := rfl
        inUse := inUse
        inUse' := inUse
        mac := rfl
        before := held_all held staged.2
        after := by rintro _ ⟨⟩
        agg := by simp [aggClear]
        agg_ne := by
          intro k ne
          simp [aggClear, agg, Ne.symm ne] } ?_ ?_ ?_ rfl rfl rfl ?_
    · rintro _ ⟨⟩
    · rintro _ ⟨⟩
    · rintro k buf' ⟨⟩
    · exact faultless_cons (by simp) inv.faultless
  | reconfig cfg n clamped pos bound =>
    exact
      { rep := inv.rep.sameView (.aside rfl rfl rfl rfl rfl rfl)
        layout := inv.layout.aside rfl rfl
        cwnd_pos := pos
        cwnd_le := bound
        window_eq := rfl
        clamped := clamped
        faultless := faultless_cons (by simp) inv.faultless }
  | reject i => exact (inv.counted _).noted _ (by simp)
  | hear i src payload undefinedShl inUse mac =>
    apply Inv.noted _ _ (by simp)
    exact inv.peer (peerRxSeq_place undefinedShl _ _)

theorem Chain.inv (chain : Chain t c c') (inv : Inv c) : Inv c' := by
  induction chain with
  | refl => exact inv
  | tail _ move ih => exact move.inv ih

theorem Chain.keeps {J : Core → Prop} (step : ∀ a b, Inv a → Micro t a b → J a → J b)
    (chain : Chain t c c') (inv : Inv c) (h : J c) : J c' := by
  induction chain with
  | refl => exact h
  | tail before move ih => exact step _ _ (Chain.inv before inv) move ih

end RnodeHalow.Ack
