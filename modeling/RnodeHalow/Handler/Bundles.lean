import RnodeHalow.Ack.Bundling

set_option autoImplicit false

namespace RnodeHalow.Handler

open Resumption
open Function (update update_idem update_of_ne update_self)

def bundleWalkValid (pkg : List Byte) : Nat → Nat → Bool
  | off, 0 => off == pkg.length
  | off, nsub + 1 =>
    if off + 2 > pkg.length then false
    else
      let slen := (le16 pkg off).toNat
      let off := off + 2
      if off + slen > pkg.length then false else bundleWalkValid pkg (off + slen) nsub

def bundleSplitDeliver {σ : Type} (deliverRnsFrame : List Byte → Mac → Bool → Sec σ Unit)
    (pkg : List Byte) (srcMac : Mac) (unicastToMe : Bool) : Nat → Nat → Sec σ Unit
  | _, 0 => pure ()
  | o, nsub + 1 => do
    let slen := (le16 pkg o).toNat
    let o := o + 2
    deliverRnsFrame ((pkg.drop o).take slen) srcMac unicastToMe
    bundleSplitDeliver deliverRnsFrame pkg srcMac unicastToMe (o + slen) nsub

def subFrames (pkg : List Byte) : Nat → Nat → List (List Byte)
  | _, 0 => []
  | o, nsub + 1 =>
    let slen := (le16 pkg o).toNat
    (pkg.drop (o + 2)).take slen :: subFrames pkg (o + 2 + slen) nsub

theorem bundleSplitDeliver_eq {σ : Type} (deliver : List Byte → Mac → Bool → Sec σ Unit)
    (pkg : List Byte) (src : Mac) (unicast : Bool) (o nsub : Nat) :
    bundleSplitDeliver deliver pkg src unicast o nsub =
      Sec.forEach (subFrames pkg o nsub) fun q => deliver q src unicast := by
  induction nsub generalizing o with
  | zero => rfl
  | succ nsub ih =>
    rw [bundleSplitDeliver, ih]
    rfl

def isEnvBundle (pkg : List Byte) : Bool :=
  pkg.length ≥ envBundleHdr + 2 && byteAt pkg 0 == ackMagic0 && byteAt pkg 1 == ackMagic1 &&
    halowEnvType pkg = envTypeBundle && halowEnvVer pkg = envVer

theorem bundleWalkValid_iff (pkg : List Byte) (off nsub : Nat) :
    bundleWalkValid pkg off nsub = true ↔ Ack.walkSubs pkg nsub off = some pkg.length := by
  induction nsub generalizing off with
  | zero => simp [bundleWalkValid, Ack.walkSubs]
  | succ nsub ih =>
    simp only [bundleWalkValid, Ack.walkSubs]
    split
    · simp
    · split
      · simp
      · exact ih _

open Ack

theorem le16_append (front rest : List Byte) : le16 (front ++ rest) front.length = le16 rest 0 := by
  have byte (k : Nat) : byteAt (front ++ rest) (front.length + k) = byteAt rest k := by
    simp [byteAt, List.getD_eq_getElem?_getD, List.getElem?_append_right]
  have lo := byte 0
  have hi := byte 1
  simp only [Nat.add_zero] at lo
  rw [le16, lo, hi, le16]

theorem le16_subFrame (front q : List Byte) (small : q.length < 2 ^ 16) (rest : List Byte) :
    (le16 (front ++ (subFrame q ++ rest)) front.length).toNat = q.length := by
  rw [le16_append]
  exact subFrame_len q small rest

theorem packed_cons (front q : List Byte) (more : List (List Byte)) :
    front ++ packed (q :: more) = front ++ (subFrame q ++ packed more) := by
  simp [packed]

theorem walkSubs_packed (front : List Byte) (payloads : List (List Byte))
    (small : ∀ q ∈ payloads, q.length < 2 ^ 16) :
    walkSubs (front ++ packed payloads) payloads.length front.length =
      some (front ++ packed payloads).length := by
  induction payloads generalizing front with
  | nil => simp [walkSubs, packed]
  | cons q more ih =>
    have len := le16_subFrame front q (small q (by simp)) (packed more)
    have tail := ih (front ++ subFrame q) fun x member => small x (by simp [member])
    have size : (subFrame q).length = 2 + q.length := by
      simp [subFrame]
      omega
    have next : front.length + 2 + q.length = (front ++ subFrame q).length := by
      rw [List.length_append, size]
      omega
    rw [packed_cons, List.length_cons, walkSubs, len]
    dsimp only
    rw [next, ← List.append_assoc, tail]
    have total : (front ++ subFrame q ++ packed more).length =
        front.length + (2 + q.length) + (packed more).length := by
      rw [List.length_append, List.length_append, size]
    rw [if_neg (by omega), if_neg (by rw [← next]; omega)]

theorem subFrames_packed (front : List Byte) (payloads : List (List Byte))
    (small : ∀ q ∈ payloads, q.length < 2 ^ 16) :
    subFrames (front ++ packed payloads) front.length payloads.length = payloads := by
  induction payloads generalizing front with
  | nil => rfl
  | cons q more ih =>
    have len := le16_subFrame front q (small q (by simp)) (packed more)
    have next : front.length + 2 + q.length = (front ++ subFrame q).length := by
      simp [subFrame]
      omega
    have first : ((front ++ (subFrame q ++ packed more)).drop (front.length + 2)).take q.length =
        q := by
      rw [List.drop_append, List.drop_of_length_le (by omega)]
      simp [subFrame]
    rw [packed_cons, List.length_cons, subFrames, len, next, first, ← List.append_assoc,
      ih (front ++ subFrame q) fun x mem => small x (List.mem_cons_of_mem q mem)]

def Pending (i : PeerIx) (trace : History) (payloads : List (List Byte)) : Prop :=
  pendingOf i trace = payloads ∧ ∀ q ∈ payloads, q ≠ []

theorem pending_account : Account Pending where
  unseen := fun ⟨same, filled⟩ unseen => ⟨pendingOf_account.unseen same unseen, filled⟩
  opened i trace τ mac := ⟨pendingOf_account.opened i trace τ mac, by simp⟩
  appended := by
    rintro i trace payloads τ t payload ⟨same, filled⟩ some
    refine ⟨pendingOf_account.appended τ t payload same some, fun q member => ?_⟩
    rcases List.mem_append.mp member with old | new
    · exact filled q old
    · rw [List.mem_singleton.mp new]
      exact some
  flushed τ seq data before := ⟨pendingOf_account.flushed τ seq data before.1, by simp⟩
  dropped τ t nsub data before := ⟨pendingOf_account.dropped τ t nsub data before.1, by simp⟩

def Loaded (c : Core) : Prop :=
  ∀ i, (c.peers i).inUse = true → (c.peers i).aggIdx.isSome = true → 0 < (c.peers i).aggNsub

theorem Loaded.set {c : Core} (loaded : Loaded c) {i : PeerIx} {p : AckPeer}
    (own : p.inUse = true → p.aggIdx.isSome = true → 0 < p.aggNsub) (k : PeerIx)
    (inUse : (update c.peers i p k).inUse = true)
    (staged : (update c.peers i p k).aggIdx.isSome = true) :
    0 < (update c.peers i p k).aggNsub := by
  by_cases same : k = i
  · subst same
    rw [update_self] at inUse staged ⊢
    exact own inUse staged
  · rw [update_of_ne same] at inUse staged ⊢
    exact loaded k inUse staged

theorem Loaded.place {c : Core} (loaded : Loaded c) {i : PeerIx} {p : AckPeer}
    (place : SamePlace (c.peers i) p) : Loaded (c.setPeer i p) := by
  refine loaded.set fun inUse staged => ?_
  rw [place.aggNsub]
  exact loaded i (place.inUse ▸ inUse) (place.aggIdx ▸ staged)

theorem Calm.loaded {c c' : Core} (move : Calm c c') (loaded : Loaded c) : Loaded c' := by
  cases move with
  | peer i p place => exact loaded.place place
  | opened i p mac fresh => exact loaded.set fun _ staged => by simp [fresh.aggIdx] at staged
  | forget i p mac inUse named place => exact loaded.place place
  | _ => exact loaded

theorem Micro.loaded {t : Nat} {c c' : Core} (move : Micro t c c') (loaded : Loaded c) :
    Loaded c' := by
  cases move with
  | calm move => exact Calm.loaded move loaded
  | stage i j blk cap n1 n2 payload =>
    have opened : Loaded ((c.stageAt i j blk cap n1 n2).setPeer i
        (((c.stageAt i j blk cap n1 n2).peers i).aggGrow payload.length)) := by
      intro k
      simp only [Core.setPeer, Core.stageAt, update_idem]
      exact loaded.set (fun _ _ => Nat.succ_pos _) k
    exact opened
  | append i j buf payload => exact loaded.set fun _ _ => Nat.succ_pos _
  | launch i j buf p n1 n2 n3 inUse named held window le1 le2 le3 place =>
    refine loaded.set fun _ staged => ?_
    have idle : p.aggIdx = none := place.aggIdx
    simp [idle] at staged
  | hold i => exact loaded.set fun _ staged => by simp [aggClear] at staged
  | hear i src payload undefinedShl =>
    exact loaded.place (peerRxSeq_place undefinedShl (c.peers i) (le16 payload 3))
  | _ => exact loaded

structure Carries (seq : BitVec 16) (data : List Byte) (payloads : List (List Byte)) : Prop where
  some : 1 ≤ payloads.length
  few : payloads.length ≤ aggMaxSub
  filled : ∀ q ∈ payloads, q ≠ []
  small : ∀ q ∈ payloads, q.length < 2 ^ 16
  bytes : data = bundleHdr seq payloads.length ++ packed payloads

def Shipped : History → Prop
  | [] => True
  | (_, e) :: older =>
    (∀ i seq data, e = .flushed i seq data → Carries seq data (pendingOf i older)) ∧ Shipped older

theorem carries_of_staged {c : Core} (inv : Inv c) (books : Books Pending c) (loaded : Loaded c)
    {i : PeerIx} {j : BufIx} {buf : AckBuf} (inUse : (c.peers i).inUse = true)
    (named : (c.peers i).aggIdx = some j) (held : c.bufs j = some buf) :
    Carries (takeSeq (c.peers i).txSeq).1
      ((sealBuf (c.peers i) buf 0 0).data.take (c.peers i).aggLen) (pendingOf i c.trace) := by
  obtain ⟨payloads, staging, same, filled⟩ := books i inUse
  obtain ⟨buf', held', staged⟩ := (Staging.some named).mp staging
  rw [held] at held'
  cases held'
  have ok := inv.layout.staged i j buf inUse named held
  rw [same]
  refine ⟨?_, ?_, filled, staged.small, staged.wire ok⟩
  · rw [staged.count]
    exact loaded i inUse (by rw [named]; rfl)
  · rw [staged.count]
    exact ok.subs

theorem Micro.shipped {t : Nat} {c c' : Core} (inv : Inv c) (books : Books Pending c)
    (loaded : Loaded c) (move : Micro t c c') (shipped : Shipped c.trace) : Shipped c'.trace := by
  cases move with
  | calm move => cases move <;> simp [Shipped, Core.note, Core.setPeer, Core.setBuf, shipped]
  | launch i j buf p n1 n2 n3 inUse named held =>
    refine ⟨?_, by simpa [Shipped] using shipped⟩
    rintro i seq data ⟨⟩
    have pending : pendingOf i ((n2, .born j) :: (n1, .txStamped j) :: c.trace) =
        pendingOf i c.trace := by
      simp [pendingOf, Event.opens, pickClosed, pickEntry]
    rw [pending]
    exact carries_of_staged inv books loaded inUse named held
  | _ => simp [Shipped, Core.note, Core.setPeer, Core.setBuf, Core.appendAt, Core.stageAt,
      Core.free, shipped]

section

variable {ρ : Type} [Platform ρ]

structure Freight (c : Core) : Prop where
  books : Books Pending c
  loaded : Loaded c
  shipped : Shipped c.trace

theorem freight_initial (cfg : Config) (n : Nat) : Freight (Core.initial cfg n) :=
  ⟨by rintro i ⟨⟩, by rintro i ⟨⟩, by simp [Core.initial, Shipped]⟩

theorem Micro.freight {t : Nat} {c c' : Core} (inv : Inv c) (move : Micro t c c')
    (freight : Freight c) : Freight c' where
  books := move.books pending_account inv freight.books
  loaded := Micro.loaded move freight.loaded
  shipped := Micro.shipped inv freight.books freight.loaded move freight.shipped

theorem freight_of_reachable {c : Threads ρ} (h : Reachable c) : Freight (core c.body) :=
  h.moves (fun cfg n _ => freight_initial cfg n) fun _ _ _ inv move => Micro.freight inv move

variable {seq : BitVec 16} {data : List Byte} {payloads : List (List Byte)}

theorem Shipped.at {newer older : History} {τ : Nat} {i : PeerIx}
    (shipped : Shipped (newer ++ (τ, .flushed i seq data) :: older)) :
    Carries seq data (pendingOf i older) := by
  induction newer with
  | nil => exact shipped.1 i seq data rfl
  | cons e rest ih => exact ih shipped.2

theorem Carries.isEnvFrame (carries : Carries seq data payloads) : isEnvFrame data = true := by
  rw [carries.bytes]
  rfl

theorem Carries.walk (carries : Carries seq data payloads) : envBundleWalkOk data = true := by
  have walk := walkSubs_packed (bundleHdr seq payloads.length) payloads carries.small
  rw [bundleHdr_length] at walk
  rw [carries.bytes, envBundleWalkOk, bundleHdr_count carries.few]
  exact decide_eq_true walk

theorem Carries.length (carries : Carries seq data payloads) : envBundleHdr + 2 ≤ data.length := by
  have header := bundleHdr_length seq payloads.length
  have same : envBundleHdr = ackAggReserve := rfl
  rw [carries.bytes, List.length_append, header, packed_length, sum_headers]
  have some := carries.some
  omega

theorem Carries.halowEnv (carries : Carries seq data payloads) :
    halowEnvVer data = envVer ∧ halowEnvType data = envTypeBundle := by
  have byte : byteAt data 2 = BitVec.ofNat 8 (envVer <<< 4 ||| envTypeBundle) := by
    rw [carries.bytes]
    rfl
  rw [halowEnvVer, halowEnvType, byte]
  decide

theorem Carries.header (carries : Carries seq data payloads) : le16 data 3 = seq := by
  rw [carries.bytes]
  exact le16_lo_hi seq

theorem Carries.isEnvBundle (carries : Carries seq data payloads) :
    Ack.isEnvBundle data = true := by
  simp [Ack.isEnvBundle, carries.halowEnv, carries.walk, carries.length]

theorem bundle_round_trip (c : Threads ρ) (h : Reachable c) (newer older : History)
    (τ : Nat) (i : PeerIx) (seq : BitVec 16) (data : List Byte)
    (sent : c.body.trace = newer ++ (τ, .flushed i seq data) :: older) :
    (1 ≤ (pendingOf i older).length ∧ (pendingOf i older).length ≤ 8 ∧
        ∀ q ∈ pendingOf i older, q ≠ []) ∧
      le16 data 3 = seq ∧
      RnodeHalow.isEnvFrame data = true ∧ envBundleWalkOk data = true ∧
      Ack.isEnvBundle data = true ∧ isEnvBundle data = true ∧
      bundleWalkValid data envBundleHdr (byteAt data 5).toNat = true ∧
      (∀ (σ : Type) (deliver : List Byte → Mac → Bool → Sec σ Unit) (src : Mac) (unicast : Bool),
        bundleSplitDeliver deliver data src unicast envBundleHdr (byteAt data 5).toNat =
          Sec.forEach (pendingOf i older) fun q => deliver q src unicast) ∧
      ∀ d : List Byte, 8 ≤ d.length →
        envBundleWalkOk d = bundleWalkValid d envBundleHdr (byteAt d 5).toNat := by
  have shipped : Shipped c.body.trace := (freight_of_reachable h).shipped
  rw [sent] at shipped
  have carries := Shipped.at shipped
  have agree (d : List Byte) :
      envBundleWalkOk d = bundleWalkValid d envBundleHdr (byteAt d 5).toNat := by
    rw [Bool.eq_iff_iff, bundleWalkValid_iff, envBundleWalkOk, decide_eq_true_iff]
  have header := carries.halowEnv
  have long := carries.length
  refine ⟨⟨carries.some, carries.few, carries.filled⟩, carries.header, carries.isEnvFrame,
    carries.walk, carries.isEnvBundle, ?_, agree data ▸ carries.walk, ?_, fun d _ => agree d⟩
  · have magic : byteAt data 0 = ackMagic0 ∧ byteAt data 1 = ackMagic1 := by
      rw [carries.bytes]
      exact ⟨rfl, rfl⟩
    simp [isEnvBundle, header, magic, long]
  · intro σ deliver src unicast
    have split := subFrames_packed (bundleHdr seq (pendingOf i older).length) (pendingOf i older)
      carries.small
    rw [bundleHdr_length] at split
    rw [carries.bytes, bundleHdr_count carries.few, bundleSplitDeliver_eq]
    exact congrArg (Sec.forEach · _) split

end

def twoPayloads : List (Move Board) := threePayloads.take 14

theorem bundle_round_trip_twoPayloads : ∃ c newer older,
    playAll twoPayloads quietNode = some c ∧
      c.body.trace = newer ++ (100000, .flushed 0 0 twoPayloadsFrame) :: older ∧
      pendingOf 0 older = [[1, 2, 3], [4]] ∧
      bundleWalkValid twoPayloadsFrame envBundleHdr (byteAt twoPayloadsFrame 5).toNat = true ∧
      ∀ (σ : Type) (deliver : List Byte → Mac → Bool → Sec σ Unit) (src : Mac) (unicast : Bool),
        bundleSplitDeliver deliver twoPayloadsFrame src unicast envBundleHdr
            (byteAt twoPayloadsFrame 5).toNat =
          Sec.forEach [[1, 2, 3], [4]] fun q => deliver q src unicast := by
  have run : ∃ c ∈ playAll twoPayloads quietNode,
      (c.body.trace.drop 2).head? = some (100000, .flushed 0 0 twoPayloadsFrame) ∧
        pendingOf 0 (c.body.trace.drop 2).tail = [[1, 2, 3], [4]] := by
    decide +kernel
  obtain ⟨c, script, reach, sent, pending⟩ := played run
  have trace : c.body.trace = c.body.trace.take 2 ++
      (100000, .flushed 0 0 twoPayloadsFrame) :: (c.body.trace.drop 2).tail := by
    rw [List.cons_head?_tail sent, List.take_append_drop]
  have trip := bundle_round_trip c reach _ _ _ _ _ _ trace
  rw [pending] at trip
  obtain ⟨-, -, -, -, -, -, valid, split, -⟩ := trip
  exact ⟨c, _, _, script, trace, pending, valid, split⟩

end RnodeHalow.Handler
