import RnodeHalow.Ack.Schedule

set_option autoImplicit false

namespace RnodeHalow.Ack

open Resumption
open Function (update update_of_ne update_self)

variable {ρ : Type} [Platform ρ]

def subFrame (payload : List Byte) : List Byte :=
  let len := BitVec.ofNat 16 payload.length
  lo8 len :: hi8 len :: payload

def packed (payloads : List (List Byte)) : List Byte := payloads.flatMap subFrame

def subsOf : Nat → List Byte → List (List Byte)
  | 0, _ => []
  | n + 1, bytes =>
    let len := (le16 bytes 0).toNat
    (bytes.drop 2).take len :: subsOf n (bytes.drop (2 + len))

def unbundle (data : List Byte) : List (List Byte) :=
  subsOf (byteAt data 5).toNat (data.drop envBundleHdr)

theorem subFrame_len (payload : List Byte) (small : payload.length < 2 ^ 16) (rest : List Byte) :
    (le16 (subFrame payload ++ rest) 0).toNat = payload.length := by
  have value := le16_lo_hi (BitVec.ofNat 16 payload.length)
  have head : le16 (subFrame payload ++ rest) 0 = BitVec.ofNat 16 payload.length := value
  rw [head, BitVec.toNat_ofNat, Nat.mod_eq_of_lt small]

theorem packed_length (payloads : List (List Byte)) :
    (packed payloads).length = (payloads.map fun q => 2 + q.length).sum := by
  induction payloads with
  | nil => rfl
  | cons q more ih =>
    have bytes : packed (q :: more) = subFrame q ++ packed more := rfl
    have sub : (subFrame q).length = q.length + 2 := rfl
    rw [bytes, List.length_append, List.map_cons, List.sum_cons, ih, sub]
    omega

theorem sum_headers (payloads : List (List Byte)) :
    (payloads.map fun q => 2 + q.length).sum =
      2 * payloads.length + (payloads.map List.length).sum := by
  induction payloads with
  | nil => rfl
  | cons q more ih =>
    rw [List.map_cons, List.sum_cons, List.map_cons, List.sum_cons, List.length_cons, ih]
    omega

theorem subsOf_packed (payloads : List (List Byte)) (small : ∀ q ∈ payloads, q.length < 2 ^ 16)
    (rest : List Byte) : subsOf payloads.length (packed payloads ++ rest) = payloads := by
  induction payloads with
  | nil => rfl
  | cons q more ih =>
    have bytes : packed (q :: more) ++ rest = subFrame q ++ (packed more ++ rest) := by
      simp [packed]
    have len := subFrame_len q (small q (by simp)) (packed more ++ rest)
    have tail := ih fun x member => small x (by simp [member])
    rw [bytes, List.length_cons, subsOf, len]
    have first : ((subFrame q ++ (packed more ++ rest)).drop 2).take q.length = q := by
      simp [subFrame]
    have remaining : (subFrame q ++ (packed more ++ rest)).drop (2 + q.length) =
        packed more ++ rest := by
      rw [Nat.add_comm]
      simp [subFrame]
    rw [first, remaining, tail]

theorem writeAt_append (d a b : List Byte) (ofs : Nat) (inside : ofs ≤ d.length) :
    writeAt (writeAt d ofs a) (ofs + a.length) b = writeAt d ofs (a ++ b) := by
  have front : (d.take ofs).length = ofs := by simp [inside]
  have head : (d.take ofs ++ a ++ d.drop (ofs + a.length)).take (ofs + a.length) =
      d.take ofs ++ a := by
    apply List.take_left'
    simp [front]
  have tail : (d.take ofs ++ a ++ d.drop (ofs + a.length)).drop (ofs + a.length + b.length) =
      d.drop (ofs + (a ++ b).length) := by
    rw [← List.drop_drop, List.drop_left' (by simp [front]), List.drop_drop, List.length_append,
      Nat.add_assoc]
  unfold writeAt
  rw [head, tail, ← List.append_assoc]

theorem writeAt_take (d bytes : List Byte) (ofs : Nat) (inside : ofs ≤ d.length) :
    (writeAt d ofs bytes).take (ofs + bytes.length) = d.take ofs ++ bytes := by
  apply List.take_left'
  simp [inside]

structure StagedAs (p : AckPeer) (buf : AckBuf) (payloads : List (List Byte)) : Prop where
  count : payloads.length = p.aggNsub
  bytes : ∃ hdr, hdr.length = ackAggReserve ∧ buf.data.take p.aggLen = hdr ++ packed payloads
  small : ∀ q ∈ payloads, q.length < 2 ^ 16

variable {p : AckPeer} {buf : AckBuf} {i : PeerIx} {c : Core}

theorem StagedAs.subs {payloads : List (List Byte)} (staged : StagedAs p buf payloads) :
    subsOf p.aggNsub ((buf.data.take p.aggLen).drop ackAggReserve) = payloads := by
  obtain ⟨hdr, len, eq⟩ := staged.bytes
  have decoded := subsOf_packed payloads staged.small []
  rw [eq, List.drop_left' len, ← staged.count]
  simpa using decoded

theorem StagedAs.opened {j : BufIx} {first : Jiffy} (room : ackAggReserve ≤ buf.data.length) :
    StagedAs (p.aggOpen j first) buf [] where
  count := rfl
  bytes := ⟨buf.data.take ackAggReserve, by simp [room], by simp [AckPeer.aggOpen, packed]⟩
  small := by simp

theorem StagedAs.append {payloads : List (List Byte)} (staged : StagedAs p buf payloads)
    (payload : List Byte) (small : payload.length < 2 ^ 16) (inside : p.aggLen ≤ buf.data.length) :
    StagedAs (p.aggGrow payload.length) (buf.writeSub p.aggLen payload)
      (payloads ++ [payload]) where
  count := by simp [AckPeer.aggGrow, staged.count]
  bytes := by
    obtain ⟨hdr, len, eq⟩ := staged.bytes
    refine ⟨hdr, len, ?_⟩
    have written : (buf.writeSub p.aggLen payload).data = writeAt buf.data p.aggLen
        (subFrame payload) := writeAt_append buf.data [_, _] payload p.aggLen inside
    have total : p.aggLen + 2 + payload.length = p.aggLen + (subFrame payload).length := by
      simp [subFrame]
      omega
    simp only [AckPeer.aggGrow, written, total, writeAt_take _ _ _ inside, eq]
    simp [packed]
  small := by
    intro q member
    rcases List.mem_append.mp member with old | new
    · exact staged.small q old
    · rw [List.mem_singleton.mp new]
      exact small

theorem bundleHdr_length (seq : BitVec 16) (nsub : Nat) :
    (bundleHdr seq nsub).length = ackAggReserve := rfl

theorem StagedAs.wire {payloads : List (List Byte)} (staged : StagedAs p buf payloads)
    (ok : StagedOk p buf) :
    (sealBuf p buf 0 0).data.take p.aggLen =
      bundleHdr (takeSeq p.txSeq).1 payloads.length ++ packed payloads := by
  obtain ⟨hdr, len, eq⟩ := staged.bytes
  have reserve : ackAggReserve ≤ p.aggLen := Nat.le_trans (Nat.le_add_right _ _) ok.reserve
  have header := bundleHdr_length (takeSeq p.txSeq).1 p.aggNsub
  have tail : (buf.data.take p.aggLen).drop ackAggReserve = packed payloads := by
    rw [eq, List.drop_left' len]
  rw [← tail, List.drop_take, staged.count]
  simp only [sealBuf, writeAt, List.take_zero, List.nil_append, Nat.zero_add, header]
  rw [List.take_append, header, List.take_of_length_le (by rw [header]; exact reserve)]

theorem bundleHdr_count {seq : BitVec 16} {nsub : Nat} {rest : List Byte} (few : nsub ≤ aggMaxSub) :
    (byteAt (bundleHdr seq nsub ++ rest) 5).toNat = nsub := by
  change (BitVec.ofNat 8 nsub).toNat = nsub
  rw [BitVec.toNat_ofNat]
  apply Nat.mod_eq_of_lt
  have bound : aggMaxSub < 2 ^ 8 := by decide
  omega

theorem StagedAs.sealed {payloads : List (List Byte)} (staged : StagedAs p buf payloads)
    (ok : StagedOk p buf) : unbundle ((sealBuf p buf 0 0).data.take p.aggLen) = payloads := by
  have few : payloads.length ≤ aggMaxSub := by
    rw [staged.count]
    exact ok.subs
  have header := bundleHdr_length (takeSeq p.txSeq).1 payloads.length
  have decoded := subsOf_packed payloads staged.small []
  rw [staged.wire ok, unbundle, bundleHdr_count few, show envBundleHdr = ackAggReserve from rfl,
    List.drop_left' header]
  simpa using decoded

structure Bundle where
  dropped : Bool
  payloads : List (List Byte)
  deriving DecidableEq, Repr

def pickEntry (i : PeerIx) : Event → Option (List Byte)
  | .appended _ k payload => if k = i then some payload else none
  | _ => none

def pickClosed (i : PeerIx) : Event → Option Bundle
  | .flushed k _ data => if k = i then some ⟨false, unbundle data⟩ else none
  | .holdDropped _ k nsub data =>
    if k = i then some ⟨true, subsOf nsub (data.drop ackAggReserve)⟩ else none
  | _ => none

def pickSent (i : PeerIx) : Event → Option (List (List Byte))
  | .flushed k _ data => if k = i then some (unbundle data) else none
  | _ => none

def pickWriter (i : PeerIx) : Event → Option Nat
  | .appended u k _ => if k = i then some u else none
  | _ => none

def writers (i : PeerIx) : History → List Nat := collect (pickWriter i) i

def closedBundles (i : PeerIx) (trace : History) : List Bundle :=
  (collect (pickClosed i) i trace).reverse

def sentBundles (i : PeerIx) (trace : History) : List (List (List Byte)) :=
  (collect (pickSent i) i trace).reverse

def accepted (t : Nat) (i : PeerIx) (trace : History) : List (List Byte) :=
  (bundledBy t i trace).reverse

def stagedPayloads (i : PeerIx) (c : Core) : List (List Byte) :=
  match (c.peers i).aggIdx.bind c.bufs with
  | none => []
  | some buf =>
    subsOf (c.peers i).aggNsub ((buf.data.take (c.peers i).aggLen).drop ackAggReserve)

def Staging (i : PeerIx) (c : Core) (payloads : List (List Byte)) : Prop :=
  match (c.peers i).aggIdx with
  | none => payloads = []
  | some j => ∃ buf, c.bufs j = some buf ∧ StagedAs (c.peers i) buf payloads

def Accounted (i : PeerIx) (trace : History) (payloads : List (List Byte)) : Prop :=
  collect (pickEntry i) i trace =
    payloads.reverse ++ (collect (pickClosed i) i trace).flatMap fun b => b.payloads.reverse

def Ledger (c : Core) : Prop :=
  ∀ i, (c.peers i).inUse = true → ∃ payloads, Staging i c payloads ∧ Accounted i c.trace payloads

theorem Staging.none {payloads : List (List Byte)} (idle : (c.peers i).aggIdx = none) :
    Staging i c payloads ↔ payloads = [] := by
  simp [Staging, idle]

theorem Staging.some {payloads : List (List Byte)} {j : BufIx}
    (named : (c.peers i).aggIdx = some j) :
    Staging i c payloads ↔ ∃ buf, c.bufs j = some buf ∧ StagedAs (c.peers i) buf payloads := by
  simp [Staging, named]

theorem StagedAs.place {p q : AckPeer} {payloads : List (List Byte)}
    (staged : StagedAs p buf payloads) (same : SamePlace p q) : StagedAs q buf payloads where
  count := staged.count.trans same.aggNsub.symm
  bytes := by rw [same.aggLen]; exact staged.bytes
  small := staged.small

theorem Staging.keep {c c' : Core} {payloads : List (List Byte)} (staging : Staging i c payloads)
    (same : SamePlace (c.peers i) (c'.peers i))
    (slot : ∀ j, (c.peers i).aggIdx = Option.some j → c'.bufs j = c.bufs j) :
    Staging i c' payloads := by
  cases named : (c.peers i).aggIdx with
  | none => exact (Staging.none (same.aggIdx.trans named)).mpr ((Staging.none named).mp staging)
  | some j =>
    obtain ⟨buf, held, as⟩ := (Staging.some named).mp staging
    exact (Staging.some (same.aggIdx.trans named)).mpr
      ⟨buf, (slot j named).trans held, as.place same⟩

def Event.Unseen (i : PeerIx) (e : Event) : Prop :=
  e.opens i = false ∧ pickEntry i e = none ∧ pickClosed i e = none

def Event.NoBundle : Event → Prop
  | .opened .. => False
  | .appended .. => False
  | .flushed .. => False
  | .holdDropped .. => False
  | _ => True

theorem Event.NoBundle.unseen {e : Event} (other : e.NoBundle) (i : PeerIx) : e.Unseen i := by
  cases e with
  | opened | appended | flushed | holdDropped => cases other
  | _ => exact ⟨rfl, rfl, rfl⟩

structure Account (A : PeerIx → History → List (List Byte) → Prop) : Prop where
  unseen : ∀ {i trace payloads τ e}, A i trace payloads → Event.Unseen i e →
    A i ((τ, e) :: trace) payloads
  opened : ∀ i trace τ mac, A i ((τ, .opened i mac) :: trace) []
  appended : ∀ {i trace payloads} τ t payload, A i trace payloads → payload ≠ [] →
    A i ((τ, .appended t i payload) :: trace) (payloads ++ [payload])
  flushed : ∀ {i trace} τ seq data, A i trace (unbundle data) →
    A i ((τ, .flushed i seq data) :: trace) []
  dropped : ∀ {i trace} τ t nsub data, A i trace (subsOf nsub (data.drop ackAggReserve)) →
    A i ((τ, .holdDropped t i nsub data) :: trace) []

theorem accounted_account : Account Accounted where
  unseen := by
    intro i trace payloads τ e accounted unseen
    have same : collect (pickEntry i) i trace = _ := accounted
    simp [Accounted, collect, unseen.1, unseen.2.1, unseen.2.2, same]
  opened := by simp [Accounted, collect, Event.opens]
  appended := by
    intro i trace payloads τ t payload accounted _
    have before : collect (pickEntry i) i trace = _ := accounted
    simp [Accounted, collect, Event.opens, pickEntry, pickClosed, before]
  flushed := by
    intro i trace τ seq data accounted
    have before : collect (pickEntry i) i trace = _ := accounted
    simp [Accounted, collect, Event.opens, pickEntry, pickClosed, before]
  dropped := by
    intro i trace τ t nsub data accounted
    have before : collect (pickEntry i) i trace = _ := accounted
    simp [Accounted, collect, Event.opens, pickEntry, pickClosed, before]

def Books (A : PeerIx → History → List (List Byte) → Prop) (c : Core) : Prop :=
  ∀ i, (c.peers i).inUse = true → ∃ payloads, Staging i c payloads ∧ A i c.trace payloads

-- The payloads put into the entry since it was last opened or emptied.
def pendingOf (i : PeerIx) : History → List (List Byte)
  | [] => []
  | (_, e) :: older =>
    if e.opens i || (pickClosed i e).isSome then []
    else pendingOf i older ++ (pickEntry i e).toList

theorem pendingOf_account : Account fun i trace payloads => pendingOf i trace = payloads where
  unseen := by
    intro i trace payloads τ e same unseen
    simp [pendingOf, unseen.1, unseen.2.1, unseen.2.2, same]
  opened := by simp [pendingOf, Event.opens]
  appended := by
    intro i trace payloads τ t payload same _
    simp [pendingOf, Event.opens, pickClosed, pickEntry, same]
  flushed := by simp [pendingOf, pickClosed]
  dropped := by simp [pendingOf, pickClosed]

section Books

variable {A : PeerIx → History → List (List Byte) → Prop}

variable {i : PeerIx} {c c' : Core} {j : BufIx}

theorem Account.aside (acc : Account A) {trace : History} {payloads : List (List Byte)}
    {τ : Nat} {e : Event} (h : A i trace payloads) (other : e.NoBundle) :
    A i ((τ, e) :: trace) payloads := acc.unseen h (other.unseen i)

theorem Books.staged (books : Books A c) {buf : AckBuf} (inUse : (c.peers i).inUse = true)
    (named : (c.peers i).aggIdx = some j) (held : c.bufs j = some buf) :
    ∃ payloads, StagedAs (c.peers i) buf payloads ∧ A i c.trace payloads := by
  obtain ⟨payloads, staging, accounted⟩ := books i inUse
  obtain ⟨buf', held', staged⟩ := (Staging.some named).mp staging
  rw [held] at held'
  cases held'
  exact ⟨payloads, staged, accounted⟩

theorem Books.keep (books : Books A c) (rep : RepInv c)
    (bufs : ∀ j mac, StagedAt c j mac → c'.bufs j = c.bufs j)
    (peers : ∀ i, SamePlace (c.peers i) (c'.peers i))
    (trace : ∀ i payloads, A i c.trace payloads → A i c'.trace payloads) : Books A c' := by
  intro i inUse
  have before : (c.peers i).inUse = true := (peers i).inUse.symm.trans inUse
  obtain ⟨payloads, staging, accounted⟩ := books i before
  refine ⟨payloads, staging.keep (peers i) fun j named => ?_, trace i payloads accounted⟩
  exact bufs j _ ((rep.agg_iff i before j).mp named)

theorem Books.entry (books : Books A c) (peers : ∀ k, k ≠ i → c'.peers k = c.peers k)
    (bufs : ∀ k, k ≠ i → (c.peers k).inUse = true → ∀ j, (c.peers k).aggIdx = some j →
      c'.bufs j = c.bufs j)
    (trace : ∀ k, k ≠ i → ∀ payloads, A k c.trace payloads → A k c'.trace payloads)
    (own : (c'.peers i).inUse = true → ∃ payloads, Staging i c' payloads ∧ A i c'.trace payloads) :
    Books A c' := by
  intro k inUse
  by_cases same : k = i
  · subst same
    exact own inUse
  · rw [peers k same] at inUse
    obtain ⟨payloads, staging, accounted⟩ := books k inUse
    refine ⟨payloads, staging.keep ?_ (bufs k same inUse), trace k same payloads accounted⟩
    rw [peers k same]
    exact .refl _

theorem not_stagedAt_empty (empty : c.bufs j = none) (mac : Mac) : ¬ StagedAt c j mac := by
  rintro ⟨buf, held, _⟩
  rw [empty] at held
  cases held

theorem not_stagedAt_state {buf : AckBuf} (held : c.bufs j = some buf)
    (state : buf.state ≠ .staging) (mac : Mac) : ¬ StagedAt c j mac := by
  rintro ⟨buf', held', staging, _⟩
  rw [held] at held'
  cases held'
  exact state staging

theorem update_unstaged {k : BufIx} (free : ∀ mac, ¬ StagedAt c k mac) (x : Option AckBuf)
    (j : BufIx) (mac : Mac) (staged : StagedAt c j mac) :
    update c.bufs k x j = c.bufs j := by
  apply update_of_ne
  rintro rfl
  exact free mac staged

theorem RepInv.apart (rep : RepInv c) {i k : PeerIx} (usedI : (c.peers i).inUse = true)
    (usedK : (c.peers k).inUse = true) (namedI : (c.peers i).aggIdx = some j)
    (namedK : (c.peers k).aggIdx = some j) : k = i := by
  obtain ⟨buf, held, _, dest⟩ := (rep.agg_iff i usedI j).mp namedI
  obtain ⟨buf', held', _, dest'⟩ := (rep.agg_iff k usedK j).mp namedK
  rw [held] at held'
  cases held'
  exact rep.mac_inj k i usedK usedI (dest'.symm.trans dest)

theorem update_apart (rep : RepInv c) {x : Option AckBuf} (inUse : (c.peers i).inUse = true)
    (named : (c.peers i).aggIdx = some j) (k : PeerIx) (ne : k ≠ i)
    (usedK : (c.peers k).inUse = true) (m : BufIx) (namedK : (c.peers k).aggIdx = some m) :
    update c.bufs j x m = c.bufs m := by
  apply update_of_ne
  rintro rfl
  exact ne (rep.apart inUse usedK named namedK)

theorem Books.note (acc : Account A) (books : Books A c) (rep : RepInv c) {e : Event}
    (other : e.NoBundle) : Books A (c.note e) :=
  books.keep rep (fun _ _ _ => rfl) (fun _ => .refl _) fun _ _ h => acc.aside h other

theorem Books.setPeer (books : Books A c) (rep : RepInv c) {k : PeerIx} {p : AckPeer}
    (place : SamePlace (c.peers k) p) : Books A (c.setPeer k p) := by
  refine books.keep rep (fun _ _ _ => rfl) (fun i => ?_) fun _ _ h => h
  by_cases eq : i = k
  · subst eq
    simpa [Core.setPeer] using place
  · simp [Core.setPeer, update_of_ne eq, SamePlace.refl]

theorem Calm.books (acc : Account A) (move : Calm c c') (inv : Inv c) (books : Books A c) :
    Books A c' := by
  have same (i : PeerIx) : SamePlace (c.peers i) (c.peers i) := .refl _
  cases move with
  | elapse | governor | measured => exact books.keep inv.rep (fun _ _ _ => rfl) same fun _ _ h => h
  | air data dest mcs tid =>
    exact books.note acc inv.rep trivial
  | peer k p place => exact books.setPeer inv.rep place
  | kick k buf due held inflight =>
    have free := not_stagedAt_state held (by rw [inflight]; decide)
    exact books.keep inv.rep (update_unstaged free _) same fun _ _ h => acc.aside h trivial
  | opened i p mac fresh new bare =>
    refine books.entry (i := i) (fun k ne => update_of_ne ne _ _) (fun _ _ _ _ _ => rfl)
      (fun k ne _ h => acc.unseen h ?_) fun _ => ⟨[], ?_, ?_⟩
    · simp [Event.Unseen, Event.opens, pickEntry, pickClosed, Ne.symm ne]
    · refine (Staging.none ?_).mpr rfl
      simpa [Core.setPeer, Core.note] using fresh.aggIdx
    · exact acc.opened i c.trace c.clock mac
  | forget k p mac inUse named place =>
    exact (books.setPeer inv.rep place).note acc (inv.peer place).rep trivial

theorem Books.stageAt {blk : HeapBlock} {cap n1 n2 : Nat} (acc : Account A) (books : Books A c)
    (inv : Inv c) (inUse : (c.peers i).inUse = true) (idle : (c.peers i).aggIdx = none)
    (empty : c.bufs j = none) (room : ackAggReserve ≤ cap) :
    Books A (c.stageAt i j blk cap n1 n2) := by
  have unseen (k : PeerIx) (payloads : List (List Byte)) (h : A k c.trace payloads) :
      A k ((n2, .stamped i) :: (n1, .born j) :: c.trace) payloads :=
    acc.aside (acc.aside h trivial) trivial
  refine books.entry (i := i) (fun k ne => update_of_ne ne _ _) ?_
    (fun k _ => unseen k) fun _ => ⟨[], ?_, unseen i [] ?_⟩
  · intro k _ used m named
    exact update_unstaged (not_stagedAt_empty empty) _ m _ ((inv.rep.agg_iff k used m).mp named)
  · refine (Staging.some (j := j) (by simp [Core.stageAt, AckPeer.aggOpen])).mpr
      ⟨_, update_self .., ?_⟩
    simp only [Core.stageAt, update_self]
    exact .opened (by simpa [freshBuf] using room)
  · obtain ⟨payloads, staging, accounted⟩ := books i inUse
    rw [(Staging.none idle).mp staging] at accounted
    exact accounted

theorem Books.appendAt {t : Nat} {buf : AckBuf} {payload : List Byte} (acc : Account A)
    (books : Books A c) (inv : Inv c) (inUse : (c.peers i).inUse = true)
    (named : (c.peers i).aggIdx = some j) (held : c.bufs j = some buf)
    (fits : (c.peers i).aggLen + 2 + payload.length ≤ buf.cap) (filled : payload ≠ []) :
    Books A (c.appendAt t i j buf payload) := by
  refine books.entry (i := i) (fun k ne => update_of_ne ne _ _)
    (update_apart inv.rep inUse named) (fun k ne _ h => acc.unseen h ?_) fun _ => ?_
  · simp [Event.Unseen, Event.opens, pickEntry, pickClosed, Ne.symm ne]
  · obtain ⟨payloads, staged, accounted⟩ := books.staged inUse named held
    have block := inv.layout.block j buf held
    have size := block.size
    have small := block.cap_le
    have wire : ackWireMax < 2 ^ 16 := by decide
    refine ⟨payloads ++ [payload], ?_, ?_⟩
    · refine (Staging.some (j := j) ?_).mpr ⟨_, update_self .., ?_⟩
      · simpa [Core.appendAt, Core.setPeer, Core.setBuf, Core.note, AckPeer.aggGrow] using named
      · simp only [Core.appendAt, Core.setPeer, Core.setBuf, Core.note, update_self]
        exact staged.append payload (by omega) (by omega)
    · exact acc.appended c.clock t payload accounted filled

theorem Micro.books {t : Nat} (acc : Account A) (inv : Inv c) (move : Micro t c c')
    (books : Books A c) : Books A c' := by
  have same (i : PeerIx) : SamePlace (c.peers i) (c.peers i) := .refl _
  have noted {e : Event} (other : e.NoBundle) : Books A (c.note e) := books.note acc inv.rep other
  cases move with
  | calm move => exact move.books acc inv books
  | sample | accept | due | handOff | meet | deliver => exact noted trivial
  | expire k buf life τ held inflight =>
    have free := not_stagedAt_state held (by rw [inflight]; decide)
    exact books.keep inv.rep (update_unstaged free _) same fun _ _ h =>
      acc.aside (acc.aside h trivial) trivial
  | stage i j blk cap n1 n2 payload inUse idle empty room small le1 le2 filled =>
    have staged : Inv (c.stageAt i j blk cap n1 n2) := inv.stageAt inUse idle empty (by omega) small
    refine (books.stageAt acc inv inUse idle empty (by omega)).appendAt acc staged ?_ ?_
      (update_self ..) ?_ filled
    · simpa [Core.stageAt, AckPeer.aggOpen] using inUse
    · simp [Core.stageAt, AckPeer.aggOpen]
    · simpa [Core.stageAt, AckPeer.aggOpen, freshBuf] using room
  | append i j buf payload inUse named held fits subs filled =>
    exact books.appendAt acc inv inUse named held fits filled
  | launch i j buf p n1 n2 n3 inUse named held window le1 le2 le3 place =>
    refine books.entry (i := i) (fun k ne => update_of_ne ne _ _)
      (update_apart inv.rep inUse named) (fun k ne _ h => ?_) fun _ => ⟨[], ?_, ?_⟩
    · refine acc.unseen (acc.aside (acc.aside h trivial) trivial) ?_
      simp [Event.Unseen, Event.opens, pickEntry, pickClosed, Ne.symm ne]
    · refine (Staging.none ?_).mpr rfl
      simpa [AckPeer.nextSeq, aggClear] using place.aggIdx
    · obtain ⟨payloads, staged, accounted⟩ := books.staged inUse named held
      have decoded := staged.sealed (inv.layout.staged i j buf inUse named held)
      exact acc.flushed n3 _ _ (acc.aside (acc.aside (decoded ▸ accounted) trivial) trivial)
  | plain i j blk payload n1 n2 inUse empty =>
    exact books.keep inv.rep (update_unstaged (not_stagedAt_empty empty) _) same fun _ _ h =>
      acc.aside (acc.aside h trivial) trivial
  | touch k buf τ held inflight | release k buf why held inflight =>
    have free := not_stagedAt_state held (by rw [inflight]; decide)
    exact books.keep inv.rep (update_unstaged free _) same fun _ _ h => acc.aside h trivial
  | mark k buf τ held inflight =>
    have free := not_stagedAt_state held (by rw [inflight]; decide)
    exact books.keep inv.rep (update_unstaged free _) same fun _ _ h => h
  | sentOff k buf held sending =>
    have free := not_stagedAt_state held (not_staging sending)
    exact books.keep inv.rep (update_unstaged free _) same fun _ _ h => h
  | hold i j buf τ inUse named held sampled old =>
    refine books.entry (i := i) (fun k ne => update_of_ne ne _ _)
      (update_apart inv.rep inUse named) (fun k ne _ h => acc.unseen h ?_) fun _ => ⟨[], ?_, ?_⟩
    · simp [Event.Unseen, Event.opens, pickEntry, pickClosed, Ne.symm ne]
    · refine (Staging.none ?_).mpr rfl
      simp [Core.setPeer, aggClear]
    · obtain ⟨payloads, staged, accounted⟩ := books.staged inUse named held
      exact acc.dropped c.clock t _ _ (staged.subs.symm ▸ accounted)
  | reconfig | reject =>
    exact books.keep inv.rep (fun _ _ _ => rfl) same fun _ _ h => acc.aside h trivial
  | hear k src payload undefinedShl =>
    have place := peerRxSeq_place undefinedShl (c.peers k) (le16 payload 3)
    exact (books.setPeer inv.rep place).note acc (inv.peer place).rep trivial

theorem Reachable.books {c : Threads ρ} (h : Reachable c) (acc : Account A) :
    Books A (core c.body) :=
  h.moves (by rintro cfg n _ i ⟨⟩) fun _ _ _ inv move books => move.books acc inv books

end Books

theorem Reachable.ledger {c : Threads ρ} (h : Reachable c) : Ledger (core c.body) :=
  h.books accounted_account

theorem Staging.payloads {payloads : List (List Byte)} (staging : Staging i c payloads) :
    stagedPayloads i c = payloads := by
  cases named : (c.peers i).aggIdx with
  | none =>
    rw [(Staging.none named).mp staging]
    simp [stagedPayloads, named]
  | some j =>
    obtain ⟨buf, held, staged⟩ := (Staging.some named).mp staging
    simp only [stagedPayloads, named, Option.bind_some, held]
    exact staged.subs

theorem pickEntry_of_sole {t : Nat} {e : Event} (sole : ∀ u ∈ (pickWriter i e).toList, u = t) :
    pickEntry i e = pickAppended t i e := by
  cases e with
  | appended u k payload =>
    by_cases hit : k = i
    · have writer : u = t := sole u (by simp [pickWriter, hit])
      simp [pickEntry, pickAppended, hit, writer]
    · simp [pickEntry, pickAppended, hit]
  | _ => rfl

theorem entries_of_sole {t : Nat} {trace : History}
    (sole : ∀ u ∈ writers i trace, u = t) :
    collect (pickEntry i) i trace = appendedBy t i trace := by
  induction trace with
  | nil => rfl
  | cons e older ih =>
    obtain ⟨τ, e⟩ := e
    by_cases opens : e.opens i = true
    · simp only [collect, appendedBy, opens, if_true]
    · simp only [writers, collect, opens, Bool.false_eq_true, if_false, List.mem_append] at sole
      have head := pickEntry_of_sole fun u member => sole u (.inl member)
      have tail := ih fun u member => sole u (.inr member)
      rw [appendedBy] at tail ⊢
      rw [collect, collect, head, tail]

theorem sentBundles_eq (i : PeerIx) (trace : History) :
    sentBundles i trace =
      ((closedBundles i trace).filter fun b => !b.dropped).map (·.payloads) := by
  have same : collect (pickSent i) i trace =
      ((collect (pickClosed i) i trace).filter fun b => !b.dropped).map (·.payloads) := by
    induction trace with
    | nil => rfl
    | cons e older ih =>
      obtain ⟨τ, e⟩ := e
      by_cases opens : e.opens i = true
      · simp [collect, opens]
      · simp only [collect, opens, Bool.false_eq_true, if_false, ih]
        cases e with
        | flushed k seq data | holdDropped u k nsub data =>
          by_cases hit : k = i <;> simp [pickSent, pickClosed, hit]
        | _ => simp [pickSent, pickClosed]
  simp [sentBundles, closedBundles, same]

theorem bundling_keeps_order (c : Threads ρ) (h : Reachable c) (i : PeerIx)
    (inUse : (c.body.peers i).inUse = true) (t : Nat) (idle : c.threads t = none)
    (sole : ∀ u ∈ writers i c.body.trace, u = t) :
    accepted t i c.body.trace =
        (closedBundles i c.body.trace).flatMap (·.payloads) ++
          stagedPayloads i (core c.body) ∧
      (sentBundles i c.body.trace).flatten ++ stagedPayloads i (core c.body) =
        ((closedBundles i c.body.trace).filter fun b => !b.dropped).flatMap (·.payloads) ++
          stagedPayloads i (core c.body) := by
  obtain ⟨payloads, staging, accounted⟩ := h.ledger i inUse
  have entries : appendedBy t i c.body.trace = payloads.reverse ++
      (collect (pickClosed i) i c.body.trace).flatMap fun b => b.payloads.reverse :=
    (entries_of_sole sole).symm.trans accounted
  constructor
  · rw [accepted, ← h.settled idle i, entries, staging.payloads, closedBundles]
    simp [List.reverse_flatMap, Function.comp_def]
  · rw [sentBundles_eq, List.flatMap_def]

def threePayloads : List (Move Board) :=
  [.start 1 (.tx [1, 2, 3] ⟨2, 0, 0, 0, 0, 1⟩), .resume 1, .resume 1, .resume 1,
    .start 1 (.tx [4] ⟨2, 0, 0, 0, 0, 1⟩), .resume 1, .resume 1, .resume 1,
    .start 1 .flush, .resume 1, .resume 1, .resume 1, .resume 1, .resume 1,
    .start 1 (.tx [5, 6] ⟨2, 0, 0, 0, 0, 1⟩), .resume 1, .resume 1, .resume 1]

def twoPayloadsFrame : List Byte :=
  [0xA5, 0x5A, 0x10, 0, 0, 2, 3, 0, 1, 2, 3, 1, 0, 4]

theorem bundling_keeps_order_threePayloads : ∃ c,
    playAll threePayloads quietNode = some c ∧
      ((c.body.peers 0).inUse = true ∧ c.threads 1 = none ∧
        (∀ u ∈ writers 0 c.body.trace, u = 1) ∧
        accepted 1 0 c.body.trace = [[1, 2, 3], [4], [5, 6]]) ∧
      accepted 1 0 c.body.trace =
        (closedBundles 0 c.body.trace).flatMap (·.payloads) ++
          stagedPayloads 0 (core c.body) ∧
      (sentBundles 0 c.body.trace).flatten ++ stagedPayloads 0 (core c.body) =
        ((closedBundles 0 c.body.trace).filter fun b => !b.dropped).flatMap (·.payloads) ++
          stagedPayloads 0 (core c.body) :=
  played_then (by decide +kernel) fun c reach ⟨inUse, idle, sole, _⟩ =>
    bundling_keeps_order c reach 0 inUse 1 idle sole

end RnodeHalow.Ack
