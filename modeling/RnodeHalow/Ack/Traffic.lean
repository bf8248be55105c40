import RnodeHalow.Ack.Schedule

set_option autoImplicit false

namespace RnodeHalow.Ack

open Resumption
open Function (update update_eq_self update_of_ne update_self)

variable {ρ : Type} [Platform ρ]

structure Line where
  inUse : Bool
  mac : Mac
  txSeq : BitVec 16
  window : RxWindow

def AckPeer.line (p : AckPeer) : Line := ⟨p.inUse, p.mac, p.txSeq, p.rxWindow⟩

theorem SamePlace.line {p q : AckPeer} (same : SamePlace p q) (window : q.rxWindow = p.rxWindow) :
    q.line = p.line := by
  simp [AckPeer.line, same.inUse, same.mac, same.txSeq, window]

section Fields

variable {p q : AckPeer} (same : q.line = p.line)
include same

theorem inUse_of_line : q.inUse = p.inUse := congrArg Line.inUse same

theorem mac_of_line : q.mac = p.mac := congrArg Line.mac same

theorem txSeq_of_line : q.txSeq = p.txSeq := congrArg Line.txSeq same

theorem window_of_line : q.rxWindow = p.rxWindow := congrArg Line.window same

end Fields

theorem line_update {ps : PeerIx → AckPeer} {i : PeerIx} {p q : AckPeer} (same : q.line = p.line)
    (k : PeerIx) : (update ps i q k).line = (update ps i p k).line := by
  by_cases here : k = i
  · subst here
    rw [update_self, update_self, same]
  · rw [update_of_ne here, update_of_ne here]

theorem line_update_self {ps : PeerIx → AckPeer} {i : PeerIx} {q : AckPeer}
    (same : q.line = (ps i).line) (k : PeerIx) :
    (update ps i q k).line = (ps k).line := by
  rw [line_update same, update_eq_self]

def Event.Aside : Event → Prop
  | .opened .. => False
  | .forgot .. => False
  | .flushed .. => False
  | .heard .. => False
  | .delivered .. => False
  | _ => True

def Distinct (ps : PeerIx → AckPeer) : Prop :=
  ∀ i k, (ps i).inUse = true → (ps k).inUse = true → (ps i).mac = (ps k).mac → i = k

structure Traffic (J : (PeerIx → AckPeer) → History → Prop) : Prop where
  same : ∀ {ps qs : PeerIx → AckPeer} {trace : History},
    (∀ i, (qs i).line = (ps i).line) → J ps trace → J qs trace
  aside : ∀ {ps : PeerIx → AckPeer} {trace : History} (τ : Nat) {e : Event},
    e.Aside → J ps trace → J ps ((τ, e) :: trace)
  opened : ∀ {ps : PeerIx → AckPeer} {trace : History} (τ : Nat) {i : PeerIx}
    {p : AckPeer} {mac : Mac}, Distinct ps → FreshPeer p mac →
    (∀ k, (ps k).inUse = true → (ps k).mac ≠ mac) → J ps trace →
    J (update ps i p) ((τ, .opened i mac) :: trace)
  forgot : ∀ {ps : PeerIx → AckPeer} {trace : History} (τ : Nat) {i : PeerIx},
    Distinct ps → (ps i).inUse = true → J ps trace →
    J (update ps i { ps i with rxSeqWin := 0, rxSeqSeen := false })
      ((τ, .forgot i (ps i).mac) :: trace)
  flushed : ∀ {ps : PeerIx → AckPeer} {trace : History} (τ : Nat) {i : PeerIx}
    {data : List Byte}, Distinct ps → (ps i).inUse = true →
    le16 data 3 = (takeSeq (ps i).txSeq).1 → J ps trace →
    J (update ps i { ps i with txSeq := (takeSeq (ps i).txSeq).2 })
      ((τ, .flushed i (takeSeq (ps i).txSeq).1 data) :: trace)
  heard : ∀ {ps : PeerIx → AckPeer} {trace : History} (τ t : Nat) {i : PeerIx}
    (payload : List Byte) (undefinedShl : Nat → BitVec 32), Distinct ps → (ps i).inUse = true →
    J ps trace →
    J (update ps i (peerRxSeq undefinedShl (ps i) (le16 payload 3)))
      ((τ, .heard t (ps i).mac (some i) payload (seqRetrans (ps i) (le16 payload 3))) :: trace)
  met : ∀ {ps : PeerIx → AckPeer} {trace : History} (τ t : Nat) (src : Mac)
    (payload : List Byte), (∀ k, (ps k).inUse = true → (ps k).mac ≠ src) → J ps trace →
    J ps ((τ, .heard t src none payload false) :: trace)
  delivered : ∀ {ps : PeerIx → AckPeer} {trace : History} (τ t : Nat) (src : Mac)
    (payload : List Byte), (isEnvFrame payload = true → cleared t src payload trace = true) →
    J ps trace → J ps ((τ, .delivered t src payload) :: trace)

section Moves

variable {J : (PeerIx → AckPeer) → History → Prop}

theorem Calm.traffic {c c' : Core} (keeps : Traffic J) (inv : Inv c) (move : Calm c c')
    (h : J c.peers c.trace) : J c'.peers c'.trace := by
  cases move with
  | elapse | governor | measured => exact h
  | air | kick => exact keeps.aside _ trivial h
  | peer i p place window => exact keeps.same (line_update_self (place.line window)) h
  | opened i p mac fresh new bare => exact keeps.opened _ inv.rep.mac_inj fresh new h
  | forget i p mac inUse named place window =>
    subst named
    refine keeps.same ?_ (keeps.forgot c.clock inv.rep.mac_inj inUse h)
    refine line_update ?_
    simp only [AckPeer.line, place.inUse, place.mac, place.txSeq, window]
    rfl

theorem le16_sealBuf {p : AckPeer} {buf : AckBuf} (ok : StagedOk p buf) :
    le16 ((sealBuf p buf 0 0).data.take p.aggLen) 3 = (takeSeq p.txSeq).1 := by
  have long : 6 ≤ p.aggLen := Nat.le_trans (Nat.le_add_right 6 _) ok.reserve
  have byte (k : Nat) (bound : k < 6) :
      byteAt ((sealBuf p buf 0 0).data.take p.aggLen) k =
        byteAt (bundleHdr (takeSeq p.txSeq).1 p.aggNsub) k := by
    simp only [sealBuf, writeAt, List.take_zero, List.nil_append, byteAt,
      List.getD_eq_getElem?_getD]
    rw [List.getElem?_take_of_lt (by omega), List.getElem?_append_left bound]
  rw [le16, byte 3 (by omega), byte 4 (by omega)]
  exact le16_lo_hi _

theorem Micro.traffic {t : Nat} {c c' : Core} (keeps : Traffic J) (inv : Inv c)
    (move : Micro t c c') (h : J c.peers c.trace) : J c'.peers c'.trace := by
  have noted {τ : Nat} {e : Event} (aside : e.Aside) : J c.peers ((τ, e) :: c.trace) :=
    keeps.aside τ aside h
  cases move with
  | calm move => exact move.traffic keeps inv h
  | sample | accept | due | touch | handOff | release | reconfig | reject => exact noted trivial
  | expire | plain => exact keeps.aside _ trivial (noted trivial)
  | stage i j blk cap n1 n2 payload =>
    refine keeps.aside _ trivial (keeps.aside _ trivial (keeps.aside _ trivial ?_))
    refine keeps.same (fun k => ?_) h
    refine (line_update_self ?_ k).trans (line_update_self ?_ k)
    · rfl
    · rfl
  | append i j buf payload =>
    refine keeps.aside _ trivial (keeps.same (line_update_self ?_) h)
    rfl
  | launch i j buf p n1 n2 n3 inUse named held window le1 le2 le3 place rx =>
    have header := le16_sealBuf (inv.layout.staged i j buf inUse named held)
    have numbered := keeps.flushed n3 inv.rep.mac_inj inUse header
      (keeps.aside n2 (e := .born j) trivial (noted (τ := n1) (e := .txStamped j) trivial))
    refine keeps.same (line_update ?_) numbered
    have seq : p.txSeq = (takeSeq (c.peers i).txSeq).2 := place.txSeq
    have used : p.inUse = (c.peers i).inUse := place.inUse
    have mac : p.mac = (c.peers i).mac := place.mac
    simp only [AckPeer.line, used, mac, seq, rx]
    rfl
  | mark | sentOff => exact h
  | hold i j buf τ =>
    refine keeps.same (line_update_self ?_) (noted trivial)
    rfl
  | hear i src payload undefinedShl inUse named =>
    subst named
    exact keeps.heard c.clock t payload undefinedShl inv.rep.mac_inj inUse h
  | meet src payload new => exact keeps.met c.clock t src payload new h
  | deliver src payload vouched => exact keeps.delivered c.clock t src payload vouched h

theorem Reachable.traffic {c : Threads ρ} (h : Reachable c) (keeps : Traffic J)
    (first : J (fun _ => AckPeer.zero) []) : J c.body.peers c.body.trace := by
  refine h.moves (J := fun c => J c.peers c.trace) (fun cfg n _ => ?_) ?_
  · exact keeps.aside n (e := .windowed cfg.window) trivial first
  · exact fun _ _ _ inv move h => move.traffic keeps inv h

end Moves

end RnodeHalow.Ack
