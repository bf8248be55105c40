import RnodeHalow.Ack.Entry
import RnodeHalow.Radio.Board
import RnodeHalow.Shared.Serial

set_option autoImplicit false

namespace RnodeHalow.Ack

open Resumption Serial

variable (undefinedShl : Nat → BitVec 32)

section Branches

variable {p : AckPeer} {seq : BitVec 16}

theorem peerRxSeq_opens (closed : p.rxSeqSeen = false) :
    peerRxSeq undefinedShl p seq = { p with rxSeqSeen := true, rxSeqLast := seq, rxSeqWin := 1 } := by
  simp [peerRxSeq, closed]

theorem peerRxSeq_same (seen : p.rxSeqSeen = true) (same : (seq - p.rxSeqLast).toNat = 0) :
    peerRxSeq undefinedShl p seq = p := by
  simp [peerRxSeq, seen, same]

theorem peerRxSeq_ahead (seen : p.rxSeqSeen = true) (pos : (seq - p.rxSeqLast).toNat ≠ 0)
    (near : (seq - p.rxSeqLast).toNat < seqWindow) :
    peerRxSeq undefinedShl p seq =
      { p with
        rxSeqWin := p.rxSeqWin <<< (seq - p.rxSeqLast).toNat ||| 1
        rxSeqLast := seq } := by
  simp only [peerRxSeq, seen, Bool.not_true, Bool.false_eq_true, if_false]
  rw [if_neg pos, if_pos near]

theorem ne_zero_of_behind {n : Nat} (behind : ¬ n < seqWindow) : n ≠ 0 := by
  rintro rfl
  exact behind (by decide)

theorem peerRxSeq_late (seen : p.rxSeqSeen = true) (behind : ¬ (seq - p.rxSeqLast).toNat < seqWindow)
    (near : (p.rxSeqLast - seq).toNat < seqWindow) :
    peerRxSeq undefinedShl p seq =
      { p with
        rxSeqWin := p.rxSeqWin ||| (shl32 undefinedShl (p.rxSeqLast - seq).toNat).setWidth 64 } := by
  simp only [peerRxSeq, seen, Bool.not_true, Bool.false_eq_true, if_false]
  rw [if_neg (ne_zero_of_behind behind), if_neg behind, if_pos near]

theorem peerRxSeq_far (seen : p.rxSeqSeen = true) (behind : ¬ (seq - p.rxSeqLast).toNat < seqWindow)
    (far : ¬ (p.rxSeqLast - seq).toNat < seqWindow) :
    peerRxSeq undefinedShl p seq = { p with rxSeqLast := seq, rxSeqWin := 1 } := by
  simp only [peerRxSeq, seen, Bool.not_true, Bool.false_eq_true, if_false]
  rw [if_neg (ne_zero_of_behind behind), if_neg behind, if_neg far]

end Branches

theorem getLsbD_shl32 {d : Nat} (defined : d < 32) (k : Nat) :
    ((shl32 undefinedShl d).setWidth 64).getLsbD k = decide (k = d) := by
  unfold shl32
  rw [if_pos defined, ← BitVec.twoPow_eq, BitVec.getLsbD_setWidth, BitVec.getLsbD_twoPow]
  by_cases same : k = d
  · simp [same, show d < 64 by omega, defined]
  · simp [same, Ne.symm same]

theorem getLsbD_shl32_high {d k : Nat} (high : 32 ≤ k) :
    ((shl32 undefinedShl d).setWidth 64).getLsbD k = false := by
  rw [BitVec.getLsbD_setWidth, BitVec.getLsbD_of_ge _ _ high, Bool.and_false]

structure Tracks (p : AckPeer) (r : Receipts) : Prop where
  seen : p.rxSeqSeen = true
  last : p.rxSeqLast = BitVec.ofInt 16 r.newest
  win : Exact p.rxSeqWin r.newest r.got

def Nearby (r : Receipts) (m : Int) : Prop := m < r.newest + seqWindow ∧ r.newest < m + seqWindow

-- Numbers 32..63 behind the newest are recorded by an undefined shift.
def Recordable (r : Receipts) (m : Int) : Prop :=
  r.newest < m + 32 ∨
    m ∈ r.got ∧ ∀ k < 32, (undefinedShl (r.newest - m).toNat).getLsbD k = true → r.newest - k ∈ r.got

section Step

variable {p : AckPeer} {r : Receipts} {m : Int}

theorem Tracks.opened (closed : p.rxSeqSeen = false) (m : Int) :
    Tracks (peerRxSeq undefinedShl p (BitVec.ofInt 16 m)) (.single m) := by
  rw [peerRxSeq_opens undefinedShl closed]
  exact ⟨rfl, rfl, exact_single m⟩

theorem Tracks.ahead (tracks : Tracks p r) (near : Nearby r m) (ahead : r.newest < m) :
    Tracks (peerRxSeq undefinedShl p (BitVec.ofInt 16 m)) (r.receive m) := by
  have bound : m < r.newest + 64 := near.1
  have apart : ((BitVec.ofInt 16 m - p.rxSeqLast).toNat : Int) = m - r.newest := by
    rw [tracks.last]
    exact distance (by omega) (by omega)
  generalize distanceEq : (BitVec.ofInt 16 m - p.rxSeqLast).toNat = d at apart
  have inside : d < seqWindow := by
    simp only [seqWindow]
    omega
  rw [peerRxSeq_ahead undefinedShl tracks.seen (by omega) (by omega), distanceEq]
  have newest : (r.receive m).newest = r.newest + d := by
    show max r.newest m = _
    omega
  have number : m = r.newest + d := by omega
  refine ⟨tracks.seen, ?_, ?_⟩
  · rw [newest, number]
  · have moved := tracks.win.advance (d := d) (by omega)
    rw [newest]
    show Exact _ _ (insert m r.got)
    rw [number]
    exact moved

theorem Tracks.same (tracks : Tracks p r) :
    Tracks (peerRxSeq undefinedShl p (BitVec.ofInt 16 r.newest)) (r.receive r.newest) := by
  have zero : (BitVec.ofInt 16 r.newest - p.rxSeqLast).toNat = 0 := by
    rw [tracks.last, BitVec.sub_self]
    rfl
  rw [peerRxSeq_same undefinedShl tracks.seen zero]
  have newest : (r.receive r.newest).newest = r.newest := max_self _
  have got : (r.receive r.newest).got = r.got := Set.insert_eq_of_mem r.newest_mem
  refine ⟨tracks.seen, ?_, ?_⟩
  · rw [newest]
    exact tracks.last
  · rw [newest, got]
    exact tracks.win

theorem Tracks.late (tracks : Tracks p r) (near : Nearby r m) (behind : m < r.newest) :
    peerRxSeq undefinedShl p (BitVec.ofInt 16 m) =
      { p with
        rxSeqWin :=
          p.rxSeqWin ||| (shl32 undefinedShl (r.newest - m).toNat).setWidth 64 } := by
  have bound : r.newest < m + 64 := near.2
  have back : (p.rxSeqLast - BitVec.ofInt 16 m).toNat = (r.newest - m).toNat := by
    have apart : ((p.rxSeqLast - BitVec.ofInt 16 m).toNat : Int) = r.newest - m := by
      rw [tracks.last]
      exact distance (by omega) (by omega)
    omega
  have fwd : ((BitVec.ofInt 16 m - p.rxSeqLast).toNat : Int) = 2 ^ 16 - (r.newest - m) := by
    rw [tracks.last]
    exact distance_ahead behind (by omega)
  rw [peerRxSeq_late undefinedShl tracks.seen, back]
  · simp only [seqWindow]
    omega
  · rw [back]
    simp only [seqWindow]
    omega

theorem mask_recordable_iff (behind : m < r.newest) (bound : r.newest < m + 64) :
    (((shl32 undefinedShl (r.newest - m).toNat).setWidth 64).getLsbD (r.newest - m).toNat = true ∨
        m ∈ r.got) ∧
      (∀ k < 64, ((shl32 undefinedShl (r.newest - m).toNat).setWidth 64).getLsbD k = true →
        k = (r.newest - m).toNat ∨ r.newest - k ∈ r.got) ↔
    Recordable undefinedShl r m := by
  rcases Nat.lt_or_ge (r.newest - m).toNat 32 with defined | undefined
  · constructor
    · intro _
      exact .inl (by omega)
    · intro _
      simp only [getLsbD_shl32 undefinedShl defined, decide_eq_true_eq]
      exact ⟨.inl trivial, fun k _ same => .inl same⟩
  · have shift : shl32 undefinedShl (r.newest - m).toNat = undefinedShl (r.newest - m).toNat :=
      if_neg (by omega)
    rw [getLsbD_shl32_high undefinedShl undefined, shift]
    constructor
    · rintro ⟨own, others⟩
      refine .inr ⟨own.resolve_left (by decide), fun k low set => ?_⟩
      have bit := others k (by omega) (by
        rw [BitVec.getLsbD_setWidth, set]
        simp
        omega)
      exact bit.resolve_left (by omega)
    · rintro (early | ⟨own, others⟩)
      · omega
      · refine ⟨.inr own, fun k _ set => ?_⟩
        rw [BitVec.getLsbD_setWidth, Bool.and_eq_true] at set
        by_cases low : k < 32
        · exact .inr (others k low set.2)
        · rw [BitVec.getLsbD_of_ge _ _ (by omega)] at set
          exact absurd set.2 (by decide)

theorem Tracks.step_iff (tracks : Tracks p r) (near : Nearby r m) :
    Tracks (peerRxSeq undefinedShl p (BitVec.ofInt 16 m)) (r.receive m) ↔
      Recordable undefinedShl r m := by
  rcases lt_trichotomy m r.newest with behind | same | ahead
  · have newest : (r.receive m).newest = r.newest := max_eq_left behind.le
    have number : r.newest - (r.newest - m).toNat = m := by omega
    have inside : (r.newest - m).toNat < 64 := by
      have : r.newest < m + 64 := near.2
      omega
    have marked := tracks.win.mark_iff
      ((shl32 undefinedShl (r.newest - m).toNat).setWidth 64) inside
    rw [number, mask_recordable_iff undefinedShl behind near.2] at marked
    rw [tracks.late undefinedShl near behind, ← marked]
    constructor
    · intro after
      exact newest ▸ after.win
    · intro exact
      exact ⟨tracks.seen, newest ▸ tracks.last, newest ▸ exact⟩
  · subst same
    exact ⟨fun _ => .inl (by omega), fun _ => tracks.same undefinedShl⟩
  · exact ⟨fun _ => .inl (by omega), fun _ => tracks.ahead undefinedShl near ahead⟩

end Step

theorem getLsbD_envAckBitmap (win : BitVec 64) {k : Nat} (bound : k < 64) :
    (envAckBitmap win).getLsbD k = win.getLsbD (63 - k) := by
  unfold envAckBitmap
  have bit := getLsbD_gather (fun k => (win >>> (seqWindow - 1 - k)) &&& 1 ≠ 0) (i := k)
    (Nat.le_refl 64)
  have own : (win >>> (seqWindow - 1 - k)) &&& 1 ≠ 0 ↔ win.getLsbD (63 - k) = true :=
    and_one_ne_zero_iff win (63 - k)
  refine bit.trans ?_
  rw [decide_eq_true bound, Bool.true_and, Bool.eq_iff_iff, decide_eq_true_eq]
  exact own

def AckTracks (p : AckPeer) (r : Receipts) : Prop :=
  ∃ bm, envAckCapture p = some (BitVec.ofInt 16 (r.newest - 63), bm) ∧
    ∀ k < 64, bm.getLsbD k = true ↔ r.newest - 63 + k ∈ r.got

theorem Tracks.ack {p : AckPeer} {r : Receipts} (tracks : Tracks p r) : AckTracks p r := by
  refine ⟨envAckBitmap p.rxSeqWin, ?_, fun k bound => ?_⟩
  · simp only [envAckCapture, tracks.seen, if_true, tracks.last]
    exact congrArg (fun base => some (base, _)) (ofInt_sub r.newest 63)
  · have number : r.newest - 63 + k = r.newest - ((63 - k : Nat) : Int) := by omega
    rw [getLsbD_envAckBitmap _ bound, tracks.win (63 - k) (by omega), number]

def NearLast (p : AckPeer) (seq : BitVec 16) : Prop :=
  (seq - p.rxSeqLast).toNat < seqWindow ∨ (p.rxSeqLast - seq).toNat < seqWindow

def NearLasts : AckPeer → List (BitVec 16) → Prop
  | _, [] => True
  | p, seq :: rest => NearLast p seq ∧ NearLasts (peerRxSeq undefinedShl p seq) rest

def TracksAlong : AckPeer → Receipts → List (BitVec 16) → Prop
  | p, r, [] => Tracks p r ∧ AckTracks p r
  | p, r, seq :: rest =>
    (Tracks p r ∧ AckTracks p r) ∧ TracksAlong (peerRxSeq undefinedShl p seq) (r.note seq) rest

def RecordableAlong : Receipts → List (BitVec 16) → Prop
  | _, [] => True
  | r, seq :: rest =>
    Recordable undefinedShl r (unwrap r.newest seq) ∧ RecordableAlong (r.note seq) rest

section Calls

variable {undefinedShl}

theorem Tracks.nearby {p : AckPeer} {r : Receipts} {seq : BitVec 16} (tracks : Tracks p r)
    (near : NearLast p seq) : Nearby r (unwrap r.newest seq) := by
  unfold NearLast seqWindow at near
  rw [tracks.last] at near
  unfold Nearby seqWindow
  rcases near with ahead | behind
  · rw [unwrap_ahead (by omega)]
    omega
  · rw [unwrap_behind (by omega)]
    omega

theorem tracksAlong_iff {p : AckPeer} {r : Receipts} (calls : List (BitVec 16))
    (tracks : Tracks p r) (near : NearLasts undefinedShl p calls) :
    TracksAlong undefinedShl p r calls ↔ RecordableAlong undefinedShl r calls := by
  induction calls generalizing p r with
  | nil => exact ⟨fun _ => trivial, fun _ => ⟨tracks, tracks.ack⟩⟩
  | cons seq rest ih =>
    have step := tracks.step_iff undefinedShl (tracks.nearby near.1)
    rw [ofInt_unwrap] at step
    have head : TracksAlong undefinedShl (peerRxSeq undefinedShl p seq) (r.note seq) rest →
        Tracks (peerRxSeq undefinedShl p seq) (r.note seq) := by
      intro along
      cases rest with
      | nil => exact along.1
      | cons _ _ => exact along.1.1
    constructor
    · rintro ⟨-, along⟩
      exact ⟨step.mp (head along), (ih (head along) near.2).mp along⟩
    · rintro ⟨now, later⟩
      exact ⟨⟨tracks, tracks.ack⟩, (ih (step.mpr now) near.2).mpr later⟩

end Calls

theorem window_exact_iff (p : AckPeer) (closed : p.rxSeqSeen = false) (first : BitVec 16)
    (calls : List (BitVec 16)) (near : NearLasts undefinedShl (peerRxSeq undefinedShl p first) calls) :
    TracksAlong undefinedShl (peerRxSeq undefinedShl p first) (.single first.toInt) calls ↔
      RecordableAlong undefinedShl (.single first.toInt) calls := by
  have opened := Tracks.opened undefinedShl closed first.toInt
  rw [BitVec.ofInt_toInt] at opened
  exact tracksAlong_iff calls opened near

theorem window_exact_swapped :
    TracksAlong (fun _ => 0) (peerRxSeq (fun _ => 0) AckPeer.zero 1#16) (.single (1#16).toInt)
      [2#16, 4#16, 3#16] := by
  refine (window_exact_iff (fun _ => 0) AckPeer.zero rfl 1#16 [2#16, 4#16, 3#16] ?_).mpr ?_
  · exact ⟨.inl (by decide), .inl (by decide), .inr (by decide), trivial⟩
  · exact ⟨.inl (by decide), .inl (by decide), .inl (by decide), trivial⟩

def openWindow (last : BitVec 16) (win : BitVec 64) : AckPeer :=
  { AckPeer.zero with rxSeqSeen := true, rxSeqLast := last, rxSeqWin := win }

def afterLate (undefinedShl : Nat → BitVec 32) : AckPeer :=
  [101#16, 133#16, 100#16].foldl (peerRxSeq undefinedShl) AckPeer.zero

theorem afterLate_eq (undefinedShl : Nat → BitVec 32) :
    afterLate undefinedShl =
      openWindow 133 (0x100000001#64 ||| (shl32 undefinedShl 33).setWidth 64) := by
  have opened : peerRxSeq undefinedShl AckPeer.zero 101#16 = openWindow 101 1 :=
    peerRxSeq_opens undefinedShl rfl
  have ahead : peerRxSeq undefinedShl (openWindow 101 1) 133#16 = openWindow 133 0x100000001#64 :=
    peerRxSeq_ahead undefinedShl rfl (by decide) (by decide)
  have late : peerRxSeq undefinedShl (openWindow 133 0x100000001#64) 100#16 =
      openWindow 133 (0x100000001#64 ||| (shl32 undefinedShl 33).setWidth 64) :=
    peerRxSeq_late undefinedShl rfl (by decide) (by decide)
  simp only [afterLate, List.foldl_cons, List.foldl_nil, opened, ahead, late]

theorem afterLate_clear (undefinedShl : Nat → BitVec 32) :
    (afterLate undefinedShl).rxSeqLast - 33#16 = 100#16 ∧
      (afterLate undefinedShl).rxSeqWin.getLsbD 33 = false := by
  rw [afterLate_eq]
  refine ⟨show 133#16 - 33#16 = 100#16 by decide, ?_⟩
  have high := getLsbD_shl32_high undefinedShl (d := 33) (k := 33) (by decide)
  rw [openWindow, BitVec.getLsbD_or, high]
  decide

theorem late_number_not_recorded :
    ((afterLate fun _ => 0#32).rxSeqLast - 33#16 = 100#16 ∧
      (afterLate fun _ => 0#32).rxSeqWin.getLsbD 33 = false) ∧
    (afterLate fun n => 1#32 <<< (n % 32)).rxSeqLast - 33#16 = 100#16 ∧
      (afterLate fun n => 1#32 <<< (n % 32)).rxSeqWin.getLsbD 33 = false :=
  ⟨afterLate_clear _, afterLate_clear _⟩

def KeepsWindow (p p' : AckPeer) : Prop :=
  p'.rxSeqLast = p.rxSeqLast ∧
    ∀ k < 64, p.rxSeqWin.getLsbD k = true → p'.rxSeqWin.getLsbD k = true

theorem peerRxSeq_keeps_iff {p : AckPeer} {seq : BitVec 16}
    (behind : 1 ≤ (p.rxSeqLast - seq).toNat ∧ (p.rxSeqLast - seq).toNat ≤ 32767) :
    KeepsWindow p (peerRxSeq undefinedShl p seq) ↔
      p.rxSeqSeen = true ∧ (p.rxSeqLast - seq).toNat < seqWindow := by
  have fwd : ¬ (seq - p.rxSeqLast).toNat < seqWindow := by
    simp only [seqWindow]
    have opposite : seq - p.rxSeqLast = -(p.rxSeqLast - seq) := (neg_sub _ _).symm
    rw [opposite, BitVec.toNat_neg]
    omega
  have moved : seq ≠ p.rxSeqLast := by
    rintro rfl
    simp at behind
  constructor
  · intro keeps
    by_contra bad
    apply moved
    rcases Bool.eq_false_or_eq_true p.rxSeqSeen with seen | closed
    · rw [peerRxSeq_far undefinedShl seen fwd (fun near => bad ⟨seen, near⟩)] at keeps
      exact keeps.1
    · rw [peerRxSeq_opens undefinedShl closed] at keeps
      exact keeps.1
  · rintro ⟨seen, near⟩
    rw [peerRxSeq_late undefinedShl seen fwd near]
    refine ⟨rfl, fun k _ set => ?_⟩
    rw [BitVec.getLsbD_or, set, Bool.true_or]

section Bundle

variable {ρ : Type} [Platform ρ]

omit [Platform ρ] in
theorem when_stats_peers (c : Prop) [Decidable c] (f : Stats → Stats) (t : Nat) (b : Body ρ) :
    (Sec.when c (modifyStats f) t b).2.peers = b.peers := by
  unfold Sec.when
  split <;> rfl

theorem rxBundleLocked_peer {b : Body ρ} {payload : List Byte} {src : Mac} {i : PeerIx} (t : Nat)
    (found : peerFind b src = some i) :
    (rxBundleLocked payload src t b).2.peers i =
      peerRxSeq (Platform.undefinedShl ρ) (b.peers i) (le16 payload 3) := by
  have marked : (modifyPeer i (fun p => peerRxSeq (Platform.undefinedShl ρ) p (le16 payload 3)) t
      b).2.peers i = peerRxSeq (Platform.undefinedShl ρ) (b.peers i) (le16 payload 3) :=
    Function.update_self ..
  simp only [rxBundleLocked, Sec.bind_apply, Sec.self_apply, Sec.read_apply, found]
  exact (congrFun (when_stats_peers _ _ t _) i).trans marked

theorem old_bundle_keeps_window_iff (b : Body ρ) (payload : List Byte) (src : Mac) (t : Nat)
    (i : PeerIx) (found : peerFind b src = some i)
    (behind : 1 ≤ ((b.peers i).rxSeqLast - le16 payload 3).toNat ∧
      ((b.peers i).rxSeqLast - le16 payload 3).toNat ≤ 32767) :
    KeepsWindow (b.peers i) ((rxBundleLocked payload src t b).2.peers i) ↔
      (b.peers i).rxSeqSeen = true ∧
        ((b.peers i).rxSeqLast - le16 payload 3).toNat < seqWindow := by
  rw [rxBundleLocked_peer t found]
  exact peerRxSeq_keeps_iff _ behind

end Bundle

def fullWindow (last : BitVec 16) : Body Radio.Board :=
  { blank (.quiet 0 1) with
    peers := fun _ => { openWindow last (BitVec.allOnes 64) with inUse := true } }

def bundleZero : List Byte := bundleHdr 0 1 ++ [1, 0, 42]

theorem old_bundle_keeps_window_sixty :
    KeepsWindow ((fullWindow 60).peers 0)
      ((rxBundleLocked bundleZero AckPeer.zero.mac 0 (fullWindow 60)).2.peers 0) :=
  (old_bundle_keeps_window_iff (fullWindow 60) bundleZero AckPeer.zero.mac 0 0 (by decide)
    (by decide)).mpr (by decide)

theorem old_bundle_resets_window :
    let p := (rxBundleLocked bundleZero AckPeer.zero.mac 0 (fullWindow 64)).2.peers 0
    p.rxSeqLast = 0 ∧ p.rxSeqWin = 1 := by
  decide

end RnodeHalow.Ack
