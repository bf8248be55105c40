import RnodeHalow.Ack.Schedule

set_option autoImplicit false

namespace RnodeHalow.Ack

open Resumption

variable {ρ : Type} [Platform ρ] {b : Body ρ}

def OwnsBuffer (b : Body ρ) (i : PeerIx) : Prop :=
  ∃ j buf, b.bufs j = some buf ∧ buf.destMac = (b.peers i).mac

def age (now : Jiffy) (p : AckPeer) : Nat := (now - p.lastSeen).toNat

omit [Platform ρ] in
theorem bufForPeer_isSome_iff (i : PeerIx) :
    (bufForPeer b (b.peers i).mac).isSome = true ↔ OwnsBuffer b i := by
  rw [bufForPeer, List.find?_isSome, OwnsBuffer]
  constructor
  · rintro ⟨j, -, hit⟩
    cases held : b.bufs j with
    | none => simp [held] at hit
    | some buf =>
      simp only [held] at hit
      exact ⟨j, buf, held, (macEq_iff _ _).mp hit⟩
  · rintro ⟨j, buf, held, same⟩
    refine ⟨j, List.mem_finRange j, ?_⟩
    simp only [held]
    exact (macEq_iff _ _).mpr same

omit [Platform ρ] in
theorem peerEvictScan_free {l : List PeerIx} {victim : Option PeerIx} {oldest : Jiffy}
    (free : ∃ k ∈ l, (b.peers k).inUse = false) :
    ∃ i, peerEvictScan b l victim oldest = some i ∧ (b.peers i).inUse = false := by
  fun_induction peerEvictScan b l victim oldest with
  | case1 victim oldest => simp at free
  | case2 i rest victim oldest unused => exact ⟨i, rfl, by simpa using unused⟩
  | case3 i rest victim oldest used owned ih
  | case4 i rest victim oldest used bare older ih
  | case5 i rest victim oldest used bare newer ih =>
    obtain ⟨k, member, unused⟩ := free
    rcases List.mem_cons.mp member with rfl | later
    · simp [unused] at used
    · exact ih ⟨k, later, unused⟩

omit [Platform ρ] in
theorem peerEvictScan_least {l : List PeerIx} {victim : Option PeerIx} {oldest : Jiffy}
    (full : ∀ k ∈ l, (b.peers k).inUse = true) :
    (peerEvictScan b l victim oldest = victim ∧
      ∀ k ∈ l, ¬ OwnsBuffer b k → oldest ≤ (b.peers k).lastSeen) ∨
    ∃ i, peerEvictScan b l victim oldest = some i ∧ ¬ OwnsBuffer b i ∧
      (b.peers i).lastSeen < oldest ∧
      ∀ k ∈ l, ¬ OwnsBuffer b k → (b.peers i).lastSeen ≤ (b.peers k).lastSeen := by
  fun_induction peerEvictScan b l victim oldest with
  | case1 victim oldest => exact .inl ⟨rfl, by simp⟩
  | case2 i rest victim oldest unused => simp [full i List.mem_cons_self] at unused
  | case3 i rest victim oldest used owned ih =>
    rw [bufForPeer_isSome_iff] at owned
    simpa [owned] using ih (List.forall_mem_cons.mp full).2
  | case4 i rest victim oldest used bare older ih =>
    rw [bufForPeer_isSome_iff] at bare
    right
    rcases ih (List.forall_mem_cons.mp full).2 with ⟨same, least⟩ | ⟨k, same, free, less, least⟩
    · exact ⟨i, same, bare, older, List.forall_mem_cons.mpr ⟨fun _ => BitVec.le_refl _, least⟩⟩
    · refine ⟨k, same, free, BitVec.lt_trans less older, List.forall_mem_cons.mpr ⟨?_, least⟩⟩
      exact fun _ => BitVec.le_of_lt less
  | case5 i rest victim oldest used bare newer ih =>
    have later : oldest ≤ (b.peers i).lastSeen := BitVec.not_lt.mp newer
    rcases ih (List.forall_mem_cons.mp full).2 with ⟨same, least⟩ | ⟨k, same, free, less, least⟩
    · exact .inl ⟨same, List.forall_mem_cons.mpr ⟨fun _ => later, least⟩⟩
    · refine .inr ⟨k, same, free, less, List.forall_mem_cons.mpr ⟨fun _ => ?_, least⟩⟩
      bv_omega

def OneTurn (now : Jiffy) (b : Body ρ) : Prop :=
  (∀ k, ¬ OwnsBuffer b k → (b.peers k).lastSeen ≤ now) ∨
    ∀ k, ¬ OwnsBuffer b k → now < (b.peers k).lastSeen

-- `pick` was seen longest ago of the peers without a buffer.
def LeastRecent (now : Jiffy) (b : Body ρ) (pick : Option PeerIx) : Prop :=
  (∀ i, pick = some i → (b.peers i).inUse = true →
    ∀ k, ¬ OwnsBuffer b k → age now (b.peers k) ≤ age now (b.peers i)) ∧
  (pick = none → ∀ k, OwnsBuffer b k)

theorem age_le_iff {now s s' : Jiffy} (turn : s ≤ now ∧ s' ≤ now ∨ now < s ∧ now < s') :
    (now - s').toNat ≤ (now - s).toNat ↔ s ≤ s' := by
  rcases turn with ⟨_, _⟩ | ⟨_, _⟩ <;> bv_omega

theorem age_lt {now s s' : Jiffy} (this : s ≤ now) (last : now < s') :
    (now - s).toNat < (now - s').toNat := by bv_omega

omit [Platform ρ] in
theorem peerEvictPick_leastRecent_iff (now : Jiffy) (full : ∀ k, (b.peers k).inUse = true) :
    LeastRecent now b (peerEvictPick b) ↔
      ((∃ k, ¬ OwnsBuffer b k) →
        OneTurn now b ∧ ∃ k, ¬ OwnsBuffer b k ∧ (b.peers k).lastSeen ≠ -1#32) := by
  have scan := @peerEvictScan_least ρ b allPeers none (-1#32) fun k _ => full k
  rcases scan with ⟨none, least⟩ | ⟨i, pick, bare, less, least⟩
  · -- every stamp is the greatest number
    have top (k : PeerIx) (free : ¬ OwnsBuffer b k) : (b.peers k).lastSeen = -1#32 := by
      have := least k (List.mem_finRange k) free
      bv_omega
    rw [peerEvictPick, none]
    constructor
    · rintro ⟨-, all⟩ ⟨k, free⟩
      exact absurd (all rfl k) free
    · refine fun some => ⟨by simp, fun _ k => ?_⟩
      by_contra free
      obtain ⟨-, m, bare, other⟩ := some ⟨k, free⟩
      exact other (top m bare)
  · have first (k : PeerIx) (free : ¬ OwnsBuffer b k) :
        (b.peers i).lastSeen ≤ (b.peers k).lastSeen :=
      least k (List.mem_finRange k) free
    rw [peerEvictPick, pick]
    constructor
    · rintro ⟨oldest, -⟩ -
      refine ⟨?_, i, bare, by bv_omega⟩
      by_cases this : (b.peers i).lastSeen ≤ now
      · left
        intro k free
        by_contra last
        have younger := age_lt this (BitVec.not_le.mp last)
        exact absurd (oldest i rfl (full i) k free) (Nat.not_le.mpr younger)
      · right
        intro k free
        have := first k free
        bv_omega
    · intro some
      obtain ⟨turn, -⟩ := some ⟨i, bare⟩
      refine ⟨?_, by simp⟩
      rintro _ ⟨⟩ - k free
      refine (age_le_iff ?_).mpr (first k free)
      rcases turn with this | last
      · exact .inl ⟨this i bare, this k free⟩
      · exact .inr ⟨last i bare, last k free⟩

theorem peerCreate_pick (mac : Mac) (initMcs : Byte) (t : Nat) (b : Body ρ) :
    (peerCreate mac initMcs t b).1 = peerEvictPick b := by
  cases pick : peerEvictPick b <;> simp [peerCreate, pick]

theorem peerCreate_peers (mac : Mac) (initMcs : Byte) (t : Nat) (b : Body ρ) (k : PeerIx) :
    (peerEvictPick b ≠ some k → (peerCreate mac initMcs t b).2.peers k = b.peers k) ∧
      (peerEvictPick b = some k → ((peerCreate mac initMcs t b).2.peers k).inUse = true ∧
        ((peerCreate mac initMcs t b).2.peers k).mac = mac) := by
  cases pick : peerEvictPick b with
  | none => simp [peerCreate, pick]
  | some i =>
    have entry : (peerCreate mac initMcs t b).2.peers = Function.update b.peers i
        ((peerCreate mac initMcs t b).2.peers i) := by
      simp [peerCreate, pick, nowJ, platform, emit]
    constructor
    · intro other
      rw [entry, Function.update_of_ne (fun same => other (by rw [same]))]
    · rintro ⟨⟩
      simp [peerCreate, pick, nowJ, platform, emit]

-- The stamps have to be of one turn of the counter, and not all of them the greatest number.
theorem peer_create_leastRecent_iff (mac : Mac) (initMcs : Byte) (t : Nat) (b : Body ρ)
    (now : Jiffy) :
    (∀ k, (peerCreate mac initMcs t b).1 ≠ some k →
      (peerCreate mac initMcs t b).2.peers k = b.peers k) ∧
    (∀ i, (peerCreate mac initMcs t b).1 = some i →
      ((peerCreate mac initMcs t b).2.peers i).inUse = true ∧
        ((peerCreate mac initMcs t b).2.peers i).mac = mac ∧
        ((b.peers i).inUse = true → ¬ OwnsBuffer b i)) ∧
    ((∃ k, (b.peers k).inUse = false) →
      ∃ i, (peerCreate mac initMcs t b).1 = some i ∧ (b.peers i).inUse = false) ∧
    ((∀ k, (b.peers k).inUse = true) →
      (LeastRecent now b (peerCreate mac initMcs t b).1 ↔
        ((∃ k, ¬ OwnsBuffer b k) →
          OneTurn now b ∧ ∃ k, ¬ OwnsBuffer b k ∧ (b.peers k).lastSeen ≠ -1#32))) := by
  rw [peerCreate_pick]
  refine ⟨fun k => (peerCreate_peers mac initMcs t b k).1, fun i pick => ?_, ?_, ?_⟩
  · obtain ⟨used, named⟩ := (peerCreate_peers mac initMcs t b i).2 pick
    refine ⟨used, named, fun inUse => ?_⟩
    rw [← bufForPeer_isSome_iff, peerEvictScan_some pick (by simp) inUse]
    simp
  · rintro ⟨k, free⟩
    exact peerEvictScan_free ⟨k, List.mem_finRange k, free⟩
  · exact peerEvictPick_leastRecent_iff now

def hearFrom (n : Byte) : List (Move Board) :=
  [.start 1 (.onRx [n] ⟨2, 0, 0, 0, 0, n⟩ (some ⟨2, 0, 0, 0, 1, 0⟩) 0), .resume 1, .resume 1,
    .resume 1]

def pause (ms : Nat) : Move Board := .wait fun r => { r with jiffies := r.jiffies + ms }

def crowd : List (Move Board) :=
  hearFrom 1 ++ pause 1000 :: ((List.range 15).flatMap fun k => hearFrom (BitVec.ofNat 8 (k + 2)))

def noBuffers (b : Body Board) : Bool := (List.finRange 16).all fun j => (b.bufs j).isNone

theorem noBuffers_owns {b : Body Board} (none : noBuffers b = true) (i : PeerIx) :
    ¬ OwnsBuffer b i := by
  rintro ⟨j, buf, held, -⟩
  have empty := List.all_eq_true.mp none j (List.mem_finRange j)
  simp [held] at empty

theorem peer_create_leastRecent_crowd : ∃ c : Threads Board,
    playAll crowd (started halowAckConfigSetDefault (.quiet 2 8)) = some c ∧
    ((∀ k, (c.body.peers k).inUse = true ∧ (c.body.peers k).lastSeen ≤ 102000#32) ∧
      noBuffers c.body) ∧
    LeastRecent 102000#32 c.body
      (peerCreate ⟨2, 0, 0, 0, 0, 17⟩ 2 0 c.body).1 := by
  refine played_then (by decide +kernel) fun c _ ⟨full, empty⟩ => ?_
  refine ((peer_create_leastRecent_iff _ 2 0 c.body 102000#32).2.2.2
    fun k => (full k).1).mpr fun _ => ⟨.inl fun k _ => (full k).2, 0, noBuffers_owns empty 0, ?_⟩
  have early := (full 0).2
  bv_omega

theorem peer_create_evicts_younger : ∃ c : Threads Board,
    playAll crowd (started halowAckConfigSetDefault
      { Radio.Board.quiet 2 8 with jiffies := 2 ^ 32 - 500 }) = some c ∧ Reachable c ∧
    noBuffers c.body ∧ (∀ k, (c.body.peers k).inUse = true ∧
      age 1500#32 (c.body.peers k) < 2 ^ 31) ∧
    (peerCreate ⟨2, 0, 0, 0, 0, 17⟩ 2 0 c.body).1 = some 1 ∧
    age 1500#32 (c.body.peers 1) = 1000 ∧ age 1500#32 (c.body.peers 0) = 2000 :=
  played (by decide +kernel)

end RnodeHalow.Ack
