import RnodeHalow.Ack.LockBalance
import RnodeHalow.Ack.Schedule

set_option autoImplicit false

namespace RnodeHalow.Ack

open Resumption
open Function (update update_of_ne update_self)

variable {ρ : Type} [Platform ρ] {n : Nat}

inductive AckTo (dest : Mac) : Event → Prop
  | env (evm : Byte) (base : BitVec 16) (bm : BitVec 64) (mcs : Byte) :
      AckTo dest (.txP (envAckFrame evm base bm) dest mcs 7)
  | fid (cfg : Config) (evm : Byte) (fids : List (BitVec 16)) (mcs : Byte) :
      AckTo dest (.txP (fidAckFrame cfg evm fids) dest mcs 7)

def AckHanded (dest : Mac) (older trace : History) : Prop :=
  ∃ news, trace = news ++ older ∧ ∃ e ∈ news, AckTo dest e.2

def AckOwed (mac : Mac) (peers : PeerIx → AckPeer) : Prop :=
  ∃ i, (peers i).inUse = true ∧ (peers i).mac = mac ∧ (peers i).ackDue = true

def swallows (payload : List Byte) (src : Mac) (b : Body ρ) : Bool :=
  (peerFind b src).any fun i => seqRetrans (b.peers i) (le16 payload 3)

def canHavePeer (src : Mac) (b : Body ρ) : Bool :=
  (peerFind b src).isSome || (peerEvictPick b).isSome

variable {dest src : Mac} {t : Nat} {b : Body ρ}

theorem AckHanded.not_one {τ : Nat} {e : Event} {trace : History}
    (other : ¬ AckTo dest e) : ¬ AckHanded dest trace ((τ, e) :: trace) := by
  rintro ⟨news, eq, x, member, ack⟩
  have one : news = [(τ, e)] := List.append_cancel_right eq.symm
  rw [one, List.mem_singleton] at member
  rw [member] at ack
  exact other ack

theorem AckHanded.since {older mid trace : History} (longer : older <:+ mid)
    (handed : AckHanded dest mid trace) : AckHanded dest older trace := by
  obtain ⟨more, rfl⟩ := longer
  obtain ⟨news, rfl, e, member, ack⟩ := handed
  exact ⟨news ++ more, by simp, e, by simp [member], ack⟩

theorem Calms.suffix {c c' : Core} (calms : Calms c c') : c.trace <:+ c'.trace := by
  obtain ⟨new, eq, -⟩ := calms.grown
  exact ⟨new, eq.symm⟩

theorem ackOwed_congr {peers peers' : PeerIx → AckPeer}
    (same : ∀ i, (peers' i).debt = (peers i).debt) (mac : Mac) :
    AckOwed mac peers' ↔ AckOwed mac peers := by
  simp only [AckPeer.debt, Prod.mk.injEq] at same
  simp only [AckOwed, (same _).1, (same _).2.1, (same _).2.2.1]

omit [Platform ρ] in
theorem peerFind_congr {b b' : Body ρ} (same : ∀ i, (b'.peers i).debt = (b.peers i).debt)
    (mac : Mac) : peerFind b' mac = peerFind b mac := by
  simp only [AckPeer.debt, Prod.mk.injEq] at same
  simp only [peerFind, (same _).1, (same _).2.1]

structure BundleSeen (payload : List Byte) (src : Mac) (b : Body ρ) (r : Bool) (c' : Core) :
    Prop where
  consumed : r = swallows payload src b
  trace : ∃ τ t found retrans, c'.trace = (τ, .heard t src found payload retrans) :: b.trace
  debt : ∀ i, (c'.peers i).debt = (b.peers i).debt
  stranger : peerFind b src = none → c'.peers = b.peers ∧ c'.bufs = b.bufs

theorem peerRxSeq_debt (undefinedShl : Nat → BitVec 32) (p : AckPeer) (seq : BitVec 16) :
    (peerRxSeq undefinedShl p seq).debt = p.debt := by
  unfold peerRxSeq
  dsimp only
  repeat' split
  all_goals rfl

theorem rxBundleLocked_seen (payload : List Byte) (src : Mac) (t : Nat) (b : Body ρ) :
    Does (rxBundleLocked payload src : Code ρ Bool) t (core b)
      (BundleSeen payload src b) := by
  refine Does.seq (Does.self (Does.seq (Does.read fun b' same => ?_)))
  rw [peerFind_congr fun i => congrArg (fun c : Core => (c.peers i).debt) same]
  cases found : peerFind b src with
  | none =>
    refine Does.seq (emit_does _ (Does.pure _ ⟨?_, ⟨_, _, _, _, rfl⟩, fun _ => rfl, ?_⟩))
    · simp [swallows, found]
    · exact fun _ => ⟨rfl, rfl⟩
  | some i =>
    refine Does.get (fun c => seqRetrans (c.peers i) (le16 payload 3)) (fun _ => rfl) ?_
    refine Does.seq (modifyPeer_does (Does.seq (emit_does _ ?_)))
    refine Does.seq (modifyStats_does id (fun _ => rfl) (Does.seq ?_))
    have consumed : seqRetrans ((core b).peers i) (le16 payload 3) = swallows payload src b := by
      simp only [swallows, found, Option.any_some]
      rfl
    have debt (k : PeerIx) : (update b.peers i
        (peerRxSeq (Platform.undefinedShl ρ) (b.peers i) (le16 payload 3)) k).debt =
          (b.peers k).debt := by
      by_cases same : k = i
      · subst same
        rw [update_self, peerRxSeq_debt]
      · rw [update_of_ne same]
    unfold Sec.when
    split
    · refine modifyStats_does id (fun _ => rfl) (Does.pure _ ⟨consumed, ?_, debt, by simp [found]⟩)
      exact ⟨_, _, _, _, rfl⟩
    · refine Does.pure _ (Does.pure _ ⟨consumed, ?_, debt, by simp [found]⟩)
      exact ⟨_, _, _, _, rfl⟩

omit [Platform ρ] in
theorem peerEvictPick_congr {b b' : Body ρ} (peers : b'.peers = b.peers) (bufs : b'.bufs = b.bufs) :
    peerEvictPick b' = peerEvictPick b := by
  have owner : bufForPeer b' = bufForPeer b := by
    unfold bufForPeer
    rw [bufs]
  have scan (l : List PeerIx) (victim : Option PeerIx) (oldest : Jiffy) :
      peerEvictScan b' l victim oldest = peerEvictScan b l victim oldest := by
    induction l generalizing victim oldest with
    | nil => rfl
    | cons i rest ih => simp only [peerEvictScan, owner, peers, ih]
  exact scan _ _ _

omit [Platform ρ] in
theorem canHavePeer_congr {b b' : Body ρ} (peers : b'.peers = b.peers) (bufs : b'.bufs = b.bufs) :
    canHavePeer src b' = canHavePeer src b := by
  simp only [canHavePeer, peerEvictPick_congr peers bufs,
    peerFind_congr fun i => congrArg AckPeer.debt (congrFun peers i)]

theorem peerCreate_isSome {initMcs : Byte} {c : Core}
    (room : ∀ b : Body ρ, core b = c → (peerEvictPick b).isSome = true) :
    Does (peerCreate src initMcs : Code ρ (Option PeerIx)) t c fun r _ => r.isSome = true := by
  refine Does.seq (Does.read fun b same => ?_)
  obtain ⟨i, picked⟩ := Option.isSome_iff_exists.mp (room b same)
  rw [picked]
  intro b' _
  rfl

theorem peerGet_isSome (room : canHavePeer src b = true) :
    Does (peerGet src : Code ρ (Option PeerIx)) t (core b) fun r _ => r.isSome = true := by
  refine Does.seq (Does.read fun b' same => ?_)
  rw [← canHavePeer_congr (congrArg Core.peers same) (congrArg Core.bufs same)] at room
  refine Does.seq (Does.mono peerInitMcs_does ?_)
  rintro initMcs _ ⟨n, rfl⟩
  cases found : peerFind b' src with
  | some i => exact fun _ _ => rfl
  | none =>
    simp only [canHavePeer, found, Option.isSome_none, Bool.false_or] at room
    refine peerCreate_isSome fun b'' waited => ?_
    rw [← same] at waited
    rw [peerEvictPick_congr (congrArg Core.peers waited) (congrArg Core.bufs waited)]
    exact room

theorem ackDecideLocked_does {c : Core} {i : PeerIx} {mac : Mac} (here : Here i mac c) :
    Does (ackDecideLocked i : Code ρ (Option (List (BitVec 16)))) t c fun r c' =>
      r.isSome = true ∨ AckOwed mac c'.peers := by
  have owed (p : AckPeer) (inUse : p.inUse = true) (mac' : p.mac = mac) (due : p.ackDue = true)
      (c' : Core) : AckOwed mac (c'.setPeer i p).peers :=
    ⟨i, by simpa [Core.setPeer] using ⟨inUse, mac', due⟩⟩
  refine Does.get (fun c => c.cfg) (fun _ => rfl) (Does.get (fun c => c.peers i) (fun _ => rfl) ?_)
  by_cases off : c.cfg.ackHoldMs = 0
  · rw [if_pos off]
    exact Does.seq (modifyPeer_does (Does.pure _ (.inl rfl)))
  rw [if_neg off]
  by_cases full : (c.peers i).rxSinceAck + 1 ≥ BitVec.ofNat 16 c.cfg.ackFids
  · rw [if_pos full]
    exact Does.seq (modifyPeer_does (Does.pure _ (.inl rfl)))
  rw [if_neg full]
  refine Does.seq (modifyPeer_does (Does.seq ?_))
  unfold Sec.when
  by_cases due : (c.peers i).ackDue = false
  · rw [if_pos due]
    refine Does.seq (nowJ_does fun n _ => Does.seq (Does.read fun b _ => modifyPeer_does ?_))
    refine Does.pure _ (.inr (owed _ ?_ ?_ rfl _))
    · simpa [Core.setPeer] using here.1
    · simpa [Core.setPeer] using here.2
  · rw [if_neg due]
    refine Does.pure _ (Does.pure _ (.inr (owed _ ?_ ?_ ?_ _)))
    · exact here.1
    · exact here.2
    · simpa using due

theorem rxDataLocked_does (hash : BitVec 32) (evm : Byte) (room : canHavePeer src b = true) :
    Does (rxDataLocked hash src true evm : Code ρ _) t (core b) fun r c' =>
      (core b).trace <:+ c'.trace ∧ (r.2.isSome = true ∨ AckOwed src c'.peers) := by
  intro b0 same
  refine ⟨same ▸ (rxDataLocked_calm hash src true evm t b0).suffix, ?_⟩
  revert b0 same
  change Does (rxDataLocked hash src true evm : Code ρ _) t (core b) fun r c' =>
    r.2.isSome = true ∨ AckOwed src c'.peers
  refine Does.seq (fun b0 same => ?_)
  obtain ⟨i, got⟩ := Option.isSome_iff_exists.mp (peerGet_isSome room b0 same)
  have here := (peerGet_does (t := t) b0 same).2 i got
  change Does _ t (core (peerGet src t b0).2) _
  rw [show (rxPeer src true t b0).1 = some i from got]
  refine Does.seq (Does.still (modifyPeer_still i fun _ => rfl) fun _ c1 one => ?_)
  refine Does.seq (Does.read fun b' same => Does.seq ?_)
  refine Does.still (.when (modifyPeer_still i fun _ => rfl)) fun _ c2 two => ?_
  refine Does.seq (Does.mono (ackDecideLocked_does (two.here (one.here here))) ?_)
  exact fun fids c3 decided => Does.pure _ decided

theorem halowTxP_handed (t : Nat) (b : Body ρ) {data : List Byte} {mcs : Byte}
    (ack : AckTo dest (.txP data dest mcs 7)) :
    AckHanded dest b.trace (halowTxP data dest mcs 7 t b).2.trace :=
  ⟨[(Platform.jiffies b.plat, .txP data dest mcs 7)], rfl, _, List.mem_singleton_self _, ack⟩

theorem sendAck_alone {evm : Byte} {fids : List (BitVec 16)} {s : Node ρ} (free : s.Free n) :
    Alone (sendAck evm dest fids) s fun _ s' => s'.Free n ∧ s'.active = s.active ∧
      s'.body.peers = s.body.peers ∧ AckHanded dest s.body.trace s'.body.trace := by
  refine .seq (.locked free fun s1 free1 active1 body1 => .pure _ (.seq (.sec ?_)))
  refine .locked free1 fun s2 free2 active2 body2 => ?_
  have peers : s2.body.peers = s.body.peers := by rw [body2]; simp [modifyStats, body1]
  have trace : s2.body.trace = s.body.trace := by rw [body2]; simp [modifyStats, body1]
  rw [← peers, ← trace, ← active1, ← show s2.active = s1.active from active2]
  split
  · exact .sec ⟨free2, rfl, rfl, halowTxP_handed s2.active s2.body (.env _ _ _ _)⟩
  · exact .sec ⟨free2, rfl, rfl, halowTxP_handed s2.active s2.body (.fid _ _ _ _)⟩

theorem rxDataNoted_does (payload : List Byte) {src dst : Mac} (evm : Byte)
    (unicast : isBroadcast dst = false) (room : canHavePeer src b = true) :
    Does (rxDataNoted payload src (some dst) evm : Code ρ _) t (core b) fun r c' =>
      (core b).trace <:+ c'.trace ∧ (r.2.isSome = true ∨ AckOwed src c'.peers) := by
  have toMe : isToMe (some dst) = true := by simp [isToMe, unicast]
  unfold rxDataNoted
  rw [toMe]
  refine Does.seq (Does.mono (rxDataLocked_does _ evm room) fun r c1 done => Does.seq ?_)
  unfold Sec.when
  split
  · refine Does.seq (Does.self (emit_does _ (Does.pure _ ⟨?_, done.2⟩)))
    exact done.1.trans (List.suffix_cons _ _)
  · exact Does.pure _ (Does.pure _ done)

theorem rxData_obliges {payload : List Byte} {src dst : Mac} {evm : Byte} {s : Node ρ}
    (free : s.Free n) (unicast : isBroadcast dst = false) (room : canHavePeer src s.body = true) :
    Alone (rxData payload src (some dst) evm) s fun _ s' =>
      AckHanded src s.body.trace s'.body.trace ∨ AckOwed src s'.body.peers := by
  refine .locked free fun s1 free1 _ body1 => ?_
  obtain ⟨longer, decided⟩ := rxDataNoted_does payload evm unicast room (t := s.active) s.body rfl
  cases fids : (rxDataNoted payload src (some dst) evm s.active s.body).1.2 with
  | none =>
    rw [fids] at decided
    refine .pure _ (.inr ?_)
    rw [body1]
    exact decided.resolve_left (by simp)
  | some fids =>
    refine .seq ((sendAck_alone free1).mono fun _ s2 sent => .pure _ (.inl ?_))
    refine AckHanded.since ?_ sent.2.2.2
    rw [body1]
    exact longer

theorem isEnvBundle_not_ack {payload : List Byte} (bundle : isEnvBundle payload = true) :
    isEnvAck payload = false := by
  simp only [isEnvBundle, isEnvAck, Bool.and_eq_true, decide_eq_true_eq] at bundle ⊢
  simp [bundle.1.1.2, envTypeBundle, envTypeAck]

theorem bundle_obliges_iff (s : Node ρ) (free : s.owner = none) (payload : List Byte)
    (src dst : Mac) (evm : Byte) (env : isEnvFrame payload = true)
    (bundle : isEnvBundle payload = true) (unicast : isBroadcast dst = false)
    (room : canHavePeer src s.body = true) :
    Alone (halowAckOnRx payload src (some dst) evm) s fun _ s' =>
      (AckHanded src s.body.trace s'.body.trace ∨ AckOwed src s'.body.peers) ↔
        (swallows payload src s.body = false ∨ AckOwed src s.body.peers) := by
  have seen := rxBundleLocked_seen payload src s.active s.body s.body rfl
  unfold halowAckOnRx
  rw [if_pos env]
  refine .seq ?_
  unfold rxEnv
  rw [if_neg (by simp [isEnvBundle_not_ack bundle]), if_pos bundle]
  refine .locked (n := s.misuse) ⟨free, rfl⟩ fun s₁ free₁ _ body₁ => .pure _ ?_
  rw [← body₁] at seen
  rw [seen.consumed]
  have owed : AckOwed src s₁.body.peers ↔ AckOwed src s.body.peers :=
    ackOwed_congr seen.debt src
  obtain ⟨τ, t, found, retrans, trace⟩ := seen.trace
  change s₁.body.trace = _ at trace
  cases swallowed : swallows payload src s.body with
  | true =>
    have quiet : ¬ AckTo src (.heard t src found payload retrans) := by rintro ⟨⟩
    refine .pure _ ?_
    rw [owed, trace]
    simp [AckHanded.not_one quiet]
  | false =>
    have room₁ : canHavePeer src s₁.body = true := by
      cases found : peerFind s.body src with
      | none =>
        have same := seen.stranger found
        rw [canHavePeer_congr same.1 same.2]
        exact room
      | some i =>
        have same : peerFind s₁.body src = peerFind s.body src := peerFind_congr seen.debt src
        simp [canHavePeer, same, found]
    refine (rxData_obliges free₁ unicast room₁).mono fun _ s₂ obliged => ?_
    have longer : s.body.trace <:+ s₁.body.trace := trace ▸ List.suffix_cons _ _
    simpa using obliged.imp_left (AckHanded.since longer)

def bundleOf (seq : BitVec 16) : List Byte := bundleHdr seq 1 ++ [1, 0, 0x41]

def remoteMac : Mac := ⟨2, 0, 0, 0, 0, 1⟩

def ownMac : Mac := ⟨2, 0, 0, 0, 0, 2⟩

theorem bundle_obliges_iff_firstBundle : idleNode.owner = none ∧
    isEnvFrame (bundleOf 0) = true ∧ isEnvBundle (bundleOf 0) = true ∧
    isBroadcast ownMac = false ∧ canHavePeer remoteMac idleNode.body = true ∧
    Alone (halowAckOnRx (bundleOf 0) remoteMac (some ownMac) 0) idleNode fun _ s' =>
      (AckHanded remoteMac idleNode.body.trace s'.body.trace ∨
          AckOwed remoteMac s'.body.peers) ↔
        (swallows (bundleOf 0) remoteMac idleNode.body = false ∨
          AckOwed remoteMac idleNode.body.peers) :=
  have room : canHavePeer remoteMac idleNode.body = true := by decide +kernel
  ⟨rfl, by decide, by decide, by decide, room,
    bundle_obliges_iff idleNode rfl (bundleOf 0) remoteMac ownMac 0 (by decide) (by decide)
      (by decide) room⟩

def twoBundles : List (Move Board) :=
  .start 1 (.onRx (bundleOf 0) remoteMac (some ownMac) 0) :: List.replicate 9 (.resume 1) ++
    .start 1 (.onRx (bundleOf 1) remoteMac (some ownMac) 0) :: List.replicate 9 (.resume 1)

theorem bundle_unanswered_secondCopy : ∃ c s',
    playAll twoBundles (started { halowAckConfigSetDefault with ackHoldMs := 0 } (.quiet 7 8)) =
      some c ∧ Reachable c ∧ c.shared.owner = none ∧
    (halowAckOnRx (bundleOf 1) remoteMac (some ownMac) 0).run c.shared = some (false, s') ∧
    ¬ (AckHanded remoteMac c.body.trace s'.body.trace ∨
      AckOwed remoteMac s'.body.peers) := by
  have run : ∃ c ∈ playAll twoBundles
        (started { halowAckConfigSetDefault with ackHoldMs := 0 } (Radio.Board.quiet 7 8)),
      c.shared.owner = none ∧
        ∃ r ∈ (halowAckOnRx (bundleOf 1) remoteMac (some ownMac) 0).run c.shared,
          r.1 = false ∧ r.2.body.trace =
            (100000, .heard 1 remoteMac (some 0) (bundleOf 1) true) :: c.body.trace ∧
          ∀ i, (r.2.body.peers i).ackDue = false := by
    decide +kernel
  obtain ⟨c, script, reach, free, ⟨_, s'⟩, again, rfl, trace, none⟩ := played run
  refine ⟨c, s', script, reach, free, again, ?_⟩
  rw [trace]
  rintro (handed | ⟨i, _, _, due⟩)
  · exact AckHanded.not_one (by rintro ⟨⟩) handed
  · cases (none i).symm.trans due

end RnodeHalow.Ack
