import RnodeHalow.Ack.BitmapAck
import RnodeHalow.Shared.Strikes

set_option autoImplicit false

namespace RnodeHalow.Ack

open Resumption Strikes

variable {ρ : Type} [Platform ρ]

def listedFids (cfg : Config) (fids : List (BitVec 16)) : List (BitVec 16) :=
  fids.take cfg.ackFids

theorem fidAckFrame_eq {cfg : Config} (one : 1 ≤ cfg.ackFids) (few : cfg.ackFids ≤ 16) (evm : Byte)
    (fids : List (BitVec 16)) :
    fidAckFrame cfg evm fids = [ackMagic0, ackMagic1, if evm ≠ 0 then evm else 0x80#8] ++
      (listedFids cfg fids).flatMap fun fid => [lo8 fid, hi8 fid] := by
  have bound : ¬ cfg.ackFids > ackFidsMax := Nat.not_lt.mpr few
  have nonzero : cfg.ackFids ≠ 0 := Nat.one_le_iff_ne_zero.mp one
  simp only [fidAckFrame, if_neg bound, if_neg nonzero, listedFids]

theorem buildFids_length (cfg : Config) (p : AckPeer) : (buildFids cfg p).length = 16 := by
  simp [buildFids, ackFidsMax]

theorem listedFids_length {cfg : Config} (few : cfg.ackFids ≤ 16) (built : Config) (p : AckPeer) :
    (listedFids cfg (buildFids built p)).length = cfg.ackFids := by
  rw [listedFids, List.length_take, buildFids_length, Nat.min_eq_left few]

theorem flatMap_fids_length (fids : List (BitVec 16)) :
    (fids.flatMap fun fid => [lo8 fid, hi8 fid]).length = 2 * fids.length := by
  simp [List.length_flatMap, Nat.mul_comm]

theorem le16_fids (fids : List (BitVec 16)) (k : Nat) (bound : k < fids.length) :
    le16 (fids.flatMap fun fid => [lo8 fid, hi8 fid]) (2 * k) = fids[k] := by
  induction fids generalizing k with
  | nil => cases bound
  | cons fid rest ih =>
    cases k with
    | zero => exact le16_lo_hi fid
    | succ k => exact ih k (Nat.lt_of_succ_lt_succ bound)

theorem listed_read (b0 b1 b2 : Byte) (fids : List (BitVec 16)) :
    (List.range fids.length).map (fun k =>
      le16 ([b0, b1, b2] ++ fids.flatMap fun fid => [lo8 fid, hi8 fid]) (3 + 2 * k)) = fids := by
  refine List.ext_getElem (by simp) fun k bound _ => ?_
  rw [List.length_map, List.length_range] at bound
  rw [List.getElem_map, List.getElem_range, Nat.add_comm]
  exact le16_fids fids k bound

theorem marked_iff (evm : Byte) : 0x80#8 ≤ (if evm ≠ 0 then evm else 0x80#8) ↔ evm.toInt ≤ 0 := by
  revert evm
  decide

theorem fidAckFrame_isAckFrame {cfg : Config} (one : 1 ≤ cfg.ackFids) (few : cfg.ackFids ≤ 16)
    (evm : Byte) (built : Config) (p : AckPeer) :
    isAckFrame (fidAckFrame cfg evm (buildFids built p)) = true ↔ evm.toInt ≤ 0 := by
  have length := listedFids_length few built p
  rw [fidAckFrame_eq one few, ← marked_iff]
  generalize listedFids cfg (buildFids built p) = listed at length
  have bytes := flatMap_fids_length listed
  generalize listed.flatMap (fun fid => [lo8 fid, hi8 fid]) = rest at bytes
  have parts : isAckFrame ([ackMagic0, ackMagic1, if evm ≠ 0 then evm else 0x80#8] ++ rest) = true ↔
      (5 ≤ 3 + rest.length ∧ 3 + rest.length ≤ 35 ∧ (3 + rest.length - 3) % 2 = 0) ∧
        0x80#8 ≤ (if evm ≠ 0 then evm else 0x80#8) := by
    have size : ([ackMagic0, ackMagic1, if evm ≠ 0 then evm else 0x80#8] ++ rest).length =
        3 + rest.length := List.length_append
    simp only [isAckFrame, size, Bool.and_eq_true, decide_eq_true_eq, beq_iff_eq,
      Nat.and_one_is_mod, and_assoc]
    exact ⟨fun ⟨h1, h2, h3, _, _, h4⟩ => ⟨h1, h2, h3, h4⟩,
      fun ⟨h1, h2, h3, h4⟩ => ⟨h1, h2, h3, rfl, rfl, h4⟩⟩
  rw [parts]
  exact and_iff_right ⟨by omega, by omega, by omega⟩

theorem fidAckFrame_isEnvFrame {cfg : Config} (one : 1 ≤ cfg.ackFids) (few : cfg.ackFids ≤ 16)
    (evm : Byte) (built : Config) (p : AckPeer) :
    isEnvFrame (fidAckFrame cfg evm (buildFids built p)) = false ↔ evm.toInt ≤ 0 := by
  rw [fidAckFrame_eq one few, ← marked_iff]
  simp [isEnvFrame, byteAt]

def fidKey (src : Mac) (buf : AckBuf) : Option (BitVec 16) :=
  if buf.state = .inflight && macEq buf.destMac src then some buf.fid else none

omit [Platform ρ] in
theorem bufMatch_eq (b : Body ρ) (src : Mac) (fid : BitVec 16) :
    bufMatch b src fid = first (fidKey src) b.bufs fid := by
  unfold bufMatch first allBufs
  congr 1
  funext j
  cases b.bufs j with
  | none => rfl
  | some buf =>
    rw [Bool.eq_iff_iff]
    simp [fidKey]
    tauto

theorem Seated.strike {bufs : BufIx → Option AckBuf} (seated : Seated bufs) (src : Mac)
    (fid : BitVec 16) : Seated (strike (fidKey src) bufs fid) := by
  cases found : first (fidKey src) bufs fid with
  | none =>
    rw [strike_of_none found]
    exact seated
  | some j =>
    rw [strike_of_some found]
    exact seated.update j

theorem rxAckFid_does {t : Nat} {c : Core} (src : Mac) (found : Option PeerIx) (fid : BitVec 16)
    (seated : Seated c.bufs) :
    Does (rxAckFid src found fid : Code ρ Unit) t c fun _ c' =>
      c'.bufs = strike (fidKey src) c.bufs fid := by
  refine Does.get (fun c => (first (fidKey src) c.bufs fid).bind fun j => (c.bufs j).map (j, ·))
    (fun b => by rw [bufMatch_eq]; rfl) ?_
  cases hit : first (fidKey src) c.bufs fid with
  | none =>
    rw [strike_of_none hit]
    exact Does.still (modifyStats_still fun _ => rfl) fun _ _ still => still.bufs
  | some j =>
    rw [strike_of_some hit]
    have keyed := mem_holders.mp (first_some hit)
    obtain ⟨buf, held, -⟩ := Option.bind_eq_some_iff.mp keyed
    rw [Option.bind_some, held, Option.map_some]
    refine Does.seq (Does.mono (bufAcked_frees held (seated j buf held)) fun _ c1 freed => ?_)
    cases found with
    | none => exact Does.pure _ freed.1
    | some i =>
      dsimp only [Sec.ifSome]
      exact modifyPeer_does freed.1

theorem fidScan_does {t : Nat} {c : Core} (src : Mac) (found : Option PeerIx)
    (fids : List (BitVec 16)) (seated : Seated c.bufs) :
    Does (Sec.forEach fids fun fid => Sec.when (fid ≠ 0) (rxAckFid src found fid) :
      Code ρ Unit) t c fun _ c' =>
        c'.bufs = strikes (fidKey src) c.bufs (fids.filter (· ≠ 0)) := by
  induction fids generalizing c with
  | nil => exact Does.pure _ rfl
  | cons fid rest ih =>
    refine Does.seq ?_
    by_cases zero : fid = 0
    · rw [List.filter_cons_of_neg (by simp [zero]), zero]
      exact Does.pure _ (ih seated)
    · rw [List.filter_cons_of_pos (p := fun fid => decide (fid ≠ 0)) (decide_eq_true zero)]
      dsimp only [Sec.when]
      rw [if_pos zero]
      refine Does.mono (rxAckFid_does src found fid seated) fun _ c1 struck => ?_
      rw [strikes, ← struck]
      exact ih (struck ▸ seated.strike src fid)

theorem Sec.forEach_map {σ ι κ : Type} (f : ι → κ) (l : List ι) (body : κ → Sec σ Unit) :
    Sec.forEach (l.map f) body = Sec.forEach l fun i => body (f i) := by
  induction l with
  | nil => rfl
  | cons i rest ih => rw [List.map_cons, Sec.forEach, Sec.forEach, ih]

theorem rxAckLocked_does {t : Nat} {c : Core} (b0 b1 b2 : Byte) (fids : List (BitVec 16))
    (few : fids.length ≤ 16) (src : Mac) (seated : Seated c.bufs) :
    Does (rxAckLocked ([b0, b1, b2] ++ fids.flatMap fun fid => [lo8 fid, hi8 fid]) src :
      Code ρ Unit) t c fun _ c' => ∃ bufs : BufIx → Option AckBuf,
        (∀ j, (bufs j).map AckBuf.undated = (c.bufs j).map AckBuf.undated) ∧
        c'.bufs = strikes (fidKey src) bufs (fids.filter (· ≠ 0)) := by
  refine Does.get
    (fun c => allPeers.find? fun i => (c.peers i).inUse && macEq (c.peers i).mac src)
    (fun _ => rfl) ?_
  generalize allPeers.find? _ = found
  have noted : Does (Sec.ifSome found fun i => ackNotePeer i
      (byteAt ([b0, b1, b2] ++ fids.flatMap fun fid => [lo8 fid, hi8 fid]) 2) :
      Code ρ Unit) t c fun _ c' =>
        ∀ j, (c'.bufs j).map AckBuf.undated = (c.bufs j).map AckBuf.undated := by
    cases found with
    | none => exact Does.pure _ fun _ => rfl
    | some i => exact Does.mono (ackNotePeer_does i _) fun _ _ same => same.2
  refine Does.seq (Does.mono noted fun _ c1 same => ?_)
  have count : (([b0, b1, b2] ++ fids.flatMap fun fid => [lo8 fid, hi8 fid]).length - 3) / 2 =
      fids.length := by
    rw [List.length_append, flatMap_fids_length]
    simp only [List.length_cons, List.length_nil]
    omega
  have bound : ¬ fids.length > ackFidsMax := Nat.not_lt.mpr few
  dsimp only
  rw [count, if_neg bound]
  have read := Sec.forEach_map (fun k =>
    le16 ([b0, b1, b2] ++ fids.flatMap fun fid => [lo8 fid, hi8 fid]) (3 + 2 * k))
    (List.range fids.length) fun fid =>
      (Sec.when (fid ≠ 0) (rxAckFid src found fid) : Code ρ Unit)
  rw [← read, listed_read]
  refine Does.mono (fidScan_does src found fids (seated.undated same)) fun _ c2 struck => ?_
  exact ⟨c1.bufs, same, struck⟩

def Awaits (src : Mac) (fid : BitVec 16) : Option AckBuf → Prop
  | none => False
  | some buf => buf.state = .inflight ∧ buf.destMac = src ∧ buf.fid = fid

instance (src : Mac) (fid : BitVec 16) (slot : Option AckBuf) : Decidable (Awaits src fid slot) :=
  match slot with
  | none => inferInstanceAs (Decidable False)
  | some buf => inferInstanceAs (Decidable (buf.state = .inflight ∧ buf.destMac = src ∧
      buf.fid = fid))

-- Each time a nonzero id is listed, one buffer that waits for it is released, and nothing else.
structure FidReleases (src : Mac) (listed : List (BitVec 16)) (bufs bufs' : BufIx → Option AckBuf) :
    Prop where
  each : ∀ fid, fid ≠ 0 →
    (Finset.univ.filter fun j => Awaits src fid (bufs j) ∧ bufs' j = none).card =
      min (listed.count fid) (Finset.univ.filter fun j => Awaits src fid (bufs j)).card
  only : ∀ j buf, bufs j = some buf → bufs' j = none →
    buf.fid ≠ 0 ∧ buf.fid ∈ listed ∧ Awaits src buf.fid (some buf)
  rest : ∀ j buf', bufs' j = some buf' → ∃ buf, bufs j = some buf ∧ buf'.undated = buf.undated

theorem awaits_iff {src : Mac} {fid : BitVec 16} {slot : Option AckBuf} :
    Awaits src fid slot ↔ slot.bind (fidKey src) = some fid := by
  cases slot with
  | none => simp [Awaits]
  | some buf =>
    simp only [Awaits, fidKey, Option.bind_some, ← macEq_iff]
    split
    · simp_all
    · simp_all

theorem Awaits.undated {src : Mac} {fid : BitVec 16} {x y : Option AckBuf}
    (same : y.map AckBuf.undated = x.map AckBuf.undated) : Awaits src fid y ↔ Awaits src fid x := by
  cases x with
  | none => rw [Option.map_eq_none_iff.mp same]
  | some buf =>
    obtain ⟨buf', rfl, eq⟩ := Option.map_eq_some_iff.mp same
    have fids := congrArg AckBuf.fid eq
    obtain ⟨state, dest, -, -⟩ := undated_eq eq
    change buf'.fid = buf.fid at fids
    simp only [Awaits, state, dest, fids]

theorem strikes_releases {src : Mac} {listed : List (BitVec 16)} {bufs noted : BufIx → Option AckBuf}
    (same : ∀ j, (noted j).map AckBuf.undated = (bufs j).map AckBuf.undated) :
    FidReleases src listed bufs (strikes (fidKey src) noted (listed.filter (· ≠ 0))) := by
  constructor
  · intro fid nonzero
    have struck := struck_card (fidKey src) noted (listed.filter (· ≠ 0)) fid
    rw [List.count_filter (p := fun fid => decide (fid ≠ 0)) (decide_eq_true nonzero)] at struck
    have waiting : holders (fidKey src) noted fid =
        Finset.univ.filter fun j => Awaits src fid (bufs j) := by
      ext j
      rw [mem_holders, ← awaits_iff, Awaits.undated (same j)]
      simp
    rw [waiting, Finset.filter_filter] at struck
    exact struck
  · intro j buf held gone
    have here := same j
    rcases strikes_cases (fidKey src) noted (listed.filter (· ≠ 0)) j with still | struck
    · rw [← still, gone, held] at here
      cases here
    · obtain ⟨-, fid, member, keyed⟩ := struck
      rw [← awaits_iff, Awaits.undated here, held] at keyed
      obtain ⟨listed, nonzero⟩ := List.mem_filter.mp member
      rw [← keyed.2.2] at listed nonzero
      exact ⟨of_decide_eq_true nonzero, listed, keyed.1, keyed.2.1, rfl⟩
  · intro j buf' held
    rcases strikes_cases (fidKey src) noted (listed.filter (· ≠ 0)) j with still | ⟨gone, -⟩
    · have here := same j
      rw [← still, held] at here
      obtain ⟨buf, there, eq⟩ := Option.map_eq_some_iff.mp here.symm
      exact ⟨buf, there, eq.symm⟩
    · cases held.symm.trans gone

theorem halowAckOnRx_fids {payload : List Byte} (plain : isEnvFrame payload = false)
    (ack : isAckFrame payload = true) {s : Node ρ} (free : s.owner = none) (src : Mac)
    (dst : Option Mac) (rxEvm : Byte) {P : Body ρ → Prop}
    (scanned : ∀ b : Body ρ, b.bufs = s.body.bufs → P (rxAckLocked payload src s.active b).2) :
    Alone (halowAckOnRx payload src dst rxEvm) s fun r s' => r = false ∧ P s'.body := by
  unfold halowAckOnRx rxAck
  rw [if_neg (by rw [plain]; decide), if_pos ack]
  refine .seq (.seq (.sec (.seq (.lock ?_ (.seq (.sec (.unlock (.pure false ⟨rfl, ?_⟩))))))))
  · simp [Locked.available, free]
  · rw [Locked.release_body]
    dsimp only
    rw [Locked.acquire_active, Locked.acquire_body]
    exact scanned _ rfl

-- A positive measured value makes the frame an envelope.
theorem fid_ack_round_trip_iff (b : Body ρ) (one : 1 ≤ b.cfg.ackFids) (few : b.cfg.ackFids ≤ 16)
    (built : Config) (p : AckPeer) (evm : Byte) (dest : Mac) (mcs : Byte) (t : Nat) :
    ∃ n frame, (sendFidAck evm dest (buildFids built p) mcs t b).2.trace =
        (n, .txP frame dest mcs 7#8) :: b.trace ∧
      ((isAckFrame frame = true ∧ isEnvFrame frame = false ∧
        ∀ (ρ' : Type) [Platform ρ'] (s : Node ρ') (src : Mac) (dst : Option Mac) (rxEvm : Byte),
          s.owner = none → Seated s.body.bufs →
          ∃ s', (halowAckOnRx frame src dst rxEvm).run s = some (false, s') ∧
            FidReleases src ((buildFids built p).take b.cfg.ackFids) s.body.bufs s'.body.bufs) ↔
        evm.toInt ≤ 0) := by
  refine ⟨Platform.jiffies b.plat, fidAckFrame b.cfg evm (buildFids built p), rfl, ?_⟩
  have ack := fidAckFrame_isAckFrame one few evm built p
  constructor
  · exact fun trip => ack.mp trip.1
  · intro negative
    have plain := (fidAckFrame_isEnvFrame one few evm built p).mpr negative
    refine ⟨ack.mpr negative, plain, fun ρ' _ s src dst rxEvm free seated => ?_⟩
    have read := fidAckFrame_eq one few evm (buildFids built p)
    have length := listedFids_length few built p
    have scanned (b' : Body ρ') (same : b'.bufs = s.body.bufs) :
        FidReleases src (listedFids b.cfg (buildFids built p)) s.body.bufs
          (rxAckLocked (fidAckFrame b.cfg evm (buildFids built p)) src s.active b').2.bufs := by
      have seated' : Seated b'.bufs := same ▸ seated
      rw [read]
      obtain ⟨noted, undated, struck⟩ := rxAckLocked_does (ρ := ρ') (t := s.active) ackMagic0
        ackMagic1 (if evm ≠ 0 then evm else 0x80#8) (listedFids b.cfg (buildFids built p))
        (length.trans_le few) src seated' b' rfl
      change ∀ j, _ = (b'.bufs j).map AckBuf.undated at undated
      rw [same] at undated
      change FidReleases src _ s.body.bufs (core _).bufs
      rw [struck]
      exact strikes_releases undated
    obtain ⟨_, s', run, rfl, released⟩ := halowAckOnRx_fids
      (P := fun b' => FidReleases src (listedFids b.cfg (buildFids built p)) s.body.bufs b'.bufs)
      plain (ack.mpr negative) free src dst rxEvm scanned
    exact ⟨s', run, released⟩

def heardFirst : AckPeer := dedupRemember AckPeer.zero (fnv1a twoPayloadsFrame)

def awaitsFirst (c : Threads Board) : Bool :=
  decide (c.shared.owner = none) &&
    decide (∀ j, (c.body.bufs j).all fun buf => decide (buf.idx = j)) &&
    decide (Awaits ⟨2, 0, 0, 0, 0, 1⟩ (frameFid twoPayloadsFrame) (c.body.bufs 0))

theorem fid_ack_round_trip_firstBundle : ∃ n frame c s',
    (sendFidAck 0xFD#8 ⟨2, 0, 0, 0, 0, 2⟩ (buildFids halowAckConfigSetDefault heardFirst) 0 0
      quietNode.body).2.trace =
        (n, .txP frame ⟨2, 0, 0, 0, 0, 2⟩ 0 7#8) ::
          quietNode.body.trace ∧
      isAckFrame frame = true ∧ isEnvFrame frame = false ∧ Reachable c ∧ awaitsFirst c = true ∧
      (halowAckOnRx frame ⟨2, 0, 0, 0, 0, 1⟩ none 0).run c.shared = some (false, s') ∧
      FidReleases ⟨2, 0, 0, 0, 0, 1⟩
        [frameFid twoPayloadsFrame, 0xFFFF#16, 0xFFFF#16, 0xFFFF#16] c.body.bufs
        s'.body.bufs := by
  have run : ∃ c ∈ playAll threePayloads quietNode, awaitsFirst c = true := by
    decide +kernel
  obtain ⟨c, -, reach, awaits⟩ := played run
  have facts := awaits
  simp only [awaitsFirst, Bool.and_eq_true, decide_eq_true_eq] at facts
  obtain ⟨⟨free, seats⟩, -⟩ := facts
  have seated : Seated c.body.bufs := by
    intro j buf held
    have here := seats j
    rw [held] at here
    exact of_decide_eq_true here
  obtain ⟨n, frame, sent, trip⟩ := fid_ack_round_trip_iff
    quietNode.body (by decide) (by decide)
    halowAckConfigSetDefault heardFirst 0xFD#8 ⟨2, 0, 0, 0, 0, 2⟩ 0 0
  obtain ⟨ack, plain, releases⟩ := trip.mpr (by decide)
  obtain ⟨s', ran, released⟩ := releases Board c.shared ⟨2, 0, 0, 0, 0, 1⟩ none 0 free seated
  have listed : (buildFids halowAckConfigSetDefault heardFirst).take
      quietNode.body.cfg.ackFids =
      [frameFid twoPayloadsFrame, 0xFFFF#16, 0xFFFF#16, 0xFFFF#16] := by decide +kernel
  rw [listed] at released
  exact ⟨n, frame, c, s', sent, ack, plain, reach, awaits, ran, released⟩

theorem fid_ack_positive_lost : ∃ frame,
    (sendFidAck 1#8 ⟨2, 0, 0, 0, 0, 2⟩ (buildFids halowAckConfigSetDefault heardFirst) 0 0
      quietNode.body).2.trace.head?.map Prod.snd =
        some (.txP frame ⟨2, 0, 0, 0, 0, 2⟩ 0 7#8) ∧
      isAckFrame frame = false ∧ isEnvFrame frame = true ∧
      ∃ c, playAll threePayloads quietNode = some c ∧ Reachable c ∧ awaitsFirst c = true ∧
        ∃ r ∈ (halowAckOnRx frame ⟨2, 0, 0, 0, 0, 1⟩ none 0).run c.shared, r.1 = false ∧
          Awaits ⟨2, 0, 0, 0, 0, 1⟩ (frameFid twoPayloadsFrame) (r.2.body.bufs 0) :=
  ⟨fidAckFrame halowAckConfigSetDefault 1#8 (buildFids halowAckConfigSetDefault heardFirst), rfl,
    by decide +kernel, by decide +kernel, played (by decide +kernel)⟩

end RnodeHalow.Ack
