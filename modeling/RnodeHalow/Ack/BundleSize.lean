import RnodeHalow.Ack.Acceptance
import RnodeHalow.Ack.StagedBytes
import RnodeHalow.Radio.SizeGate

set_option autoImplicit false

namespace RnodeHalow.Ack

open Resumption Radio

variable {ρ : Type} [Platform ρ]

inductive Bundling (i : PeerIx) (m : Byte) : Body ρ → List (List Byte) → Prop
  | none (b : Body ρ) : Inv (core b) → (b.peers i).inUse = true → (b.peers i).aggIdx = none →
      Bundling i m b []
  | put {b : Body ρ} {payloads : List (List Byte)} (t : Nat) (payload : List Byte) (dest : Mac)
      (set : Body ρ) (full : Bool) : Bundling i m b payloads → (b.peers i).txMcs = m →
      (b.peers i).mac = dest → set.cfg.Clamped → payload ≠ [] →
      payload.length ≤ effAggBytes set m →
      stagedFullFor b i payload.length (effAggBytes set m) = false →
      (stageIn i payload dest (effAggBytes set m) t b).1 = some full →
      Bundling i m (stageIn i payload dest (effAggBytes set m) t b).2 (payloads ++ [payload])
  | aside {b b' : Body ρ} {payloads : List (List Byte)} : Bundling i m b payloads →
      Inv (core b') → SamePlace (b.peers i) (b'.peers i) → Bundling i m b' payloads

structure Sized (m : Byte) (p : AckPeer) (payloads : List (List Byte)) : Prop where
  count : p.aggNsub = payloads.length
  len : p.aggLen = 6 + (payloads.map fun q => 2 + q.length).sum
  some : 0 < payloads.length
  subs : payloads.length ≤ 8
  sum_le : (payloads.map List.length).sum ≤ maxPayloadMcs m
  sum_le' : (payloads.map List.length).sum ≤ 4000

omit [Platform ρ] in
theorem effAggBytes_rate {b : Body ρ} {m : Byte} (known : m ≠ halowMcsDefault) :
    effAggBytes b m ≤ maxPayloadMcs m := by
  simp only [effAggBytes, if_neg known]
  split <;> omega

theorem Sized.first {m : Byte} {p : AckPeer} {payload : List Byte} {j : BufIx} {first : Jiffy}
    (fits : payload.length ≤ maxPayloadMcs m) (fits' : payload.length ≤ 4000) :
    Sized m ((p.aggOpen j first).aggGrow payload.length) [payload] where
  count := rfl
  len := by
    simp only [AckPeer.aggGrow, AckPeer.aggOpen, ackAggReserve, List.map_cons, List.map_nil,
      List.sum_cons, List.sum_nil]
    omega
  some := Nat.zero_lt_one
  subs := Nat.succ_le_succ (Nat.zero_le 7)
  sum_le := by simpa using fits
  sum_le' := by simpa using fits'

theorem Sized.grow {m : Byte} {p : AckPeer} {payloads : List (List Byte)} {payload : List Byte}
    (sized : Sized m p payloads) (subs : p.aggNsub + 1 ≤ 8)
    (fits : payloadSum p + payload.length ≤ maxPayloadMcs m)
    (fits' : payloadSum p + payload.length ≤ 4000) (small : p.aggLen ≤ ackWireMax) :
    Sized m (p.aggGrow payload.length) (payloads ++ [payload]) := by
  obtain ⟨count, len, some, _, _, _⟩ := sized
  have headers := sum_headers payloads
  have reserve : ackAggReserve = 6 := rfl
  have net := payloadSum_exact (p := p) (by omega) small
  have total : ((payloads ++ [payload]).map List.length).sum =
      (payloads.map List.length).sum + payload.length := by simp
  have wire : ((payloads ++ [payload]).map fun q => 2 + q.length).sum =
      (payloads.map fun q => 2 + q.length).sum + (2 + payload.length) := by simp
  have size : (payloads ++ [payload]).length = payloads.length + 1 := by simp
  constructor
  · rw [size, ← count]
    rfl
  · rw [wire]
    simp only [AckPeer.aggGrow]
    omega
  all_goals omega

namespace Bundling

variable {i : PeerIx} {m : Byte} {b : Body ρ} {payloads : List (List Byte)}

def Holds (i : PeerIx) (m : Byte) (c : Core) (payloads : List (List Byte)) : Prop :=
  Inv c ∧ (c.peers i).inUse = true ∧
    ((c.peers i).aggIdx = Option.none ∧ payloads = [] ∨
      (c.peers i).aggIdx.isSome = true ∧ Sized m (c.peers i) payloads)

theorem Holds.staged {c c' : Core} {t : Nat} {payload : List Byte} {effPayload : Nat} {full : Bool}
    (holds : Holds i m c payloads) (filled : payload ≠ [])
    (short : payload.length ≤ effPayload) (limit : effPayload ≤ maxPayloadMcs m)
    (limit' : effPayload ≤ 4000)
    (room : ∀ j buf, (c.peers i).aggIdx = some j → c.bufs j = some buf →
      payloadSum (c.peers i) + payload.length ≤ effPayload)
    (how : StagedIn t i payload c (some full) c') : Holds i m c' (payloads ++ [payload]) := by
  obtain ⟨inv, inUse, state⟩ := holds
  have inv' := (how.chain inUse filled).inv inv
  have inUse' : (c'.peers i).inUse = true := (how.here ⟨inUse, rfl⟩).1
  refine ⟨inv', inUse', .inr ?_⟩
  cases how with
  | appended j buf full agg held fits subs =>
    have sized : Sized m (c.peers i) payloads := by
      rcases state with ⟨idle, _⟩ | ⟨_, sized⟩
      · rw [agg] at idle
        cases idle
      · exact sized
    have grown : (c.appendAt t i j buf payload).peers i = (c.peers i).aggGrow payload.length := by
      simp [Core.appendAt, Core.setPeer, Core.setBuf, Core.note]
    have inside := (inv.layout.staged i j buf inUse agg held).inside
    have cap := (inv.layout.block j buf held).cap_le
    have sum := room j buf agg held
    rw [grown]
    refine ⟨?_, sized.grow subs (by omega) (by omega) (by omega)⟩
    simp [AckPeer.aggGrow, agg]
  | fresh j blk cap n1 n2 full idle empty fits bound le1 le2 =>
    have none : payloads = [] := by
      rcases state with ⟨_, none⟩ | ⟨named, _⟩
      · exact none
      · rw [idle] at named
        cases named
    have grown : ((c.stageAt i j blk cap n1 n2).appendAt t i j (freshBuf blk .staging j
        (c.peers i).mac cap (BitVec.ofNat 32 n1)) payload).peers i =
        ((c.peers i).aggOpen j (BitVec.ofNat 32 n2)).aggGrow payload.length := by
      simp [Core.appendAt, Core.stageAt, Core.setPeer, Core.setBuf, Core.note]
    rw [grown, none]
    exact ⟨rfl, .first (by omega) (by omega)⟩

theorem holds (known : m ≠ halowMcsDefault) (run : Bundling i m b payloads) :
    Holds i m (core b) payloads := by
  induction run with
  | none b inv inUse idle => exact ⟨inv, inUse, .inl ⟨idle, rfl⟩⟩
  | @put b payloads t payload dest set full _ rate mac clamped filled short fits done ih =>
    have limit := effAggBytes_rate (b := set) known
    have limit' := Nat.le_trans (effAggBytes_le set m) clamped.aggBytes_le
    have wire : ackAggReserve + 2 + payload.length ≤ ackWireMax := by
      have reserve : ackAggReserve = 6 := rfl
      have most : ackWireMax = 4022 := rfl
      omega
    have how : StagedIn t i payload (core b) (stageIn i payload dest (effAggBytes set m) t b).1
        (core (stageIn i payload dest (effAggBytes set m) t b).2) :=
      stageIn_does ih.1 ⟨ih.2.1, mac⟩ wire (room_of_not_full fits) b rfl
    rw [done] at how
    refine ih.staged filled short limit limit' (fun j buf agg held => ?_) how
    have agg' : (b.peers i).aggIdx = some j := agg
    have held' : b.bufs j = some buf := held
    simp only [stagedFullFor, agg', held', bundleFullFor, Bool.or_eq_false_iff,
      decide_eq_false_iff_not, Nat.not_lt] at fits
    exact fits.1.1.1
  | @aside b b' payloads _ inv same ih =>
    have place : SamePlace ((core b).peers i) ((core b').peers i) := same
    refine ⟨inv, place.inUse.trans ih.2.1, ?_⟩
    rw [place.aggIdx]
    rcases ih.2.2 with idle | ⟨named, sized⟩
    · exact .inl idle
    · refine .inr ⟨named, ?_⟩
      obtain ⟨count, len, some, subs, sum_le, sum_le'⟩ := sized
      exact ⟨place.aggNsub.trans count, place.aggLen.trans len, some, subs, sum_le, sum_le'⟩

end Bundling

theorem aggSeal_rate {t : Nat} {c : Core} (i : PeerIx) :
    Does (aggSeal i : Code ρ FlushStart) t c fun r _ =>
      ∀ j pmcs, r = .sealed j pmcs → pmcs = (c.peers i).txMcs := by
  have sealing (j : BufIx) (b : Body ρ) :
      (aggSealNow i j t b).1 = .sealed j (b.peers i).txMcs := rfl
  have looked : Does (halowGetTxVacancy : Code ρ Nat) t c fun _ c' => c'.peers = c.peers := by
    rintro b rfl
    rfl
  refine Does.get (fun c => (c.peers i).aggIdx) (fun _ => rfl) ?_
  cases (c.peers i).aggIdx with
  | none => exact Does.pure _ (by simp)
  | some k =>
    refine Does.seq (Does.mono looked fun vacancy c1 same => ?_)
    split
    · exact Does.pure _ (by simp)
    refine Does.seq (Does.read fun _ _ => Does.seq (Does.read fun _ _ => ?_))
    split
    · exact Does.pure _ (by simp)
    rintro b rfl j pmcs done
    rw [sealing] at done
    cases done
    rw [← same]
    rfl

theorem aggLaunch_start (i : PeerIx) (t : Nat) (b : Body ρ) :
    (aggLaunch i t b).1 = (aggSeal i t b).1 := by
  rw [aggLaunch, Sec.bind_apply]
  cases (aggSeal i t b).1 <;> rfl

theorem AckBuf.wire_length {buf : AckBuf} (block : BlockOk buf) : buf.wire.length = buf.len := by
  have inside := block.inside
  have size := block.size
  simp only [AckBuf.wire, List.length_take, List.length_drop]
  omega

theorem aggLaunch_wire {i : PeerIx} {j : BufIx} {t : Nat} {b b' : Body ρ} {pmcs : Byte}
    (inv : Inv (core b)) (inUse : (b.peers i).inUse = true)
    (run : aggLaunch i t b = (.sealed j pmcs, b')) :
    (b.peers i).aggIdx.isSome = true ∧
      ∃ buf, b'.bufs j = some buf ∧ buf.wire.length = (b.peers i).aggLen := by
  have started : Started t i (core b) (.sealed j pmcs) (core b') := by
    have does := aggLaunch_does (t := t) inv inUse b rfl
    rw [run] at does
    exact does
  have inv' : Inv (core b') := (started.chain inUse).inv inv
  cases started with
  | @sealed c1 _ j pmcs still agg window launched =>
    obtain ⟨buf, p, n1, n2, n3, held, le1, le2, le3, same, rx, after⟩ := launched
    have here : (core b').bufs j = some (sealBuf (c1.peers i) buf (BitVec.ofNat 32 n1)
        (BitVec.ofNat 32 n2)) := by
      rw [after]
      exact Function.update_self ..
    have named : (b.peers i).aggIdx = some j := (still.peers i).aggIdx.symm.trans agg
    refine ⟨by rw [named]; rfl, _, here, ?_⟩
    rw [AckBuf.wire_length (inv'.layout.block j _ here)]
    exact (still.peers i).aggLen

def narrowMsdu (m : Byte) : Nat := (maxMsdu (bwIndex 1)).getD m.toNat 0

theorem narrowMsdu_fast {m : Byte} (known : m.toNat < 8) (fast : ¬ m.toNat < 4) :
    4500 ≤ narrowMsdu m := by
  revert m
  decide

theorem Sized.passed_iff {m : Byte} {p : AckPeer} {payloads : List (List Byte)} {board : Board}
    {frame : List Byte} (sized : Sized m p payloads) (rate : m.toNat < 8 ∨ m = 10)
    (len : frame.length = p.aggLen) (ops : board.opsReady = true)
    (narrow : bwIndex board.cfgMcsBw.2 = bwIndex 1) (dest : Mac) (tid : Byte) :
    board.Passed frame dest m tid ↔ (m.toNat < 4 → frame.length + 32 ≤ narrowMsdu m) := by
  obtain ⟨count, total, some, subs, sum_le, sum_le'⟩ := sized
  have headers := sum_headers payloads
  have buffer : txBufferSize = 29200 := rfl
  have parts : fragMaxPayload * fragMaxTotal = 2400 := rfl
  rw [Board.passed_iff dest tid ops (by omega) (by omega) rate]
  by_cases frag : m = 10
  · subst frag
    have limit : maxPayloadMcs 10 = 500 := rfl
    have fits : frame.length ≤ fragMaxPayload * fragMaxTotal := by omega
    simp [fits]
  · have slow : m.toNat < 8 := rate.resolve_right frag
    have row : board.msduFits m.toNat frame.length = true ↔ frame.length + 32 ≤ narrowMsdu m := by
      simp [Board.msduFits, narrow, narrowMsdu]
    rw [if_neg frag, row]
    refine ⟨fun fits _ => fits, fun fits => ?_⟩
    by_cases low : m.toNat < 4
    · exact fits low
    · have enough := narrowMsdu_fast slow low
      omega

theorem airFits_wire {rate : Byte × Byte} {mcs : Byte} {len : Nat} (small : len ≤ ackWireMax) :
    Board.airFits rate mcs len = false ↔ Board.airMcs rate mcs = 10 ∧ 2400 < len := by
  have most : ackWireMax = 4022 := rfl
  have parts : fragMaxPayload * fragMaxTotal = 2400 := rfl
  have enough : 7600 ≤ (maxMsdu (bwIndex rate.2)).getD 7 0 := by
    generalize bwIndex rate.2 = w
    revert w
    decide
  unfold Board.airFits
  by_cases frag : Board.airMcs rate mcs = 10
  · simp [frag, parts]
  · have fits : len + 32 ≤ (maxMsdu (bwIndex rate.2)).getD 7 0 := by omega
    simp only [fits, decide_true, frag, false_and]
    simp

theorem bundle_gate_iff :
    (∀ (i : PeerIx) (m : Byte) (b : Body ρ) (payloads : List (List Byte)),
      Bundling i m b payloads → (m.toNat < 8 ∨ m = 10) → (b.peers i).txMcs = m →
      ∀ t j pmcs b', aggLaunch i t b = (.sealed j pmcs, b') → pmcs = m ∧ ∃ buf,
        b'.bufs j = some buf ∧ buf.wire.length = 6 + (payloads.map fun q => 2 + q.length).sum ∧
          ∀ (board : Board) (dest : Mac) (tid : Byte), board.opsReady = true →
            bwIndex board.cfgMcsBw.2 = bwIndex 1 →
            (board.Passed buf.wire dest m tid ↔
              (m.toNat < 4 → buf.wire.length + 32 ≤ narrowMsdu m))) ∧
      ∀ (c : Threads ρ), Reachable c → ∀ j buf, c.body.bufs j = some buf →
        ∀ (board : Board) (dest : Mac) (mcs tid : Byte), board.opsReady = true →
          Board.rateKnown board.cfgMcsBw →
          (board.Oversize buf.wire dest mcs tid ↔
            Board.airMcs board.cfgMcsBw mcs = 10 ∧ 2400 < buf.wire.length) := by
  constructor
  · intro i m b payloads run rate same t j pmcs b' launch
    have known : m ≠ halowMcsDefault := by
      rintro rfl
      exact absurd rate (by decide)
    obtain ⟨inv, inUse, state⟩ := run.holds known
    obtain ⟨named, buf, held, len⟩ := aggLaunch_wire inv inUse launch
    have sized : Sized m (b.peers i) payloads := by
      rcases state with ⟨idle, _⟩ | ⟨_, sized⟩
      · have idle' : (b.peers i).aggIdx = none := idle
        rw [idle'] at named
        cases named
      · exact sized
    have start : (aggSeal i t b).1 = .sealed j pmcs := by rw [← aggLaunch_start, launch]
    have own : pmcs = (b.peers i).txMcs := aggSeal_rate (t := t) i b rfl j pmcs start
    exact ⟨own.trans same, buf, held, len.trans sized.len,
      fun board dest tid ops narrow => sized.passed_iff rate len ops narrow dest tid⟩
  · intro c h j buf held board dest mcs tid ops known
    have block : BlockOk buf := h.inv.layout.block j buf held
    have wire := AckBuf.wire_length block
    have small : buf.wire.length ≤ ackWireMax := by
      have inside := block.inside
      have cap := block.cap_le
      omega
    have bounds : ackWireMax ≤ txBufferSize := by decide
    rw [Board.oversize_iff dest mcs tid ops known (Nat.le_trans small bounds), airFits_wire small]

def nextBundle : List (Move Board) :=
  [.start 1 (.tx [1, 2, 3] ⟨2, 0, 0, 0, 0, 1⟩), .resume 1, .resume 1, .resume 1,
    .start 1 .flush, .resume 1, .resume 1, .resume 1, .resume 1, .resume 1]

def secondBundle (b : Body Board) : Option Bool × Body Board :=
  stageIn 0 [4, 5] ⟨2, 0, 0, 0, 0, 1⟩ (effAggBytes b 2) 1 b

def FlushStart.slot : FlushStart → Option (BufIx × Byte)
  | .sealed j pmcs => some (j, pmcs)
  | _ => none

theorem bundle_gate_iff_nextBundle : ∃ c : Threads Board,
    playAll nextBundle (started halowAckConfigSetDefault (.quiet 2 1)) = some c ∧
      Bundling 0 2 (secondBundle c.body).2 [[4, 5]] ∧
      (∃ b' buf, aggLaunch 0 1 (secondBundle c.body).2 = (.sealed 1 2, b') ∧
        b'.bufs 1 = some buf ∧ buf.wire.length = 10 ∧
        (Board.quiet 2 1).Passed buf.wire ⟨2, 0, 0, 0, 0, 1⟩ 2 0) ∧
      ∃ buf, c.body.bufs 0 = some buf ∧
        ¬ (Board.quiet 2 1).Oversize buf.wire ⟨2, 0, 0, 0, 0, 1⟩ 2 0 := by
  have run : ∃ c ∈ playAll nextBundle (started halowAckConfigSetDefault (Board.quiet 2 1)),
      (c.body.peers 0).inUse = true ∧ (c.body.peers 0).aggIdx = none ∧
        (c.body.peers 0).txMcs = 2 ∧ (c.body.peers 0).mac = ⟨2, 0, 0, 0, 0, 1⟩ ∧
        2 ≤ effAggBytes c.body 2 ∧ (c.body.bufs 0).isSome = true ∧
        (secondBundle c.body).1 = some false ∧
        ((secondBundle c.body).2.peers 0).txMcs = 2 ∧
        (aggLaunch 0 1 (secondBundle c.body).2).1.slot = some (1, 2) := by
    decide +kernel
  obtain ⟨c, script, reach, inUse, idle, rate, mac, short, waits, done, rate', launch⟩ := played run
  obtain ⟨sized, gate⟩ := bundle_gate_iff (ρ := Board)
  have fits : stagedFullFor c.body 0 [4, 5].length (effAggBytes c.body 2) = false := by
    simp [stagedFullFor, idle]
  have bundle : Bundling 0 2 (secondBundle c.body).2 ([] ++ [[4, 5]]) :=
    .put 1 [4, 5] _ c.body false (.none _ reach.inv inUse idle) rate mac reach.inv.clamped
      (by simp) short fits done
  refine ⟨c, script, bundle, ?_, ?_⟩
  · cases start : (aggLaunch 0 1 (secondBundle c.body).2).1 with
    | nothing | blocked =>
      rw [start] at launch
      cases launch
    | sealed j pmcs =>
      rw [start] at launch
      cases launch
      have ran : aggLaunch 0 1 (secondBundle c.body).2 =
          (.sealed 1 2, (aggLaunch 0 1 (secondBundle c.body).2).2) := by rw [← start]
      obtain ⟨_, buf, held, len, passed⟩ := sized 0 2 _ _ bundle (.inl (by decide)) rate' 1 1 2 _ ran
      exact ⟨_, buf, ran, held, len,
        (passed (.quiet 2 1) ⟨2, 0, 0, 0, 0, 1⟩ 0 rfl rfl).mpr fun _ => by rw [len]; decide⟩
  · obtain ⟨buf, held⟩ := Option.isSome_iff_exists.mp waits
    refine ⟨buf, held, fun turned => ?_⟩
    have slow := ((gate c reach 0 buf held (.quiet 2 1) ⟨2, 0, 0, 0, 0, 1⟩ 2 0 rfl
      (.inl (by decide))).mp turned).1
    exact absurd slow (by decide)

def oneFrame (n : Nat) : List (Move Board) :=
  .start 1 (.tx (List.replicate n 0) ⟨2, 0, 0, 0, 0, 1⟩) :: List.replicate 5 (.resume 1)

theorem bundles_fail_gate :
    (∃ c : Threads Board, playAll (oneFrame 700) (started halowAckConfigSetDefault (.quiet 0 1)) =
        some c ∧ Reachable c ∧ (c.threads 1).isNone = true ∧
      accepted 1 0 c.body.trace = [List.replicate 700 0] ∧
      effAggBytes c.body 0 = 700 ∧ (c.body.peers 0).txMcs = 0 ∧
      c.body.plat.air.map (fun f => (f.mcs, f.payload.length)) = [(1, 708)] ∧
      c.body.plat.dbg.txMcsBump = 1) ∧
    ∃ c : Threads Board, playAll (oneFrame 2393) (started halowAckConfigSetDefault (.quiet 10 1)) =
        some c ∧ Reachable c ∧ (c.threads 1).isNone = true ∧
      accepted 1 0 c.body.trace = [List.replicate 2393 0] ∧
      (c.body.peers 0).txMcs = 10 ∧ c.body.plat.air = [] ∧
      c.body.plat.dbg.txDropAlloc = 1 :=
  ⟨played (by decide +kernel), played (by decide +kernel)⟩

end RnodeHalow.Ack
