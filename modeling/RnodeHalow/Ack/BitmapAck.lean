import RnodeHalow.Ack.Bundling
import RnodeHalow.Ack.Deferred
import RnodeHalow.Ack.Window

set_option autoImplicit false

namespace RnodeHalow.Ack

open Resumption Serial
open Function (update update_of_ne)

variable {ρ : Type} [Platform ρ]

theorem envAckFrame_isEnvAck (evm : Byte) (base : BitVec 16) (bm : BitVec 64) :
    isEnvAck (envAckFrame evm base bm) = true := by
  have header : halowEnvVer (envAckFrame evm base bm) = envVer ∧
      halowEnvType (envAckFrame evm base bm) = envTypeAck := by
    have byte : byteAt (envAckFrame evm base bm) 2 = BitVec.ofNat 8 (envVer <<< 4 ||| envTypeAck) :=
      rfl
    rw [halowEnvVer, halowEnvType, byte]
    decide
  simp [isEnvAck, header]
  rfl

theorem le16_envAckFrame (evm : Byte) (base : BitVec 16) (bm : BitVec 64) :
    le16 (envAckFrame evm base bm) 4 = base := le16_lo_hi base

theorem byteAt_envAckFrame (evm : Byte) (base : BitVec 16) (bm : BitVec 64) {k : Nat}
    (bound : k < 8) : byteAt (envAckFrame evm base bm) (6 + k) = (bm >>> (8 * k)).setWidth 8 := by
  have inside : (List.range 8)[k]? = some k := List.getElem?_range bound
  have right : 6 ≤ 6 + k := Nat.le_add_right 6 k
  rw [byteAt, List.getD_eq_getElem?_getD, envAckFrame, List.getElem?_append_right right]
  simp [inside]

theorem ackBitmap_envAckFrame (evm : Byte) (base : BitVec 16) (bm : BitVec 64) :
    ackBitmap (envAckFrame evm base bm) = bm := by
  apply BitVec.eq_of_getLsbD_eq
  intro i bound
  have byte := byteAt_envAckFrame evm base bm (show i / 8 < 8 by omega)
  unfold ackBitmap
  rw [getLsbD_bytes (fun k => byteAt (envAckFrame evm base bm) (6 + k)) bound, byte,
    BitVec.getLsbD_setWidth, BitVec.getLsbD_ushiftRight, Nat.div_add_mod]
  have low : i % 8 < 8 := Nat.mod_lt i (by decide)
  simp [low, bound]

theorem distance_mirror (last seq : BitVec 16) :
    (seq - (last - BitVec.ofNat 16 (seqWindow - 1))).toNat < seqWindow ↔
      (last - seq).toNat < seqWindow := by
  simp only [seqWindow]
  bv_omega

theorem distance_sum {last seq : BitVec 16} (near : (last - seq).toNat < seqWindow) :
    63 - (seq - (last - BitVec.ofNat 16 (seqWindow - 1))).toNat = (last - seq).toNat := by
  simp only [seqWindow] at near ⊢
  bv_omega

theorem envAckCovers_capture {p : AckPeer} {buf : AckBuf} :
    envAckCovers (p.rxSeqLast - BitVec.ofNat 16 (seqWindow - 1)) (envAckBitmap p.rxSeqWin) buf =
        true ↔
      buf.seq ≠ 0xFFFF#16 ∧ (p.rxSeqLast - buf.seq).toNat < 64 ∧
        p.rxSeqWin.getLsbD (p.rxSeqLast - buf.seq).toNat = true := by
  simp only [envAckCovers, Bool.and_eq_true, decide_eq_true_eq, and_assoc]
  refine and_congr_right fun _ => ?_
  rw [distance_mirror]
  refine and_congr_right fun near => ?_
  have inside := (distance_mirror p.rxSeqLast buf.seq).mpr near
  refine (and_one_ne_zero_iff (envAckBitmap p.rxSeqWin) _).trans ?_
  rw [getLsbD_envAckBitmap _ inside, distance_sum near]

def Acked (mac : Mac) (base : BitVec 16) (bm : BitVec 64) : Option AckBuf → Prop
  | none => False
  | some buf => buf.state = .inflight ∧ buf.destMac = mac ∧ envAckCovers base bm buf = true

instance (mac : Mac) (base : BitVec 16) (bm : BitVec 64) (slot : Option AckBuf) :
    Decidable (Acked mac base bm slot) :=
  match slot with
  | none => inferInstanceAs (Decidable False)
  | some buf => inferInstanceAs (Decidable (buf.state = .inflight ∧ buf.destMac = mac ∧
      envAckCovers base bm buf = true))

theorem bufAcked_frees {t : Nat} {c : Core} {j : BufIx} {buf : AckBuf}
    (held : c.bufs j = some buf) (idx : buf.idx = j) :
    Does (bufAcked j buf : Code ρ Unit) t c fun _ c' =>
      c'.bufs = update c.bufs j none ∧ ∀ i, (c'.peers i).mac = (c.peers i).mac := by
  refine Does.seq (Does.still nowJ_still fun now c1 one => ?_)
  refine Does.seq (Does.still nowJ_still fun later c2 two => ?_)
  refine Does.seq (Does.mono (rttRecord_does _ _) ?_)
  rintro _ _ ⟨n, rfl⟩
  refine Does.seq (Does.still (.when cwndOnCleanClear_still) fun _ c4 four => ?_)
  have bufs : c4.bufs = c.bufs := four.bufs.trans (two.bufs.trans one.bufs)
  have macs (i : PeerIx) : (c4.peers i).mac = (c.peers i).mac :=
    (four.peers i).mac.trans ((two.peers i).mac.trans (one.peers i).mac)
  have held4 : c4.bufs j = some buf := by rw [bufs]; exact held
  refine Does.seq (emit_does _ (Does.seq (bufRelease_does held4 idx fun n le => ?_)))
  refine modifyStats_does (·.land .acked) (fun _ => rfl) ⟨?_, macs⟩
  simp [Core.free, Core.note, bufs]

def ackSlot (i : PeerIx) (base : BitVec 16) (bm : BitVec 64) (j : BufIx) : Code ρ Unit := do
  let p ← Sec.read (·.peers i)
  match ← Sec.read (·.bufs j) with
  | none => pure ()
  | some buf =>
    Sec.when (buf.state = .inflight ∧ macEq buf.destMac p.mac = true ∧
        envAckCovers base bm buf = true) do
      bufAcked j buf
      modifyPeer i fun p => { p with acked := p.acked + 1 }

def Seated (bufs : BufIx → Option AckBuf) : Prop := ∀ j buf, bufs j = some buf → buf.idx = j

variable {i : PeerIx} {mac : Mac} {base : BitVec 16} {bm : BitVec 64}

theorem ackSlot_does {t : Nat} {c : Core} (j : BufIx) (named : (c.peers i).mac = mac)
    (seated : Seated c.bufs) :
    Does (ackSlot i base bm j : Code ρ Unit) t c fun _ c' =>
      (c'.peers i).mac = mac ∧
        c'.bufs = if Acked mac base bm (c.bufs j) then update c.bufs j none
          else c.bufs := by
  refine Does.get (fun c => c.peers i) (fun _ => rfl) ?_
  refine Does.get (fun c => c.bufs j) (fun _ => rfl) ?_
  cases held : c.bufs j with
  | none => exact Does.pure _ ⟨named, by simp [Acked]⟩
  | some buf =>
    have same : (buf.state = .inflight ∧ macEq buf.destMac (c.peers i).mac = true ∧
        envAckCovers base bm buf = true) ↔ Acked mac base bm (some buf) := by
      rw [named, macEq_iff]
      rfl
    dsimp only [Sec.when]
    by_cases hit : Acked mac base bm (some buf)
    · rw [if_pos (same.mpr hit), if_pos hit]
      refine Does.seq (Does.mono (bufAcked_frees held (seated j buf held)) fun _ c1 freed => ?_)
      refine modifyPeer_does ⟨?_, freed.1⟩
      simp [Core.setPeer, freed.2, named]
    · rw [if_neg fun met => hit (same.mp met), if_neg hit]
      exact Does.pure _ ⟨named, rfl⟩

theorem Seated.update {bufs : BufIx → Option AckBuf} (seated : Seated bufs) (j : BufIx) :
    Seated (update bufs j none) := by
  intro k buf held
  by_cases same : k = j
  · subst same
    simp at held
  · rw [update_of_ne same] at held
    exact seated k buf held

theorem ackScan_does {t : Nat} {c : Core} (slots : List BufIx) (named : (c.peers i).mac = mac)
    (seated : Seated c.bufs) :
    Does (Sec.forEach slots (ackSlot i base bm) : Code ρ Unit) t c fun _ c' =>
      ∀ k, c'.bufs k = if k ∈ slots ∧ Acked mac base bm (c.bufs k) then none else c.bufs k := by
  induction slots generalizing c with
  | nil => exact Does.pure _ fun k => by simp
  | cons j rest ih =>
    refine Does.seq (Does.mono (ackSlot_does j named seated) ?_)
    rintro _ c1 ⟨named1, bufs1⟩
    have seated1 : Seated c1.bufs := by
      rw [bufs1]
      split
      · exact seated.update j
      · exact seated
    refine Does.mono (ih named1 seated1) fun _ c2 scanned k => ?_
    rw [scanned k, bufs1]
    by_cases same : k = j
    · subst same
      by_cases hit : Acked mac base bm (c.bufs k)
      · simp [hit]
      · simp [hit]
    · split
      · simp [same]
      · simp [same]

def AckBuf.undated (buf : AckBuf) : AckBuf := { buf with txJiff := 0 }

theorem undated_eq {x y : AckBuf} (same : x.undated = y.undated) :
    x.state = y.state ∧ x.destMac = y.destMac ∧ x.seq = y.seq ∧ x.idx = y.idx := by
  cases x
  cases y
  simp_all [AckBuf.undated]

theorem Calms.undated {c c' : Core} (calms : Calms c c') (j : BufIx) :
    (c'.bufs j).map AckBuf.undated = (c.bufs j).map AckBuf.undated := by
  induction calms with
  | refl => rfl
  | tail _ calm ih =>
    rw [← ih]
    cases calm with
    | kick k buf due held inflight =>
      by_cases same : j = k
      · subst same
        simp [Core.note, Core.setBuf, held, AckBuf.undated]
      · simp [Core.note, Core.setBuf, update_of_ne same]
    | _ => rfl

theorem raOnAck_spares (i : PeerIx) : sparing.Around (raOnAck i : Code ρ Unit) :=
  sparing_tunes.raOnAck i (fun _ => modifyPeer_spares i fun _ => rfl) (raDownStep_spares i)
    (raUpStep_still i).spares

theorem ackNotePeer_spares (i : PeerIx) (ackEvm : Byte) :
    sparing.Around (ackNotePeer i ackEvm : Code ρ Unit) := by
  refine .bind (.read _) fun maxRetries => ?_
  exact .bind (modifyPeer_spares i fun _ => rfl) fun _ => raOnAck_spares i

theorem ackNotePeer_does {t : Nat} {c : Core} (i : PeerIx) (ackEvm : Byte) :
    Does (ackNotePeer i ackEvm : Code ρ Unit) t c fun _ c' =>
      (c'.peers i).mac = (c.peers i).mac ∧
        ∀ j, (c'.bufs j).map AckBuf.undated = (c.bufs j).map AckBuf.undated := by
  rintro b rfl
  have debt := (ackNotePeer_spares i ackEvm t b).debt i
  refine ⟨congrArg (fun d => d.2.1) debt, ?_⟩
  exact (ackNotePeer_calm i ackEvm t b).undated

theorem Acked.undated {x y : Option AckBuf} (same : y.map AckBuf.undated = x.map AckBuf.undated) :
    Acked mac base bm y ↔ Acked mac base bm x := by
  cases x with
  | none =>
    rw [Option.map_eq_none_iff.mp same]
  | some buf =>
    obtain ⟨buf', rfl, eq⟩ := Option.map_eq_some_iff.mp same
    obtain ⟨state, dest, seq, _⟩ := undated_eq eq
    simp only [Acked, envAckCovers, state, dest, seq]

theorem Seated.undated {bufs bufs' : BufIx → Option AckBuf} (seated : Seated bufs)
    (same : ∀ j, (bufs' j).map AckBuf.undated = (bufs j).map AckBuf.undated) : Seated bufs' := by
  intro j buf' held
  have here := same j
  rw [held] at here
  obtain ⟨buf, there, eq⟩ := Option.map_eq_some_iff.mp here.symm
  rw [← (undated_eq eq).2.2.2]
  exact seated j buf there

def Released (mac : Mac) (base : BitVec 16) (bm : BitVec 64) (bufs bufs' : BufIx → Option AckBuf) :
    Prop :=
  ∀ j, (bufs' j).map AckBuf.undated =
    if Acked mac base bm (bufs j) then none else (bufs j).map AckBuf.undated

theorem rxEnvAckLocked_does {t : Nat} {c : Core} (payload : List Byte)
    (named : (c.peers i).mac = mac) (seated : Seated c.bufs) :
    Does (rxEnvAckLocked i payload : Code ρ Unit) t c fun _ c' =>
      Released mac (le16 payload 4) (ackBitmap payload) c.bufs c'.bufs := by
  refine Does.seq (Does.still (modifyStats_still fun _ => rfl) fun _ c1 still => ?_)
  refine Does.seq (Does.mono (ackNotePeer_does i _) ?_)
  rintro _ c2 ⟨mac2, same⟩
  rw [still.bufs] at same
  have named2 : (c2.peers i).mac = mac := mac2.trans ((still.peers i).mac.trans named)
  refine Does.mono (ackScan_does allBufs named2 (seated.undated same)) fun _ c3 scanned j => ?_
  have all : j ∈ allBufs := List.mem_finRange j
  rw [scanned j, ← same j]
  by_cases hit : Acked mac (le16 payload 4) (ackBitmap payload) (c2.bufs j)
  · simp [all, hit, (Acked.undated (same j)).mp hit]
  · simp [hit, mt (Acked.undated (same j)).mpr hit]

theorem Released.freed {bufs bufs' : BufIx → Option AckBuf}
    (released : Released mac base bm bufs bufs') (j : BufIx) :
    (bufs j ≠ none ∧ bufs' j = none) ↔ Acked mac base bm (bufs j) := by
  have here := released j
  by_cases hit : Acked mac base bm (bufs j)
  · rw [if_pos hit, Option.map_eq_none_iff] at here
    refine iff_of_true ⟨?_, here⟩ hit
    intro none
    rw [none] at hit
    exact hit
  · rw [if_neg hit] at here
    refine iff_of_false ?_ hit
    rintro ⟨held, none⟩
    rw [none, Option.map_none, eq_comm, Option.map_eq_none_iff] at here
    exact held here

theorem Released.kept {bufs bufs' : BufIx → Option AckBuf}
    (released : Released mac base bm bufs bufs') {j : BufIx} {buf' : AckBuf}
    (held : bufs' j = some buf') :
    ∃ buf, bufs j = some buf ∧ buf'.undated = buf.undated := by
  have here := released j
  rw [held] at here
  split at here
  · cases here
  · obtain ⟨buf, there, eq⟩ := Option.map_eq_some_iff.mp here.symm
    exact ⟨buf, there, eq.symm⟩

theorem rxEnv_released {s : Node ρ} (free : s.owner = none) (seated : Seated s.body.bufs)
    {src : Mac} {i : PeerIx} (found : peerFind s.body src = some i) (evm : Byte)
    (base : BitVec 16) (bm : BitVec 64) :
    Alone (rxEnv (envAckFrame evm base bm) src) s fun r s' => r = true ∧
      Released src base bm s.body.bufs s'.body.bufs := by
  have named : ((core s.body).peers i).mac = src := (peerFind_some found).2
  unfold rxEnv
  rw [if_pos (envAckFrame_isEnvAck evm base bm)]
  refine Alone.locked (n := s.misuse) ⟨free, rfl⟩ fun s' _ _ body => .pure true ⟨rfl, ?_⟩
  have scanned := rxEnvAckLocked_does (ρ := ρ) (t := s.active) (envAckFrame evm base bm) named
    seated s.body rfl
  rw [le16_envAckFrame, ackBitmap_envAckFrame] at scanned
  have ran : s'.body = (rxEnvAckLocked i (envAckFrame evm base bm) s.active s.body).2 := by
    rw [body]
    simp [found, Sec.ifSome]
  rw [ran]
  exact scanned

theorem bitmap_ack_exact (s : Node ρ) (free : s.owner = none) (seated : Seated s.body.bufs)
    (src : Mac) (i : PeerIx) (found : peerFind s.body src = some i) (p : AckPeer)
    (seen : p.rxSeqSeen = true) (evm : Byte) :
    ∃ base bm s', envAckCapture p = some (base, bm) ∧
      (rxEnv (envAckFrame evm base bm) src).run s = some (true, s') ∧
      (∀ j, (s.body.bufs j ≠ none ∧ s'.body.bufs j = none) ↔
        ∃ buf, s.body.bufs j = some buf ∧ buf.state = .inflight ∧ buf.destMac = src ∧
          buf.seq ≠ 0xFFFF#16 ∧ (p.rxSeqLast - buf.seq).toNat < 64 ∧
          p.rxSeqWin.getLsbD (p.rxSeqLast - buf.seq).toNat = true) ∧
      ∀ j buf', s'.body.bufs j = some buf' →
        ∃ buf, s.body.bufs j = some buf ∧ buf'.undated = buf.undated := by
  have capture : envAckCapture p =
      some (p.rxSeqLast - BitVec.ofNat 16 (seqWindow - 1), envAckBitmap p.rxSeqWin) := by
    rw [envAckCapture, if_pos seen]
  let base := p.rxSeqLast - BitVec.ofNat 16 (seqWindow - 1)
  let bm := envAckBitmap p.rxSeqWin
  obtain ⟨r, s', run, rfl, released⟩ := rxEnv_released free seated found evm base bm
  refine ⟨base, bm, s', capture, run, fun j => ?_, fun j buf' held => released.kept held⟩
  rw [released.freed j]
  cases s.body.bufs j with
  | none => simp [Acked]
  | some buf => simp [Acked, base, bm, envAckCovers_capture]

theorem bitmap_ack_exact_threePayloads : ∃ c base bm s',
    playAll threePayloads quietNode = some c ∧
      envAckCapture (openWindow 2 5) = some (base, bm) ∧
      (rxEnv (envAckFrame 0 base bm) ⟨2, 0, 0, 0, 0, 1⟩).run c.shared = some (true, s') ∧
      c.body.bufs 0 ≠ none ∧ s'.body.bufs 0 = none ∧
      c.body.bufs 1 ≠ none ∧ s'.body.bufs 1 ≠ none := by
  have run : ∃ c ∈ playAll threePayloads quietNode,
      c.shared.owner = none ∧ (∀ j, ∀ buf ∈ c.body.bufs j, buf.idx = j) ∧
      peerFind c.body ⟨2, 0, 0, 0, 0, 1⟩ = some 0 ∧
      (∃ buf ∈ c.body.bufs 0, buf.state = .inflight ∧
        buf.destMac = ⟨2, 0, 0, 0, 0, 1⟩ ∧ buf.seq = 0) ∧
      ∃ buf ∈ c.body.bufs 1, buf.state = .staging := by
    decide +kernel
  obtain ⟨c, script, _, free, seated, found, ⟨buf, held, inflight, dest, seq⟩,
    buf₁, (held₁ : _ = _), staging⟩ := played run
  obtain ⟨base, bm, s', capture, ran, freed, -⟩ := bitmap_ack_exact c.shared free seated
    ⟨2, 0, 0, 0, 0, 1⟩ 0 found (openWindow 2 5) rfl 0
  have gone := (freed 0).mpr ⟨buf, held, inflight, dest, by rw [seq]; decide⟩
  refine ⟨c, base, bm, s', script, capture, ran, gone.1, gone.2, by rw [held₁]; simp, ?_⟩
  intro none
  obtain ⟨buf', held', state, _⟩ := (freed 1).mp ⟨by rw [held₁]; simp, none⟩
  rw [held₁] at held'
  cases held'
  rw [staging] at state
  cases state

end RnodeHalow.Ack
