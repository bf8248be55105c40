import RnodeHalow.Ack.Accounting
import RnodeHalow.Ack.Conduct

set_option autoImplicit false

namespace RnodeHalow.Ack

open Resumption

variable {ρ : Type} [Platform ρ] {α : Type}

-- Nothing was put in flight between the two histories.
abbrev NoEntry := Grown fun e => ∀ j, e ≠ .txStamped j

abbrev entryless : Frame (Body ρ) := growth fun e => ∀ j, e ≠ .txStamped j

theorem calm_enters_none (e : Event) (calm : e.calm = true) (j : BufIx) : e ≠ .txStamped j := by
  rintro rfl
  cases calm

theorem plain_enters_none (e : Event) (plain : e.plain = true) (j : BufIx) : e ≠ .txStamped j := by
  rintro rfl
  cases plain

theorem CalmSec.entryless {m : Code ρ α} (calm : CalmSec m) : entryless.Around m :=
  calm.growth calm_enters_none

theorem StillSec.entryless {m : Code ρ α} (still : StillSec m) : entryless.Around m :=
  still.calm.entryless

theorem entryless_lax : Lax (entryless : Frame (Body ρ)) := growth_lax plain_enters_none

theorem born_entryless (j : BufIx) : entryless.Around (emit (.born j) : Code ρ Unit) :=
  growth_emit fun _ => Event.noConfusion

theorem retransmitPrep_entryless (j : BufIx) (now : Jiffy) :
    entryless.Around (retransmitPrep j now : Code ρ (Option Byte)) :=
  entryless_lax.retransmitPrep j
    (fun j => entryless_lax.bufRelease j (growth_platform _)) now
    (fun i => (raOnDrop_calm i).entryless) (fun _ => growth_emit fun _ => Event.noConfusion)
    (entryless_lax.modifyBuf j _) cwndOnRetransTimeout_still.entryless
    fun i => (raOnRetrans_still i).entryless

-- Counter, windows and the states of the slots are as they were.
def even : Frame (Body ρ) where
  rel b b' := b'.inflightN = b.inflightN ∧ b'.cwnd = b.cwnd ∧ b'.window = b.window ∧
    ∀ k, (b'.bufs k).map (·.state) = (b.bufs k).map (·.state)
  refl _ := ⟨rfl, rfl, rfl, fun _ => rfl⟩
  trans first second := ⟨second.1.trans first.1, second.2.1.trans first.2.1,
    second.2.2.1.trans first.2.2.1, fun k => (second.2.2.2 k).trans (first.2.2.2 k)⟩

theorem emit_even (e : Event) : even.Around (emit e : Code ρ Unit) :=
  fun _ _ => ⟨rfl, rfl, rfl, fun _ => rfl⟩

theorem nowJ_even : even.Around (nowJ : Code ρ Jiffy) := fun _ _ => ⟨rfl, rfl, rfl, fun _ => rfl⟩

omit [Platform ρ] in
theorem modifyPeer_even (i : PeerIx) (f : AckPeer → AckPeer) :
    even.Around (modifyPeer i f : Code ρ Unit) := fun _ _ => ⟨rfl, rfl, rfl, fun _ => rfl⟩

omit [Platform ρ] in
theorem modifyBuf_even (j : BufIx) {f : AckBuf → AckBuf} (same : ∀ buf, (f buf).state = buf.state) :
    even.Around (modifyBuf j f : Code ρ Unit) := by
  refine fun _ b => ⟨rfl, rfl, rfl, fun k => ?_⟩
  by_cases here : k = j
  · subst here
    cases held : b.bufs k <;> simp [modifyBuf, held, same]
  · simp [modifyBuf, Function.update_of_ne here]

theorem bufWrite_even (j : BufIx) (ofs : Nat) (bytes : List Byte) :
    even.Around (bufWrite j ofs bytes : Code ρ Unit) := by
  refine .bind (.read _) fun held => ?_
  cases held with
  | none => exact emit_even _
  | some buf => exact .ite (emit_even _) (modifyBuf_even j fun _ => rfl)

theorem peerNoteTx_even (i : PeerIx) (wireBytes : Nat) :
    even.Around (peerNoteTx i wireBytes : Code ρ Unit) :=
  .bind (fun _ _ => ⟨rfl, rfl, rfl, fun _ => rfl⟩) fun _ => modifyPeer_even i _

theorem aggSealNow_even (i : PeerIx) (j : BufIx) :
    even.Around (aggSealNow i j : Code ρ FlushStart) := by
  refine .bind (.read _) fun p => .bind (modifyPeer_even i _) fun _ => .bind nowJ_even fun now => ?_
  refine .bind (emit_even _) fun _ => .bind nowJ_even fun born => .bind (emit_even _) fun _ => ?_
  refine .bind (modifyPeer_even i _) fun _ => .bind (bufWrite_even j _ _) fun _ => ?_
  refine .bind (modifyBuf_even j fun _ => rfl) fun _ => .bind (peerNoteTx_even i _) fun _ => ?_
  refine .bind (fun _ _ => ⟨rfl, rfl, rfl, fun _ => rfl⟩) fun _ => .bind (.read _) fun data => ?_
  exact .bind (emit_even _) fun _ => .pure _

theorem effWindow_min (b : Body ρ) : effWindow b = min b.cwnd b.window := effWindow_le (core b)

variable {t : Nat} {i : PeerIx} {j : BufIx} {b : Body ρ} {payload : List Byte} {dest : Mac}

theorem aggSeal_cases (i : PeerIx) (t : Nat) (b : Body ρ) :
    NoEntry b.trace (aggSeal i t b).2.trace ∧ (∀ j pmcs, (aggSeal i t b).1 ≠ .sealed j pmcs) ∨
      (∃ j pmcs, (aggSeal i t b).1 = .sealed j pmcs) ∧ b.inflightN < min b.cwnd b.window ∧
        even.rel b (aggSeal i t b).2 := by
  rw [aggSeal, Sec.bind_apply]
  cases (Sec.read (fun b : Body ρ => (b.peers i).aggIdx) t b).1 with
  | none => exact .inl ⟨.refl _, fun _ _ => FlushStart.noConfusion⟩
  | some j =>
    have looked := entryless_lax.vacancy t b
    dsimp only
    rw [Sec.bind_apply, Sec.ite_apply]
    split
    · exact .inl ⟨looked, fun _ _ => FlushStart.noConfusion⟩
    rw [Sec.bind_apply, Sec.bind_apply, Sec.ite_apply]
    split
    · exact .inl ⟨looked, fun _ _ => FlushStart.noConfusion⟩
    · rename_i room
      have same : even.rel b (halowGetTxVacancy t b).2 := ⟨rfl, rfl, rfl, fun _ => rfl⟩
      refine .inr ⟨⟨j, _, rfl⟩, ?_, even.trans same (aggSealNow_even i j t _)⟩
      rw [← effWindow_min]
      exact Nat.lt_of_not_le room

-- What a claim leaves: one more in flight, the windows as they were, slot `j` in flight.
structure Occupied (b : Body ρ) (j : BufIx) (b' : Body ρ) : Prop where
  one : b'.inflightN = b.inflightN + 1
  cwnd : b'.cwnd = b.cwnd
  window : b'.window = b.window
  state : (b'.bufs j).map (·.state) = some .inflight

omit [Platform ρ] in
theorem Occupied.even {b b' b'' : Body ρ} {j : BufIx} (claimed : Occupied b j b')
    (same : even.rel b' b'') : Occupied b j b'' :=
  ⟨same.1.trans claimed.one, same.2.1.trans claimed.cwnd, same.2.2.1.trans claimed.window,
    (same.2.2.2 j).trans claimed.state⟩

theorem bufAlloc_cases (mac : Mac) (cap t : Nat) (b : Body ρ) :
    (bufAlloc .inflight mac cap t b).1 = none ∨
      ∃ j, (bufAlloc .inflight mac cap t b).1 = some j ∧
        Occupied b j (bufAlloc .inflight mac cap t b).2 := by
  rw [bufAlloc, Sec.bind_apply]
  cases (Sec.read freeSlot t b).1 with
  | none => exact .inl rfl
  | some j =>
    dsimp only
    rw [Sec.bind_apply]
    cases (platform (Platform.osMalloc (bufAllocSz cap)) t (Sec.read freeSlot t b).2).1 with
    | none => exact .inl rfl
    | some blk => exact .inr ⟨j, rfl, rfl, rfl, rfl, by simp [freshBuf, emit]⟩

theorem plainClaim_cases (i : PeerIx) (payload : List Byte) (dest : Mac) (t : Nat) (b : Body ρ) :
    NoEntry b.trace (plainClaim i payload dest t b).2.trace ∧
        (plainClaim i payload dest t b).1 = none ∨
      ∃ j, (plainClaim i payload dest t b).1 = some j ∧ b.inflightN < min b.cwnd b.window ∧
        Occupied b j (plainClaim i payload dest t b).2 := by
  have looked := entryless_lax.vacancy t b
  have same : even.rel b (halowGetTxVacancy t b).2 := ⟨rfl, rfl, rfl, fun _ => rfl⟩
  rw [plainClaim, Sec.bind_apply, Sec.ite_apply]
  split
  · exact .inl ⟨looked, rfl⟩
  rw [Sec.bind_apply, bufClaimInflight, Sec.bind_apply, Sec.bind_apply, Sec.ite_apply]
  split
  · exact .inl ⟨looked, rfl⟩
  · rename_i room
    have alloc := entryless_lax.bufAlloc born_entryless .inflight dest payload.length t
      (halowGetTxVacancy t b).2
    rcases bufAlloc_cases dest payload.length t (halowGetTxVacancy t b).2 with none | ⟨j, took, claimed⟩
    · dsimp only [Sec.read_apply]
      rw [none]
      exact .inl ⟨entryless.trans looked alloc, rfl⟩
    · dsimp only [Sec.read_apply]
      rw [took]
      have rest : even.Around (do
          let now ← nowJ
          emit (.txStamped j)
          bufWrite j 0 payload
          modifyBuf j fun buf =>
            { buf with txJiff := now, ofs := 0, len := payload.length, fid := frameFid payload }
          peerNoteTx i payload.length
          pure (some j) : Code ρ (Option BufIx)) := by
        refine .bind nowJ_even fun now => .bind (emit_even _) fun _ => ?_
        refine .bind (bufWrite_even j 0 payload) fun _ => .bind (modifyBuf_even j fun _ => rfl) ?_
        exact fun _ => .bind (peerNoteTx_even i _) fun _ => .pure _
      refine .inr ⟨j, rfl, ?_, ?_⟩
      · rw [← effWindow_min]
        exact Nat.lt_of_not_le room
      · have begun : Occupied b j (bufAlloc .inflight dest payload.length t (halowGetTxVacancy t b).2).2 :=
          ⟨claimed.one, claimed.cwnd, claimed.window, claimed.state⟩
        exact begun.even (rest t _)

theorem markSending_rises (j : BufIx) (t : Nat) (b : Body ρ) :
    (markSending j t b).2.cwnd = b.cwnd ∧ (markSending j t b).2.window = b.window ∧
      (markSending j t b).2.inflightN ≤ b.inflightN + 1 ∧
      ((b.bufs j).map (·.state) = some .inflight → (markSending j t b).2.inflightN = b.inflightN) := by
  rw [markSending, Sec.bind_apply]
  cases held : b.bufs j with
  | none =>
    simp only [Sec.read_apply, held]
    exact ⟨rfl, rfl, Nat.le_succ _, fun _ => rfl⟩
  | some buf =>
    simp only [Sec.read_apply, held, Sec.bind_apply, Sec.self_apply, Sec.modify_apply,
      Option.map_some, Option.some.injEq]
    refine ⟨trivial, trivial, ?_, fun inflight => ?_⟩
    · split <;> omega
    · rw [inflight, if_neg (by decide)]

-- `m` is the state inside the block in which the window is looked at.
structure Enters (b b' : Body ρ) (m : Body ρ) (t : Nat) (j : BufIx) : Prop where
  before : NoEntry b.trace m.trace
  room : m.inflightN < min m.cwnd m.window
  claimed : (∃ i pmcs, (aggSeal i t m).1 = .sealed j pmcs ∧
      b' = (markSending j t (aggSeal i t m).2).2) ∨
    ∃ i payload dest, (plainClaim i payload dest t m).1 = some j ∧
      b' = (markSending j t (plainClaim i payload dest t m).2).2
  one : b'.inflightN ≤ m.inflightN + 1
  kept : b'.cwnd = m.cwnd ∧ b'.window = m.window

def entering : Phases Bool (Body ρ) where
  idle := false
  rel _ _ b q b' := NoEntry b.trace b'.trace ∨ q = true ∧ ∃ m t j, Enters b b' m t j
  refl _ b := .inl (.refl b.trace)
  trans first second := by
    rcases first with first | ⟨⟨⟩, -⟩
    rcases second with second | ⟨sends, m, t, j, enters⟩
    · exact .inl (first.trans second)
    · exact .inr ⟨sends, m, t, j, { enters with before := first.trans enters.before }⟩

theorem entryless_entering {m : Code ρ α} (around : entryless.Around m) (t : Nat) :
    (entering.quiet t).Around m := fun u b => .inl (around u b)

theorem entering_blocks : Blocks (fun _ => True) (entering : Phases Bool (Body ρ)) fun _ => true where
  lax _ := entryless_lax.mono .inl
  platform t _ _ _ := entryless_entering (growth_platform _) t
  air t data dest mcs tid := entryless_entering (halowTxP_still data dest mcs tid).entryless t
  due t i _ _ := entryless_entering (growth_modifyPeer i _) t
  refresh := entryless_entering dfltMcsRefresh_still.entryless
  handlers _ := (growth_handlers calm_enters_none plain_enters_none).mono .inl
  stage t i len dest effPayload :=
    entryless_entering (entryless_lax.stageOpen i dest born_entryless len effPayload) t
  blocked t i b none := by
    rcases aggSeal_cases i t b with ⟨quiet, -⟩ | ⟨⟨j, pmcs, sealed⟩, -⟩
    · exact .inl quiet
    · exact absurd sealed (none j pmcs)
  refused t i payload dest b _ none := by
    rcases plainClaim_cases i payload dest t b with ⟨quiet, -⟩ | ⟨j, some, -⟩
    · exact .inl quiet
    · cases none.symm.trans some
  install t _ _ := entryless_entering (growth_install calm_enters_none plain_enters_none _) t
  launch t i b j pmcs sealed := by
    rcases aggSeal_cases i t b with ⟨-, none⟩ | ⟨-, room, same⟩
    · exact absurd sealed (none j pmcs)
    obtain ⟨cwnd, window, one, -⟩ := markSending_rises j t (aggSeal i t b).2
    refine .inr ⟨rfl, b, t, j, .refl _, room, .inl ⟨i, pmcs, sealed, rfl⟩, ?_, ?_⟩
    · rw [← same.1]
      exact one
    · exact ⟨cwnd.trans same.2.1, window.trans same.2.2.1⟩
  claim t i payload dest b j _ some := by
    rcases plainClaim_cases i payload dest t b with ⟨-, none⟩ | ⟨k, took, room, claimed⟩
    · cases none.symm.trans some
    cases took.symm.trans some
    obtain ⟨cwnd, window, -, same⟩ := markSending_rises j t (plainClaim i payload dest t b).2
    refine .inr ⟨rfl, b, t, j, .refl _, room, .inr ⟨i, payload, dest, some, rfl⟩, ?_, ?_⟩
    · rw [same claimed.state, claimed.one]
    · exact ⟨cwnd.trans claimed.cwnd, window.trans claimed.window⟩
  again t j now b _ _ :=
    .inl (entryless.trans (retransmitPrep_entryless j now t b) (entryless_lax.markSending j t _))
  spent t j now b _ := .inl (retransmitPrep_entryless j now t b)
  fire t j pmcs b := .inl (entryless_lax.sendOut j (growth_emit fun _ => Event.noConfusion)
    (fun data dest mcs tid => (halowTxP_still data dest mcs tid).entryless) pmcs t b)

theorem Reachable.enters {c c' : Threads ρ} (h : Reachable c)
    (step : Pool.Step (lockedMachine drift) allowed c c') :
    NoEntry c.body.trace c'.body.trace ∨
      ∃ m t j, Enters c.body c'.body m t j := by
  cases step with
  | call t p may free => exact .inl (.refl _)
  | resume t w waiting ok =>
    obtain ⟨phase, attends, -⟩ := Pool.Reachable.phased (R := entering) (J := fun _ _ => True)
      (fun t p may => by
        obtain ⟨call, rfl, -⟩ := may
        exact entering_blocks.call call trivial) (fun _ _ => trivial)
      (fun _ _ _ _ _ _ => trivial) (fun _ _ _ _ _ => trivial) h
    obtain ⟨q, moved, -⟩ := attends.resumed waiting ok
    exact moved.imp_right fun entered => entered.2
  | drift s' drifted =>
    obtain ⟨b, ⟨r, -, rfl⟩, rfl⟩ := drifted
    exact .inl (.refl _)

theorem Grown.inflightIn_le {older trace : History} (none : NoEntry older trace) :
    inflightIn trace ≤ inflightIn older := by
  obtain ⟨news, rfl, others⟩ := none
  induction news with
  | nil => exact Nat.le_refl _
  | cons e news ih =>
    have tail := ih fun x member => others x (List.mem_cons_of_mem e member)
    have head : inflightIn (e :: (news ++ older)) ≤ inflightIn (news ++ older) := by
      obtain ⟨τ, e⟩ := e
      cases e with
      | txStamped j => exact absurd rfl (others _ List.mem_cons_self j)
      | landed => exact Nat.sub_le _ _
      | _ => exact Nat.le_refl _
    exact Nat.le_trans head tail

theorem window_discipline (c : Threads ρ) (h : Reachable c) :
    WindowOk (core c.body) ∧
    c.body.inflightN = inflightIn c.body.trace ∧
    (∀ c' : Threads ρ, Pool.Step (lockedMachine drift) allowed c c' →
      NoEntry c.body.trace c'.body.trace ∧
          c'.body.inflightN ≤ c.body.inflightN ∨
        ∃ m t j, Enters c.body c'.body m t j) ∧
    c.body.inflightN ≤ peakWindow c.body.trace := by
  refine ⟨h.inv.windowOk, h.paced.inflight.symm, fun c' step => ?_, h.paced.inflight_le⟩
  have later : Reachable c' := h.step step
  refine (h.enters step).imp_left fun none => ⟨none, ?_⟩
  rw [← later.paced.inflight, ← h.paced.inflight]
  exact none.inflightIn_le

def beforeSeal : List (Move Board) :=
  [.start 1 (.tx [1, 2, 3] ⟨2, 0, 0, 0, 0, 1⟩), .resume 1, .resume 1, .resume 1,
    .start 1 .flush, .resume 1]

theorem window_discipline_seal : ∃ c c' : Threads Board,
    playAll beforeSeal quietNode = some c ∧
      (Move.resume 1).play c = some c' ∧
      c.body.inflightN = 0 ∧ c'.body.inflightN = 1 ∧
      ∃ m t j, Enters c.body c'.body m t j := by
  have run : ∃ c ∈ playAll beforeSeal quietNode, c.body.inflightN = 0 ∧
      ∃ c' ∈ (Move.resume 1).play c, c'.body.inflightN = 1 := by
    decide +kernel
  obtain ⟨c, script, reach, before, c', moved, after⟩ := played run
  refine ⟨c, c', script, moved, before, after, ?_⟩
  obtain ⟨-, -, steps, -⟩ := window_discipline c reach
  refine (steps c' (Move.play_step (m := .resume 1) trivial moved)).resolve_left fun none => ?_
  omega

end RnodeHalow.Ack
