import RnodeHalow.Ack.Backpressure
import RnodeHalow.Ack.Bundling
import RnodeHalow.Radio.Handover

set_option autoImplicit false

namespace RnodeHalow.Ack

open Resumption Radio
open Function (update update_of_ne update_self)

def AckBuf.wire (buf : AckBuf) : List Byte := (buf.data.drop buf.ofs).take buf.len

def AckBuf.payloads (buf : AckBuf) : List (List Byte) :=
  if buf.seq = 0xFFFF#16 then [buf.wire] else unbundle buf.wire

def Owns (c : Core) (i : PeerIx) (j : BufIx) : Prop :=
  (c.peers i).inUse = true ∧ (c.peers i).aggIdx = some j

def Holds (c : Core) (j : BufIx) (payloads : List (List Byte)) : Prop :=
  ∃ buf, c.bufs j = some buf ∧
    (buf.state = .staging ∧ (∃ i, Owns c i j ∧ stagedPayloads i c = payloads) ∨
      buf.state ≠ .staging ∧ buf.payloads = payloads)

-- Every slot holds the payloads it held, and no slot came into use.
structure Kept (c c' : Core) : Prop where
  holds : ∀ j payloads, Holds c' j payloads ↔ Holds c j payloads
  empty : ∀ j, c'.bufs j = none ↔ c.bufs j = none

-- A slot has `payload` behind the payloads it held.
def Gains (c c' : Core) (payload : List Byte) : Prop :=
  ∃ j payloads, (c.bufs j = none ∧ payloads = [] ∨ Holds c j payloads) ∧
    Holds c' j (payloads ++ [payload])

theorem Kept.refl (c : Core) : Kept c c := ⟨fun _ _ => Iff.rfl, fun _ => Iff.rfl⟩

theorem Kept.trans {a b c : Core} (first : Kept a b) (second : Kept b c) : Kept a c :=
  ⟨fun j payloads => (second.holds j payloads).trans (first.holds j payloads),
    fun j => (second.empty j).trans (first.empty j)⟩

variable {payload : List Byte} {c c' : Core} {i : PeerIx} {j : BufIx} {buf : AckBuf}
    {payloads : List (List Byte)} {t : Nat} {b0 : Body Board}

theorem Gains.before {a b c : Core} (kept : Kept a b) (gains : Gains b c payload) :
    Gains a c payload := by
  obtain ⟨j, payloads, was, now⟩ := gains
  refine ⟨j, payloads, ?_, now⟩
  rcases was with ⟨empty, none⟩ | held
  · exact .inl ⟨(kept.empty j).mp empty, none⟩
  · exact .inr ((kept.holds j payloads).mp held)

theorem Gains.after {a b c : Core} (gains : Gains a b payload) (kept : Kept b c) :
    Gains a c payload := by
  obtain ⟨j, payloads, was, now⟩ := gains
  exact ⟨j, payloads, was, (kept.holds j _).mpr now⟩

def AckBuf.content (buf : AckBuf) : Bool × BitVec 16 × Nat × Nat × List Byte :=
  (decide (buf.state = .staging), buf.seq, buf.ofs, buf.len, buf.data)

theorem AckBuf.content_eq {buf buf' : AckBuf} (same : buf'.content = buf.content) :
    (buf'.state = .staging ↔ buf.state = .staging) ∧ buf'.payloads = buf.payloads ∧
      buf'.data = buf.data := by
  simp only [AckBuf.content, Prod.mk.injEq, decide_eq_decide] at same
  obtain ⟨state, seq, ofs, len, data⟩ := same
  exact ⟨state, by simp only [AckBuf.payloads, AckBuf.wire, seq, ofs, len, data], data⟩

theorem stagedPayloads_named (named : (c.peers i).aggIdx = some j) (held : c.bufs j = some buf) :
    stagedPayloads i c =
      subsOf (c.peers i).aggNsub ((buf.data.take (c.peers i).aggLen).drop ackAggReserve) := by
  simp [stagedPayloads, named, held]

theorem Holds.view (holds : Holds c j payloads)
    (slot : (c'.bufs j).map AckBuf.content = (c.bufs j).map AckBuf.content)
    (peers : ∀ i, SamePlace (c.peers i) (c'.peers i) ∨ ¬ Owns c i j) : Holds c' j payloads := by
  obtain ⟨buf, held, how⟩ := holds
  rw [held] at slot
  obtain ⟨buf', held', content⟩ := Option.map_eq_some_iff.mp slot
  obtain ⟨state, same, data⟩ := AckBuf.content_eq content
  refine ⟨buf', held', ?_⟩
  rcases how with ⟨staging, i, owns, eq⟩ | ⟨sent, eq⟩
  · refine .inl ⟨state.mpr staging, i, ?_⟩
    have place := (peers i).resolve_right (not_not_intro owns)
    have named := place.aggIdx.trans owns.2
    refine ⟨⟨place.inUse.trans owns.1, named⟩, ?_⟩
    rw [stagedPayloads_named named held', data, place.aggNsub, place.aggLen]
    rw [stagedPayloads_named owns.2 held] at eq
    exact eq
  · exact .inr ⟨mt state.mp sent, same.trans eq⟩

theorem Kept.view (slots : ∀ j, (c'.bufs j).map AckBuf.content = (c.bufs j).map AckBuf.content)
    (peers : ∀ i j, SamePlace (c.peers i) (c'.peers i) ∨ (¬ Owns c i j ∧ ¬ Owns c' i j)) :
    Kept c c' where
  holds j payloads := by
    constructor
    · intro holds
      exact holds.view (slots j).symm fun i => (peers i j).imp Eq.symm And.right
    · intro holds
      exact holds.view (slots j) fun i => (peers i j).imp_right And.left
  empty j := by
    have same := congrArg Option.isNone (slots j)
    simp only [Option.isNone_map] at same
    rw [← Option.isNone_iff_eq_none, ← Option.isNone_iff_eq_none, same]

theorem Still.kept (still : Still c c') : Kept c c' :=
  .view (fun j => by rw [still.bufs]) fun i _ => .inl (still.peers i)

theorem update_content {buf buf' : AckBuf} (held : c.bufs j = some buf)
    (same : buf'.content = buf.content) (k : BufIx) :
    (update c.bufs j (some buf') k).map AckBuf.content =
      (c.bufs k).map AckBuf.content := by
  by_cases eq : k = j
  · subst eq
    rw [update_self, held, Option.map_some, Option.map_some, same]
  · rw [update_of_ne eq]

theorem update_place {p : AckPeer} (place : SamePlace (c.peers i) p) (k : PeerIx) :
    SamePlace (c.peers k) (update c.peers i p k) := by
  by_cases eq : k = i
  · subst eq
    rw [update_self]
    exact place
  · rw [update_of_ne eq]
    exact .refl _

theorem Calm.kept (inv : Inv c) (move : Calm c c') : Kept c c' := by
  cases move with
  | elapse | air | governor | measured => exact .view (fun _ => rfl) fun _ _ => .inl (.refl _)
  | peer i p place | forget i p mac inUse named place =>
    exact .view (fun _ => rfl) fun k _ => .inl (update_place place k)
  | kick j buf due held inflight =>
    exact .view (update_content held rfl) fun _ _ => .inl (.refl _)
  | opened i p mac fresh new bare =>
    refine .view (fun _ => rfl) fun k j => ?_
    by_cases eq : k = i
    · subst eq
      refine .inr ⟨fun owns => ?_, fun owns => ?_⟩
      · obtain ⟨buf, held, _, dest⟩ := (inv.rep.agg_iff k owns.1 j).mp owns.2
        exact bare owns.1 j buf held dest
      · have idle : p.aggIdx = some j := by
          simpa [Owns, Core.setPeer, Core.note] using owns.2
        rw [fresh.aggIdx] at idle
        cases idle
    · exact .inl (by simp [Core.setPeer, Core.note, update_of_ne eq, SamePlace.refl])

theorem Calms.kept (inv : Inv c) (calms : Calms c c') : Kept c c' := by
  induction calms with
  | refl => exact .refl c
  | tail first move ih => exact ih.trans (move.kept ((Calms.chain (t := 0) first).inv inv))

structure Sound (c : Core) : Prop where
  inv : Inv c
  books : Books (fun _ _ _ => True) c

theorem anyAccount : Account fun _ _ _ => True :=
  ⟨by simp, by simp, by simp, by simp, by simp⟩

theorem Sound.chain (sound : Sound c) (chain : Chain t c c') : Sound c' := by
  induction chain with
  | refl => exact sound
  | tail first move ih => exact ⟨move.inv ih.inv, move.books anyAccount ih.inv ih.books⟩

theorem Sound.staged (sound : Sound c) (owns : Owns c i j) (held : c.bufs j = some buf) :
    StagedAs (c.peers i) buf (stagedPayloads i c) := by
  obtain ⟨payloads, staging, _⟩ := sound.books i owns.1
  rw [staging.payloads]
  obtain ⟨buf', held', staged⟩ := (Staging.some owns.2).mp staging
  rw [held] at held'
  cases held'
  exact staged

theorem Holds.staged_iff (inv : Inv c) (owns : Owns c i j) :
    Holds c j payloads ↔ stagedPayloads i c = payloads := by
  obtain ⟨buf, held, staging, _⟩ := (inv.rep.agg_iff i owns.1 j).mp owns.2
  constructor
  · rintro ⟨buf', held', ⟨_, k, other, eq⟩ | ⟨sent, _⟩⟩
    · rw [inv.rep.apart owns.1 other.1 owns.2 other.2] at eq
      exact eq
    · rw [held] at held'
      cases held'
      exact absurd staging sent
  · intro eq
    exact ⟨buf, held, .inl ⟨staging, i, owns, eq⟩⟩

theorem Holds.sent_iff (held : c.bufs j = some buf) (sent : buf.state ≠ .staging) :
    Holds c j payloads ↔ buf.payloads = payloads := by
  constructor
  · rintro ⟨buf', held', ⟨staging, _⟩ | ⟨_, eq⟩⟩ <;> rw [held] at held' <;> cases held'
    · exact absurd staging sent
    · exact eq
  · intro eq
    exact ⟨buf, held, .inr ⟨sent, eq⟩⟩

theorem takeSeq_numbered (txSeq : BitVec 16) : (takeSeq txSeq).1 ≠ 0xFFFF#16 := by
  unfold takeSeq
  split
  · rename_i last
    rw [last]
    decide
  · rename_i other
    exact other

theorem Launched.kept (sound : Sound c) (owns : Owns c i j) (launched : Launched t i c j c') :
    Kept c c' := by
  obtain ⟨buf, p, n1, n2, n3, held, le1, le2, le3, same, window, rfl⟩ := launched
  have read := (sound.staged owns held).sealed
    (sound.inv.layout.staged i j buf owns.1 owns.2 held)
  have sent : (sealBuf (c.peers i) buf (BitVec.ofNat 32 n1) (BitVec.ofNat 32 n2)).payloads =
      stagedPayloads i c := by
    unfold AckBuf.payloads
    rw [if_neg (show (sealBuf _ buf _ _).seq ≠ 0xFFFF#16 from takeSeq_numbered _)]
    exact read
  constructor
  · intro k payloads
    by_cases eq : k = j
    · subst eq
      rw [Holds.staged_iff sound.inv owns, ← sent]
      exact Holds.sent_iff (update_self ..) (not_staging rfl)
    · have other (m : PeerIx) : SamePlace (c.peers m) (update c.peers i p m) ∨
          ¬ Owns c m k ∧ (update c.peers i p m).aggIdx ≠ some k := by
        by_cases mine : m = i
        · subst mine
          refine .inr ⟨fun owns' => ?_, ?_⟩
          · exact eq (Option.some.inj (owns'.2.symm.trans owns.2))
          · rw [update_self, same.aggIdx]
            simp [AckPeer.nextSeq, aggClear]
        · exact .inl (by rw [update_of_ne mine]; exact .refl _)
      constructor
      · intro holds
        refine holds.view ?_ fun m => (other m).imp Eq.symm fun apart owns' => apart.2 owns'.2
        exact congrArg _ (update_of_ne eq ..).symm
      · intro holds
        refine holds.view ?_ fun m => (other m).imp_right And.left
        exact congrArg _ (update_of_ne eq ..)
  · intro k
    by_cases eq : k = j
    · subst eq
      simp [held]
    · simp [update_of_ne eq]

theorem appendAt_holds (owns : Owns c i j) (staging : buf.state = .staging)
    (staged : StagedAs (c.peers i) buf payloads) (small : payload.length < 2 ^ 16)
    (inside : (c.peers i).aggLen ≤ buf.data.length) :
    Holds (c.appendAt t i j buf payload) j (payloads ++ [payload]) := by
  have grown : (c.appendAt t i j buf payload).peers i = (c.peers i).aggGrow payload.length := by
    simp [Core.appendAt, Core.setPeer, Core.setBuf, Core.note]
  have written : (c.appendAt t i j buf payload).bufs j =
      some (buf.writeSub (c.peers i).aggLen payload) := by
    simp [Core.appendAt, Core.setPeer, Core.setBuf, Core.note]
  have owns' : Owns (c.appendAt t i j buf payload) i j := by
    rw [Owns, grown]
    exact owns
  refine ⟨_, written, .inl ⟨staging, i, owns', ?_⟩⟩
  rw [stagedPayloads_named owns'.2 written, grown]
  exact (staged.append payload small inside).subs

theorem StagedIn.gains {full : Bool} (staged : StagedIn t i payload c (some full) c')
    (sound : Sound c) (inUse : (c.peers i).inUse = true) : Gains c c' payload := by
  have wire : ackWireMax < 2 ^ 16 := by decide
  cases staged with
  | appended j buf full agg held room subs =>
    have owns : Owns c i j := ⟨inUse, agg⟩
    obtain ⟨buf', held', staging, _⟩ := (sound.inv.rep.agg_iff i inUse j).mp agg
    rw [held] at held'
    cases held'
    have block := sound.inv.layout.block j buf held
    have size := block.size
    have bound := block.cap_le
    refine ⟨j, stagedPayloads i c, .inr ((Holds.staged_iff sound.inv owns).mpr rfl), ?_⟩
    exact appendAt_holds owns staging (sound.staged owns held) (by omega) (by omega)
  | fresh j blk cap n1 n2 full idle empty fits bound le1 le2 =>
    have named : ((c.stageAt i j blk cap n1 n2).peers i) =
        (c.peers i).aggOpen j (BitVec.ofNat 32 n2) := update_self ..
    have owns : Owns (c.stageAt i j blk cap n1 n2) i j := by
      rw [Owns, named]
      exact ⟨inUse, rfl⟩
    have room : ackAggReserve ≤ (freshBuf blk .staging j (c.peers i).mac cap
        (BitVec.ofNat 32 n1)).data.length := by
      simp only [freshBuf, List.length_map, List.length_range]
      omega
    refine ⟨j, [], .inl ⟨empty, rfl⟩, appendAt_holds owns rfl ?_ (by omega) ?_⟩
    · rw [named]
      exact .opened room
    · rw [named]
      exact room

def airing : Frame Board where
  rel r r' := r'.air = r.air ∧ r'.fates = r.fates ∧ r.calls ≤ r'.calls
  refl _ := ⟨rfl, rfl, Nat.le_refl _⟩
  trans first second := ⟨second.1.trans first.1, second.2.1.trans first.2.1,
    Nat.le_trans first.2.2 second.2.2⟩

theorem airing_silent : Silent airing where
  elapse _ := ⟨rfl, rfl, Nat.le_succ _⟩
  osMalloc _ _ := ⟨rfl, rfl, Nat.le_succ _⟩
  halowGetTxVacancy _ := ⟨rfl, rfl, Nat.le_refl _⟩
  halowConfigLoadMcs _ := ⟨rfl, rfl, Nat.le_succ _⟩
  timeS _ := ⟨rfl, rfl, Nat.le_succ _⟩
  register _ _ := ⟨rfl, rfl, Nat.le_succ _⟩

def growing : Frame Board where
  rel r r' := ∃ newer, r'.air = newer ++ r.air
  refl _ := ⟨[], rfl⟩
  trans := by
    rintro a b c ⟨newer, eq⟩ ⟨newest, eq'⟩
    exact ⟨newest ++ newer, by rw [eq', eq, List.append_assoc]⟩

theorem halowTx_handed (data : List Byte) (dest : Mac) (mcs : Byte) (t : Nat) (b : Body Board) :
    Board.Handed data (halowTx data dest mcs t b).1 b.plat (halowTx data dest mcs t b).2.plat :=
  Board.halowTxP_handed data dest mcs 0#8 b.plat

theorem halowTx_growing (data : List Byte) (dest : Mac) (mcs : Byte) :
    (onPlat growing).Around (halowTx data dest mcs) := by
  intro t b
  obtain ⟨new, eq, _⟩ := (halowTx_handed data dest mcs t b).air
  exact ⟨new, eq⟩

theorem bcRepeatLoop_growing (payload : List Byte) (dest : Mac) (n : Nat) :
    (onPlat growing).Around (bcRepeatLoop payload dest n) := by
  induction n with
  | zero => exact .pure ()
  | succ n ih =>
    refine Frame.Around.bind (Silent.platform fun r => ⟨[], rfl⟩) fun vacancy => .when ?_
    refine (halowTx_growing _ _ _).bind fun r => .when ?_
    exact (modifyStats_silent _).bind fun _ => ih

theorem Handed.begins {data : List Byte} {r : Int} {b b' : Board}
    (handed : Board.Handed data r b b') :
    ∃ new, b'.air = new ++ b.air ∧ ∃ rest, data = onAir new ++ rest := by
  obtain ⟨new, eq, carried⟩ := handed.air
  refine ⟨new, eq, ?_⟩
  split at carried
  · exact ⟨[], by rw [carried, List.append_nil]⟩
  · obtain ⟨rest, split, _⟩ := carried
    exact ⟨rest, split⟩

theorem sendOut_air {b : Body Board} {pmcs : Byte} (held : b.bufs j = some buf) :
    ∃ new, (sendOut j pmcs t b).2.plat.air = new ++ b.plat.air ∧
      ∃ rest, buf.wire = onAir new ++ rest := by
  have handed := Board.halowTxP_handed buf.wire buf.destMac pmcs 0#8 b.plat
  obtain ⟨new, eq, begins⟩ := Handed.begins handed
  refine ⟨new, ?_, begins⟩
  rw [← eq]
  simp only [sendOut, Sec.bind_apply, Sec.read_apply, held]
  rfl

def Carries (b : Body Board) (frames : List AirFrame) : Prop :=
  ∃ j buf, b.bufs j = some buf ∧ buf.state = .inflight ∧ ∃ rest, buf.wire = onAir frames ++ rest

-- Nothing of `payload` stays; what went out is a part of it or of a bundle that was there before.
structure Refused (payload : List Byte) (b b' : Body Board) : Prop where
  kept : Kept (core b) (core b')
  air : ∃ new, b'.plat.air = new ++ b.plat.air ∧ (Partly payload new ∨ Carries b' new)

-- All of the payload went to the LMAC, or its last call in this hand-over gave a positive answer.
def HandedOver (payload : List Byte) (b b' : Body Board) : Prop :=
  ∃ (board : Board) (dest : Mac) (mcs : Byte) (newer copy : List AirFrame), airing.rel b.plat board ∧
    let (r, after) := board.halowTxP payload dest mcs 0#8
    0 ≤ r ∧ after.air = copy ++ b.plat.air ∧ b'.plat.air = newer ++ (copy ++ b.plat.air) ∧
      (r = 0 → onAir copy = payload) ∧
      (0 < r → ∃ n, after.calls = n + 1 ∧ (b.plat.fates n).lmacTx = r)

def TakenIn (payload : List Byte) (b b' : Body Board) : Prop :=
  Gains (core b) (core b') payload ∨ HandedOver payload b b'

def Atomic (payload : List Byte) (b : Body Board) (r : Int) (b' : Body Board) : Prop :=
  (r = txThrottle → Refused payload b b') ∧ (r = 0 → payload ≠ [] → TakenIn payload b b')

theorem Atomic.before {a b b' : Body Board} {r : Int} (atomic : Atomic payload b r b')
    (kept : Kept (core a) (core b)) (silent : airing.rel a.plat b.plat) :
    Atomic payload a r b' := by
  constructor
  · intro throttled
    have refused := atomic.1 throttled
    refine ⟨kept.trans refused.kept, ?_⟩
    rw [← silent.1]
    exact refused.air
  · intro ok some
    rcases atomic.2 ok some with gains | ⟨board, dest, mcs, newer, copy, quiet, handed⟩
    · exact .inl (gains.before kept)
    · rw [silent.1, silent.2.1] at handed
      exact .inr ⟨board, dest, mcs, newer, copy, airing.trans silent quiet, handed⟩

theorem halowTx_atomic (payload : List Byte) (dest : Mac) (mcs : Byte) (t : Nat) (b : Body Board) :
    ((halowTx payload dest mcs t b).1 < 0 → Refused payload b (halowTx payload dest mcs t b).2) ∧
      (0 ≤ (halowTx payload dest mcs t b).1 →
        HandedOver payload b (halowTx payload dest mcs t b).2) := by
  have kept := (halowTx_still payload dest mcs t b).kept
  have handed := halowTx_handed payload dest mcs t b
  obtain ⟨new, eq, carried⟩ := handed.air
  constructor
  · intro neg
    rw [if_neg (by omega)] at carried
    exact ⟨kept, new, eq, .inl carried⟩
  · intro pos
    refine ⟨b.plat, dest, mcs, [], new, airing.refl b.plat, pos, eq, eq, fun zero => ?_, handed.code⟩
    have zero : (halowTx payload dest mcs t b).1 = 0 := zero
    rwa [if_pos zero] at carried

theorem txPlainUntracked_atomic (payload : List Byte) (dest : Mac) (mcs : Byte) (t : Nat)
    (b : Body Board) : Atomic payload b (txPlainUntracked payload dest mcs t b).1
      (txPlainUntracked payload dest mcs t b).2 := by
  have done := halowTx_atomic payload dest mcs t b
  simp only [txPlainUntracked, Sec.bind_apply, Sec.pure_apply]
  generalize halowTx payload dest mcs t b = sent at done
  have throttle : txThrottle = -7 := rfl
  by_cases neg : sent.1 < 0
  · rw [if_pos neg]
    exact ⟨fun _ => done.1 neg, fun zero => by omega⟩
  · rw [if_neg neg]
    exact ⟨fun throttled => by omega, fun zero _ => .inr (done.2 (by omega))⟩

theorem HandedOver.grown {b b1 b' : Body Board} (handed : HandedOver payload b b1)
    (more : (onPlat growing).rel b1 b') : HandedOver payload b b' := by
  obtain ⟨board, dest, mcs, newer, copy, quiet, pos, sent, air, answer⟩ := handed
  obtain ⟨newest, grown⟩ := more
  exact ⟨board, dest, mcs, newest ++ newer, copy, quiet, pos, sent,
    by rw [grown, air, List.append_assoc], answer⟩

theorem txBroadcast_atomic (payload : List Byte) (dest : Mac) (t : Nat) (b : Body Board) :
    Atomic payload b (txBroadcast payload dest t b).1 (txBroadcast payload dest t b).2 := by
  have done := halowTx_atomic payload dest halowMcsDefault t b
  simp only [txBroadcast, Sec.bind_apply, Sec.read_apply, Sec.ite_apply, Sec.pure_apply]
  generalize halowTx payload dest halowMcsDefault t b = sent at done
  have throttle : txThrottle = -7 := rfl
  by_cases ok : sent.1 ≥ 0
  · rw [if_pos ok]
    refine ⟨fun throttled => by dsimp only at throttled; omega, fun _ _ => .inr ?_⟩
    exact (done.2 ok).grown (bcRepeatLoop_growing payload dest _ t sent.2)
  · rw [if_neg ok]
    exact ⟨fun _ => done.1 (by omega), fun zero => by dsimp only at zero; omega⟩

structure Settling (i : PeerIx) (mac : Mac) (b : Body Board) : Prop where
  sound : Sound (core b)
  here : Here i mac (core b)

structure Flushed (i : PeerIx) (mac : Mac) (b b' : Body Board) : Prop where
  settling : Settling i mac b'
  kept : Kept (core b) (core b')
  air : ∃ new, b'.plat.air = new ++ b.plat.air ∧ (new = [] ∨ Carries b' new)

structure SentOff (j : BufIx) (buf : AckBuf) (b b' : Body Board) : Prop where
  sound : Sound (core b) → Sound (core b')
  peers : ∀ i, SamePlace ((core b).peers i) ((core b').peers i)
  kept : Kept (core b) (core b')
  air : ∃ new, b'.plat.air = new ++ b.plat.air ∧ Carries b' new

theorem sendDone_core {ρ : Type} [Platform ρ] {b : Body ρ} (held : b.bufs j = some buf)
    (sending : buf.state = .sending) (t : Nat) :
    core (sendDone j t b).2 = (core b).setBuf j { buf with state := .inflight } ∧
      Kept (core b) (core (sendDone j t b).2) := by
  have does : Does (sendDone j : Code ρ Unit) t (core b) fun _ c' =>
      c' = (core b).setBuf j { buf with state := .inflight } := by
    refine Does.get (fun c => c.bufs j) (fun _ => rfl) ?_
    rw [show (core b).bufs j = some buf from held]
    simp only [Sec.when, if_pos sending]
    exact modifyBuf_does held rfl
  have done := does b rfl
  have content : ({ buf with state := .inflight } : AckBuf).content = buf.content := by
    simp [AckBuf.content, sending]
  refine ⟨done, ?_⟩
  rw [done]
  exact .view (update_content held content) fun _ _ => .inl (.refl _)

theorem sendTail_yields {pmcs : Byte} (held : b0.bufs j = some buf)
    (sending : buf.state = .sending) :
    Yields (fun b => b = b0) (sendTail j pmcs)
      fun _ b => SentOff j buf b0 b := by
  have out : Yields (fun b => b = b0) (sec (sendOut j pmcs)) fun _ b =>
      Still ((core b0).note (.sent j)) (core b) ∧ ∃ new, b.plat.air = new ++ b0.plat.air ∧
        ∃ rest, buf.wire = onAir new ++ rest := by
    refine .sec fun t b eq => ?_
    subst eq
    exact ⟨sendOut_does held b rfl, sendOut_air held⟩
  refine Yields.unlock.bind fun _ => out.bind fun _ => Yields.lock.bind fun _ => .sec ?_
  rintro t b ⟨still, new, air, begins⟩
  have held' : (core b).bufs j = some buf := (congrFun still.bufs j).trans held
  obtain ⟨done, same⟩ := sendDone_core held' sending t
  have sentOff : Micro ((core b).sender j) (core b) (core (sendDone j t b).2) := by
    rw [done]
    exact .sentOff j buf held' sending rfl
  refine ⟨fun sound => ?_, fun i => ?_, ?_, new, ?_, j, { buf with state := .inflight }, ?_, rfl,
    begins⟩
  · have noted : Chain ((core b0).sender j) (core b0) ((core b0).note (.sent j)) :=
      .single (.handOff j buf held sending rfl)
    exact ((sound.chain noted).chain (still.calms.chain (t := 0))).chain (.single sentOff)
  · rw [done]
    exact still.peers i
  · have noted : Kept (core b0) ((core b0).note (.sent j)) :=
      .view (fun _ => rfl) fun _ _ => .inl (.refl _)
    exact (noted.trans still.kept).trans same
  · rw [← air]
    exact (airing_silent.lax.sendDone j t b).1
  · exact (congrFun (congrArg Core.bufs done) j).trans (update_self ..)

theorem Started.kept {r : FlushStart} {mac : Mac} (started : Started t i c r c') (sound : Sound c)
    (here : Here i mac c) :
    Kept c c' ∧ Here i mac c' ∧
      ∀ j pmcs, r = .sealed j pmcs → ∃ buf, c'.bufs j = some buf ∧ buf.state = .sending := by
  cases started with
  | nothing still idle | blocked still named => exact ⟨still.kept, still.here here, by simp⟩
  | sealed j pmcs still agg window launched =>
    have sound1 := sound.chain (still.calms.chain (t := t))
    have here1 := still.here here
    obtain ⟨buf, flight, dest, here'⟩ := launched.atHome sound1.inv here1 agg
    refine ⟨still.kept.trans (launched.kept sound1 ⟨here1.1, agg⟩), here', ?_⟩
    rintro _ _ ⟨⟩
    exact ⟨buf, flight.1, flight.2.1⟩

theorem aggFlushLocked_yields {mac : Mac} (start : Settling i mac b0) :
    Yields (fun b => b = b0) (aggFlushLocked i)
      fun _ b => Flushed i mac b0 b := by
  rw [aggFlushLocked_eq]
  have launch : Yields (fun b => b = b0) (sec (aggLaunch i))
      fun r b => (Settling i mac b ∧ Kept (core b0) (core b) ∧ b.plat.air = b0.plat.air) ∧
        ∀ j pmcs, r = .sealed j pmcs → ∃ buf, b.bufs j = some buf ∧ buf.state = .sending := by
    refine .sec fun t b eq => ?_
    subst eq
    have started := aggLaunch_does (t := t) start.sound.inv start.here.1 b rfl
    have sound := start.sound.chain (started.chain start.here.1)
    obtain ⟨kept, here, sent⟩ := started.kept start.sound start.here
    exact ⟨⟨⟨sound, here⟩, kept, (airing_silent.aggLaunch i t b).1⟩, sent⟩
  have still {b : Body Board} (h : Settling i mac b ∧ Kept (core b0) (core b) ∧
      b.plat.air = b0.plat.air) : Flushed i mac b0 b := ⟨h.1, h.2.1, [], h.2.2, .inl rfl⟩
  refine launch.bind fun r => ?_
  cases r with
  | nothing => exact .pure true fun b h => still h.1
  | blocked => exact .pure false fun b h => still h.1
  | sealed j pmcs =>
    refine Yields.each fun b h => ?_
    obtain ⟨⟨settling, kept, air⟩, sent⟩ := h
    obtain ⟨buf, held, sending⟩ := sent j pmcs rfl
    refine (sendTail_yields held sending).bind fun _ => .pure true fun b' off => ?_
    obtain ⟨new, eq, carries⟩ := off.air
    refine ⟨⟨off.sound settling.sound, ?_⟩, kept.trans off.kept, new, by rw [eq, air], .inr carries⟩
    exact ⟨(off.peers i).inUse.trans settling.here.1, (off.peers i).mac.trans settling.here.2⟩

theorem answer_yields {P : Body Board → Prop} (r : Int) :
    Yields P (do unlock; pure r : Prog (Node Board) Int) fun a b => a = r ∧ P b :=
  Yields.unlock.bind fun _ => .pure r fun _ h => ⟨rfl, h⟩

theorem txBundleAppend_yields {dest : Mac} {effPayload : Nat} (start : Settling i dest b0)
    (some : payload ≠ []) (small : ackAggReserve + 2 + payload.length ≤ ackWireMax)
    (room : Room i payload.length (core b0)) :
    Yields (fun b => b = b0) (txBundleAppend i payload dest effPayload : Prog (Node Board) Int)
      fun r b => r = txThrottle ∧ Still (core b0) (core b) ∧ b.plat.air = b0.plat.air ∨
        r = 0 ∧ Gains (core b0) (core b) payload := by
  rw [txBundleAppend_eq]
  have staged : Yields (fun b => b = b0)
      (sec (stageIn i payload dest effPayload) : Prog (Node Board) (Option Bool)) fun r b =>
        (r = none → Still (core b0) (core b) ∧ b.plat.air = b0.plat.air) ∧
          (r.isSome = true → Settling i dest b ∧ Gains (core b0) (core b) payload) := by
    refine .sec fun t b eq => ?_
    subst eq
    have how : StagedIn t i payload (core b) (stageIn i payload dest effPayload t b).1
        (core (stageIn i payload dest effPayload t b).2) :=
      stageIn_does start.sound.inv start.here small room b rfl
    have air := (airing_silent.stageIn i payload dest effPayload t b).1
    have sound := start.sound.chain (how.chain start.here.1 some)
    have here := how.here start.here
    generalize stageIn i payload dest effPayload t b = out at how air sound here
    obtain ⟨r, b'⟩ := out
    cases r with
    | none =>
      cases how with
      | refused still => exact ⟨fun _ => ⟨still, air⟩, by simp⟩
    | some full => exact ⟨by simp, fun _ => ⟨⟨sound, here⟩, how.gains start.sound start.here.1⟩⟩
  refine staged.bind fun r => ?_
  cases r with
  | none => exact (answer_yields _).conseq (fun b h => h.1 rfl) fun _ b h => .inl h
  | some full =>
    have flushed : Yields (fun b => Settling i dest b ∧ Gains (core b0) (core b) payload)
        (Prog.when (full = true) (do let _ ← aggFlushLocked i) : Prog (Node Board) Unit)
        fun _ b => Gains (core b0) (core b) payload := by
      refine .when (fun _ => .each fun b h => ?_) fun _ b h => h.2
      refine (aggFlushLocked_yields h.1).bind fun _ => .pure () fun b' done => ?_
      exact h.2.after done.kept
    have noted : Yields (fun b => Gains (core b0) (core b) payload)
        (sec (do
          let t ← Sec.self
          emit (.bundled t i payload)) : Prog (Node Board) Unit)
        fun _ b => Gains (core b0) (core b) payload :=
      .sec fun t b gains => gains.after (.view (fun _ => rfl) fun _ _ => .inl (.refl _))
    have rest := flushed.bind fun _ => noted.bind fun _ => answer_yields 0
    exact rest.conseq (fun b h => h.2 rfl) fun _ b h => .inr h

theorem txBundleLocked_yields {dest : Mac} {effPayload : Nat} (start : Settling i dest b0)
    (small : ackAggReserve + 2 + payload.length ≤ ackWireMax) :
    Yields (fun b => b = b0) (txBundleLocked i payload dest effPayload)
      (Atomic payload b0) := by
  have throttled {b : Body Board} (done : Flushed i dest b0 b) : Refused payload b0 b := by
    obtain ⟨new, eq, carried⟩ := done.air
    refine ⟨done.kept, new, eq, carried.imp_left ?_⟩
    rintro rfl
    exact .none payload
  have refuse : Yields (Flushed i dest b0) (do unlock; pure txThrottle : Prog (Node Board) Int)
      (Atomic payload b0) := by
    refine (answer_yields _).conseq (fun b h => h) ?_
    rintro _ b ⟨rfl, done⟩
    exact ⟨fun _ => throttled done, fun zero => absurd zero (by decide)⟩
  unfold txBundleLocked
  by_cases empty : payload.length = 0
  · rw [if_pos empty]
    refine Yields.bind (.sec (Q := fun _ _ => True) fun _ _ _ => trivial) fun _ => ?_
    refine (answer_yields 0).conseq (fun b h => h) ?_
    rintro _ b ⟨rfl, _⟩
    refine ⟨fun other => absurd other (by decide), fun _ some => ?_⟩
    exact absurd (List.eq_nil_of_length_eq_zero empty) some
  rw [if_neg empty]
  have some : payload ≠ [] := fun none => empty (by rw [none]; rfl)
  have append : Yields (fun b => Flushed i dest b0 b ∧ Room i payload.length (core b))
      (txBundleAppend i payload dest effPayload) (Atomic payload b0) := by
    refine .each fun b h => ?_
    refine (txBundleAppend_yields h.1.settling some small h.2).conseq (fun _ eq => eq) ?_
    rintro r b' (⟨rfl, still, air⟩ | ⟨rfl, gains⟩)
    · have refused := throttled h.1
      refine ⟨fun _ => ⟨refused.kept.trans still.kept, ?_⟩, fun zero => absurd zero (by decide)⟩
      obtain ⟨new, eq, carried⟩ := refused.air
      refine ⟨new, air.trans eq, carried.imp_right ?_⟩
      rintro ⟨j, buf, held, rest⟩
      exact ⟨j, buf, (congrFun still.bufs j).trans held, rest⟩
    · exact ⟨fun other => absurd other (by decide), fun _ _ => .inl (gains.before h.1.kept)⟩
  have look {P : Body Board → Prop} : Yields P
      (sec (Sec.read fun b => stagedFullFor b i payload.length effPayload))
      fun r b => P b ∧ (r = false → Room i payload.length (core b)) :=
    .sec fun t b h => ⟨h, room_of_not_full⟩
  have idle {b : Body Board} (eq : b = b0) : Flushed i dest b0 b := by
    rw [eq]
    exact ⟨start, .refl _, [], rfl, .inl rfl⟩
  refine Yields.bind (Q := fun _ b => b = b0) (.sec fun _ _ eq => eq) fun blocked => ?_
  cases blocked with
  | true => exact refuse.conseq (fun _ eq => idle eq) fun _ _ h => h
  | false =>
    refine look.bind fun full => ?_
    cases full with
    | false => exact append.conseq (fun b h => ⟨idle h.1, h.2 rfl⟩) fun _ _ h => h
    | true =>
      have flush := (aggFlushLocked_yields start).conseq
        (fun b (h : b = b0 ∧ (true = false → Room i payload.length (core b))) => h.1)
        fun _ _ done => done
      refine flush.bind fun _ => look.bind fun still => ?_
      cases still with
      | true => exact refuse.conseq (fun b h => h.1) fun _ _ h => h
      | false => exact append.conseq (fun b h => ⟨h.1, h.2 rfl⟩) fun _ _ h => h

theorem txPlainLocked_yields {dest : Mac} {pmcs : Byte} (start : Settling i dest b0)
    (small : payload.length ≤ ackWireMax) :
    Yields (fun b => b = b0) (txPlainLocked i payload dest pmcs)
      (Atomic payload b0) := by
  rw [txPlainLocked_eq]
  have launch : Yields (fun b => b = b0)
      (sec (plainLaunch i payload dest)) fun r b =>
        (r = none → Kept (core b0) (core b) ∧ b.plat.air = b0.plat.air) ∧
          ∀ j, r = some j → Gains (core b0) (core b) payload ∧
            ∃ buf, b.bufs j = some buf ∧ buf.state = .sending := by
    refine .sec fun t b eq => ?_
    subst eq
    have how := plainLaunch_does (t := t) start.here small b rfl
    have air := (airing_silent.plainLaunch i payload dest t b).1
    generalize plainLaunch i payload dest t b = out at how air
    obtain ⟨r, b'⟩ := out
    cases how with
    | refused still => exact ⟨fun _ => ⟨still.kept, air⟩, by simp⟩
    | claimed j blk tx born empty chain news home =>
      refine ⟨by simp, ?_⟩
      rintro _ ⟨⟩
      refine ⟨⟨j, [], .inl ⟨empty, rfl⟩, ?_⟩, _, home.1.1, home.1.2.1⟩
      rw [Holds.sent_iff home.1.1 (not_staging home.1.2.1)]
      simp [AckBuf.payloads, AckBuf.wire, plainBuf, freshBuf]
  refine launch.bind fun r => ?_
  cases r with
  | none =>
    refine (answer_yields _).conseq (fun b h => h.1 rfl) ?_
    rintro _ b ⟨rfl, kept, air⟩
    exact ⟨fun _ => ⟨kept, [], air, .inl (.none payload)⟩, fun zero => absurd zero (by decide)⟩
  | some j =>
    refine .each fun b h => ?_
    obtain ⟨gains, buf, held, sending⟩ := h.2 j rfl
    refine (sendTail_yields held sending).bind fun _ => .pure 0 fun b' off => ?_
    exact ⟨fun other => absurd other (by decide), fun _ _ => .inl (gains.after off.kept)⟩

theorem ackTxUc_yields (payload : List Byte) (dest : Mac) (sound : Sound (core b0)) :
    Yields (fun b => b = b0) (ackTxUc payload dest : Prog (Node Board) Int)
      (Atomic payload b0) := by
  refine Yields.bind (Q := fun _ b => b = b0) (.sec fun _ _ eq => eq) fun cfg => ?_
  by_cases off : noack cfg payload.length dest = true
  · rw [if_pos off]
    refine .sec fun t b eq => ?_
    subst eq
    refine (txBroadcast_atomic payload dest t _).before ?_ ?_
    · exact (modifyStats_still (fun _ => rfl) t b).kept
    · exact modifyStats_silent (F := airing) _ t b
  rw [if_neg off]
  have small : payload.length ≤ ackWireMax := by
    simp only [noack, Bool.or_eq_true, decide_eq_true_eq, not_or, not_lt] at off
    exact off.2
  have routed : Yields (fun b => b = b0)
      (sec (txRoute payload.length dest) : Prog (Node Board) Route) fun r b =>
        (Sound (core b) ∧ Kept (core b0) (core b) ∧ airing.rel b0.plat b.plat) ∧
          Routed payload.length dest (core b) r := by
    refine .sec fun t b eq => ?_
    subst eq
    have does : Does (txRoute payload.length dest : Code Board Route) t (core b) _ :=
      txRoute_does sound.inv
    obtain ⟨calms, found⟩ := does b rfl
    exact ⟨⟨sound.chain (calms.chain (t := t)), calms.kept sound.inv,
      airing_silent.txRoute dest payload.length t b⟩, found⟩
  refine Yields.lock.bind fun _ => routed.bind fun r => .each fun b h => ?_
  obtain ⟨⟨sound', kept, silent⟩, found⟩ := h
  have back {m : Prog (Node Board) Int} (yields : Yields (fun b' => b' = b) m (Atomic payload b)) :
      Yields (fun b' => b' = b) m (Atomic payload b0) :=
    yields.conseq (fun _ eq => eq) fun _ _ atomic => atomic.before kept silent
  cases r with
  | untracked mcs =>
    refine back (Yields.unlock.bind fun _ => .sec ?_)
    rintro t b' rfl
    refine (txPlainUntracked_atomic payload dest mcs t _).before ?_ ?_
    · exact (modifyStats_still (fun _ => rfl) t b').kept
    · exact modifyStats_silent (F := airing) _ t b'
  | bundle i effPayload => exact back (txBundleLocked_yields ⟨sound', found.1⟩ found.2)
  | plain i pmcs => exact back (txPlainLocked_yields ⟨sound', found⟩ small)

theorem halowAckTx_yields (payload : List Byte) (dest : Mac) (sound : Sound (core b0)) :
    Yields (fun b => b = b0) (halowAckTx payload dest : Prog (Node Board) Int)
      (Atomic payload b0) := by
  have register : Yields (fun b => b = b0)
      (sec (txRegister payload dest) : Prog (Node Board) Unit) fun _ b =>
        Still (core b0) (core b) ∧ airing.rel b0.plat b.plat := by
    refine .sec fun t b eq => ?_
    subst eq
    have still : StillSec (txRegister payload dest : Code Board Unit) :=
      .bind (modifyStats_still fun _ => rfl) fun _ =>
        platform_still _ (Platform.statisticsRadioRegisterTxPackage_le _)
    exact ⟨still t b, airing_silent.txRegister payload dest t b⟩
  refine register.bind fun _ => .each fun b h => ?_
  obtain ⟨still, silent⟩ := h
  have sent := ackTxUc_yields payload dest (sound.chain (still.calms.chain (t := 0)))
  have counted (r : Int) : Yields (Atomic payload b r)
      (sec (Sec.when (r = 0) <| modifyStats fun st => { st with txFrames := st.txFrames + 1 }) :
        Prog (Node Board) Unit) fun _ => Atomic payload b r := by
    refine .sec fun t b' atomic => ?_
    by_cases zero : r = 0
    · simp only [Sec.when, if_pos zero]
      refine ⟨fun throttled => absurd (zero.symm.trans throttled) (by decide), fun _ some => ?_⟩
      have same := (modifyStats_still (f := fun st => { st with txFrames := st.txFrames + 1 })
        (fun _ => rfl) t b').kept
      exact (atomic.2 zero some).imp (fun gains => gains.after same) fun handed =>
        handed.grown (modifyStats_silent (F := growing) _ t b')
    · simp only [Sec.when, if_neg zero]
      exact atomic
  refine sent.bind fun r => (counted r).bind fun _ => .pure r fun b' atomic => ?_
  exact atomic.before still.kept silent

theorem acceptance_atomic (c : Threads Board) (h : Reachable c) (t : Nat) (payload : List Byte)
    (dest : Mac) :
    (c.shared.owner = none →
      ∃ r s', (halowAckTx payload dest).run { c.shared with active := t } = some (r, s')) ∧
    ∀ r s', (halowAckTx payload dest).run { c.shared with active := t } = some (r, s') →
      (r = txThrottle → Refused payload c.body s'.body) ∧
      (r = 0 → payload ≠ [] → TakenIn payload c.body s'.body) := by
  constructor
  · intro free
    have ends : Alone (halowAckTx payload dest) { c.shared with active := t } _ :=
      halowAckTx_ends (n := c.shared.misuse) ⟨free, rfl⟩
    obtain ⟨r, s', run, _⟩ := ends
    exact ⟨r, s', run⟩
  · intro r s' run
    exact halowAckTx_yields payload dest ⟨h.inv, h.books anyAccount⟩ _ r s' run rfl

def starved : Board := { Board.quiet 7 8 with fates := fun _ => { Board.quietFate with heap := none } }

def starvedPool : Threads Board := started halowAckConfigSetDefault starved

theorem acceptance_atomic_starved :
    (∃ s', (halowAckTx [7#8] ⟨2, 0, 0, 0, 0, 1⟩).run { starvedPool.shared with active := 1 } =
      some (txThrottle, s') ∧ Refused [7#8] starvedPool.body s'.body) ∧
    ∃ s', (halowAckTx [7#8] ⟨2, 0, 0, 0, 0, 1⟩).run { clearPool.shared with active := 1 } =
      some (0, s') ∧ TakenIn [7#8] clearPool.body s'.body := by
  constructor
  · have atomic := acceptance_atomic starvedPool (started_reachable _ _) 1 [7#8] ⟨2, 0, 0, 0, 0, 1⟩
    obtain ⟨r, s', run⟩ := atomic.1 rfl
    have answer : ((halowAckTx [7#8] ⟨2, 0, 0, 0, 0, 1⟩).run
        { starvedPool.shared with active := 1 }).map Prod.fst = some txThrottle := by decide +kernel
    rw [run] at answer
    cases answer
    exact ⟨s', run, (atomic.2 _ s' run).1 rfl⟩
  · have atomic := acceptance_atomic clearPool clearPool_reachable 1 [7#8] ⟨2, 0, 0, 0, 0, 1⟩
    obtain ⟨r, s', run⟩ := atomic.1 rfl
    have answer : ((halowAckTx [7#8] ⟨2, 0, 0, 0, 0, 1⟩).run
        { clearPool.shared with active := 1 }).map Prod.fst = some 0 := by decide +kernel
    rw [run] at answer
    cases answer
    exact ⟨s', run, (atomic.2 _ s' run).2 rfl (by decide)⟩

end RnodeHalow.Ack
