import RnodeHalow.Ack.Schedule

set_option autoImplicit false

namespace RnodeHalow.Ack

open Resumption
open Function (update update_apply update_of_ne update_self)

variable {ρ : Type} [Platform ρ]

def Always (P : Nat → History → Event → Bool) : History → Prop
  | [] => True
  | (τ, e) :: older => P τ older e = true ∧ Always P older

instance Always.decide (P : Nat → History → Event → Bool) :
    (trace : History) → Decidable (Always P trace)
  | [] => inferInstanceAs (Decidable True)
  | (τ, e) :: older =>
    have := Always.decide P older
    inferInstanceAs (Decidable (P τ older e = true ∧ Always P older))

def lastBorn (j : BufIx) : History → Option Nat := latest fun e => e = .born j

def lastStaged (i : PeerIx) : History → Option Nat := latest fun e => e = .stamped i

def lastSent (j : BufIx) : History → Option Nat := latest fun e => e = .sent j

def kickedSince (j : BufIx) : History → Bool
  | [] => false
  | (_, e) :: older =>
    if e = .kicked j then true else if e = .sent j then false else kickedSince j older

def timely (now : Nat) (past : History) : Event → Bool
  | .deadlineDropped _ j life => (lastBorn j past).all fun born => life.toNat ≤ now - born
  | .holdDropped _ i _ _ =>
    (lastStaged i past).all fun first => (msJ ackAggMaxHoldMs).toNat ≤ now - first
  | .retried _ j backoff =>
    kickedSince j past || (lastSent j past).all fun sent => backoff.toNat ≤ now - sent
  | _ => true

def punctual (_ : Nat) (past : History) : Event → Bool
  | .deadlineDropped t j _ =>
    (lastBorn j past).all fun born => (lastSample t past).all fun sample => born ≤ sample
  | .holdDropped t i _ _ =>
    (lastStaged i past).all fun first => (lastSample t past).all fun sample => first ≤ sample
  | .retried t j _ =>
    kickedSince j past || (stampOf j past).all fun stamp =>
      ((lastSample t past).all fun sample => stamp ≤ sample) &&
        (lastSent j past).all fun sent => sent ≤ stamp
  | _ => true

theorem age_le {life : Jiffy} {now stamp : Nat} (order : stamp ≤ now)
    (old : life ≤ BitVec.ofNat 32 now - BitVec.ofNat 32 stamp) : life.toNat ≤ now - stamp := by
  have age : BitVec.ofNat 32 now - BitVec.ofNat 32 stamp = BitVec.ofNat 32 (now - stamp) := by
    rw [BitVec.sub_eq_iff_eq_add, ← BitVec.ofNat_add, Nat.sub_add_cancel order]
  rw [age, BitVec.le_def, BitVec.toNat_ofNat] at old
  exact Nat.le_trans old (Nat.mod_le _ _)

def BornOk (trace : History) (j : BufIx) (buf : AckBuf) : Prop :=
  ∃ born, lastBorn j trace = some born ∧ buf.bornJiff = BitVec.ofNat 32 born

def FirstOk (trace : History) (i : PeerIx) (p : AckPeer) : Prop :=
  ∃ first, lastStaged i trace = some first ∧ p.aggFirstJiff = BitVec.ofNat 32 first

def Stamped (trace : History) (j : BufIx) (buf : AckBuf) : Prop :=
  ∃ stamp, stampOf j trace = some stamp ∧ buf.txJiff = BitVec.ofNat 32 stamp

def TxOk (trace : History) (j : BufIx) (buf : AckBuf) : Prop :=
  (buf.state = .inflight ∧ kickedSince j trace = true) ∨ Stamped trace j buf

structure Stamps (c : Core) : Prop where
  born : ∀ j buf, c.bufs j = some buf → BornOk c.trace j buf
  tx : ∀ j buf, c.bufs j = some buf → buf.state ≠ .staging → TxOk c.trace j buf
  first : ∀ i, (c.peers i).aggIdx.isSome = true → FirstOk c.trace i (c.peers i)
  past : ∀ e ∈ c.trace, e.1 ≤ c.clock

def Event.retimes (j : BufIx) : Event → Bool
  | .txStamped k => k = j
  | .txSampled _ k => k = j
  | .sent k => k = j
  | _ => false

variable {trace : History} {j k : BufIx} {buf : AckBuf} {τ t : Nat} {e : Event}
    {i : PeerIx} {c c' : Core}

theorem BornOk.cons (ok : BornOk trace j buf) (other : e ≠ .born j) :
    BornOk ((τ, e) :: trace) j buf := by
  simpa [BornOk, lastBorn, latest, other] using ok

theorem FirstOk.cons {p : AckPeer} (ok : FirstOk trace i p) (other : e ≠ .stamped i) :
    FirstOk ((τ, e) :: trace) i p := by
  simpa [FirstOk, lastStaged, latest, other] using ok

theorem stampOf_cons (other : ∀ t, e ≠ .txStamped j ∧ e ≠ .txSampled t j) :
    stampOf j ((τ, e) :: trace) = stampOf j trace := by
  cases e with
  | txStamped k =>
    have ne : k ≠ j := by
      rintro rfl
      exact (other 0).1 rfl
    simp [stampOf, ne]
  | txSampled t k =>
    have ne : k ≠ j := by
      rintro rfl
      exact (other t).2 rfl
    simp [stampOf, ne]
  | _ => rfl

theorem TxOk.cons (ok : TxOk trace j buf) (other : e.retimes j = false) :
    TxOk ((τ, e) :: trace) j buf := by
  rcases ok with ⟨inflight, kicked⟩ | ⟨stamp, last, eq⟩
  · left
    have ne : e ≠ .sent j := by
      rintro rfl
      simp [Event.retimes] at other
    exact ⟨inflight, by simp [kickedSince, ne, kicked]⟩
  · right
    refine ⟨stamp, (stampOf_cons fun t => ⟨?_, ?_⟩).trans last, eq⟩
    · rintro rfl
      simp [Event.retimes] at other
    · rintro rfl
      simp [Event.retimes] at other

def Event.Mute (e : Event) : Prop :=
  (∀ j, e ≠ .born j ∧ e.retimes j = false) ∧ ∀ i, e ≠ .stamped i

theorem past_cons {τ n m : Nat} (past : ∀ x ∈ trace, x.1 ≤ n) (later : n ≤ m) (now : τ ≤ m) :
    ∀ x ∈ (τ, e) :: trace, x.1 ≤ m := by
  intro x member
  rcases List.mem_cons.mp member with rfl | old
  · exact now
  · exact Nat.le_trans (past x old) later

theorem Stamps.note (stamps : Stamps c) (mute : e.Mute) : Stamps (c.note e) where
  born j buf held := (stamps.born j buf held).cons (mute.1 j).1
  tx j buf held state := (stamps.tx j buf held state).cons (mute.1 j).2
  first i staged := (stamps.first i staged).cons (mute.2 i)
  past := past_cons stamps.past (Nat.le_refl _) (Nat.le_refl _)

theorem Stamps.fill (stamps : Stamps c) (bufs : c'.bufs = update c.bufs k (some buf))
    (others : ∀ j x, j ≠ k → (BornOk c.trace j x → BornOk c'.trace j x) ∧
      (TxOk c.trace j x → TxOk c'.trace j x)) (born : BornOk c'.trace k buf)
    (tx : buf.state ≠ .staging → TxOk c'.trace k buf)
    (first : ∀ i, (c'.peers i).aggIdx.isSome = true → FirstOk c'.trace i (c'.peers i))
    (past : ∀ e ∈ c'.trace, e.1 ≤ c'.clock) : Stamps c' where
  born j x there := by
    rw [bufs] at there
    by_cases same : j = k
    · subst same
      simp only [update_self, Option.some.injEq] at there
      exact there ▸ born
    · rw [update_of_ne same] at there
      exact (others j x same).1 (stamps.born j x there)
  tx j x there state := by
    rw [bufs] at there
    by_cases same : j = k
    · subst same
      simp only [update_self, Option.some.injEq] at there
      subst there
      exact tx state
    · rw [update_of_ne same] at there
      exact (others j x same).2 (stamps.tx j x there state)
  first := first
  past := past

theorem Stamps.slot (stamps : Stamps c) (x : AckBuf) (held : c.bufs k = some buf)
    (same : x.bornJiff = buf.bornJiff) (tx : x.state ≠ .staging → TxOk c.trace k x) :
    Stamps (c.setBuf k x) := by
  obtain ⟨time, last, eq⟩ := stamps.born k buf held
  have born : BornOk (c.setBuf k x).trace k x := ⟨time, last, same.trans eq⟩
  exact stamps.fill rfl (fun _ _ _ => ⟨id, id⟩) born tx stamps.first stamps.past

theorem Stamps.free (stamps : Stamps c) (buf : AckBuf) : Stamps (c.free k buf) where
  born j x there := by
    simp only [Core.free, update_apply] at there
    split at there
    · cases there
    · exact stamps.born j x there
  tx j x there := by
    simp only [Core.free, update_apply] at there
    split at there
    · cases there
    · exact stamps.tx j x there
  first := stamps.first
  past := stamps.past

theorem Stamps.peer (stamps : Stamps c) {k : PeerIx} {p : AckPeer}
    (own : p.aggIdx.isSome = true → FirstOk c.trace k p) : Stamps (c.setPeer k p) where
  born := stamps.born
  tx := stamps.tx
  first i staged := by
    by_cases same : i = k
    · subst same
      simp only [Core.setPeer, update_self] at staged ⊢
      exact own staged
    · simp only [Core.setPeer, update_of_ne same] at staged ⊢
      exact stamps.first i staged
  past := stamps.past

theorem Stamps.place (stamps : Stamps c) {k : PeerIx} {p : AckPeer}
    (same : SamePlace (c.peers k) p) : Stamps (c.setPeer k p) :=
  stamps.peer fun staged => by
    obtain ⟨time, last, eq⟩ := stamps.first k (by rw [← same.aggIdx]; exact staged)
    exact ⟨time, last, same.aggFirstJiff.trans eq⟩

theorem Stamps.aside (stamps : Stamps c) (bufs : c'.bufs = c.bufs) (peers : c'.peers = c.peers)
    (trace : c'.trace = c.trace) (clock : c.clock ≤ c'.clock) : Stamps c' where
  born := by rw [bufs, trace]; exact stamps.born
  tx := by rw [bufs, trace]; exact stamps.tx
  first := by rw [peers, trace]; exact stamps.first
  past := by
    rw [trace]
    exact fun e member => Nat.le_trans (stamps.past e member) clock

theorem Stamps.landed (stamps : Stamps c) (buf : AckBuf) (n : Counts) :
    Stamps ({ c.free k buf with counts := n }.note (.landed k)) := by
  have counted : Stamps { c.free k buf with counts := n } :=
    (stamps.free buf).aside rfl rfl rfl (Nat.le_refl _)
  exact counted.note ⟨by simp [Event.retimes], by simp⟩

theorem Calm.stamps (move : Calm c c') (stamps : Stamps c) : Stamps c' := by
  cases move with
  | elapse n later => exact stamps.aside rfl rfl rfl later
  | air data dest mcs tid => exact stamps.note ⟨by simp [Event.retimes], by simp⟩
  | peer i p same => exact stamps.place same
  | kick k buf due held inflight =>
    have noted : Stamps (c.note (.kicked k)) := stamps.note ⟨by simp [Event.retimes], by simp⟩
    refine noted.slot (k := k) { buf with txJiff := due } held rfl fun _ => .inl ⟨?_, ?_⟩
    · exact inflight
    · simp [Core.note, kickedSince]
  | opened i p mac fresh new bare =>
    have placed : Stamps (c.setPeer i p) := stamps.peer (by simp [fresh.aggIdx])
    have counted : Stamps { c.setPeer i p with
        peersN := if (c.peers i).inUse then c.peersN else c.peersN + 1 } :=
      placed.aside rfl rfl rfl (Nat.le_refl _)
    exact counted.note ⟨by simp [Event.retimes], by simp⟩
  | governor | measured => exact stamps.aside rfl rfl rfl (Nat.le_refl _)
  | forget i p mac inUse named same =>
    exact (stamps.place same).note ⟨by simp [Event.retimes], by simp⟩

theorem others_kept {n m : Nat} (mute : e.Mute) (j : BufIx) (x : AckBuf) (ne : j ≠ k) :
    (BornOk c.trace j x → BornOk ((τ, e) :: (n, .born k) :: (m, .txStamped k) :: c.trace) j x) ∧
      (TxOk c.trace j x → TxOk ((τ, e) :: (n, .born k) :: (m, .txStamped k) :: c.trace) j x) := by
  constructor
  · intro ok
    refine ((ok.cons ?_).cons ?_).cons (mute.1 j).1 <;> simp [Ne.symm ne]
  · intro ok
    refine ((ok.cons ?_).cons ?_).cons (mute.1 j).2 <;> simp [Event.retimes, Ne.symm ne]

theorem Stamps.stageAt {blk : HeapBlock} {cap n1 n2 : Nat} (stamps : Stamps c) (le1 : c.clock ≤ n1)
    (le2 : n1 ≤ n2) : Stamps (c.stageAt i j blk cap n1 n2) := by
  refine stamps.fill rfl (fun k x ne => ⟨fun ok => ?_, fun ok => ?_⟩) ?_ ?_ ?_ ?_
  · refine (ok.cons ?_).cons ?_ <;> simp [Ne.symm ne]
  · refine (ok.cons ?_).cons ?_ <;> simp [Event.retimes]
  · exact ⟨n1, by simp [Core.stageAt, lastBorn, latest], rfl⟩
  · exact fun state => absurd rfl state
  · intro k staged
    by_cases same : k = i
    · subst same
      refine ⟨n2, by simp [Core.stageAt, lastStaged, latest], ?_⟩
      simp [Core.stageAt, AckPeer.aggOpen]
    · simp only [Core.stageAt, update_of_ne same] at staged ⊢
      refine ((stamps.first k staged).cons ?_).cons ?_ <;> simp [Ne.symm same]
  · exact past_cons (past_cons stamps.past le1 (Nat.le_refl n1)) le2 (Nat.le_refl n2)

theorem Stamps.appendAt {payload : List Byte} (stamps : Stamps c) (held : c.bufs j = some buf)
    (staged : (c.peers i).aggIdx.isSome = true) : Stamps (c.appendAt t i j buf payload) := by
  have grown : Stamps ((c.setBuf j (buf.writeSub (c.peers i).aggLen payload)).setPeer i
      ((c.peers i).aggGrow payload.length)) := by
    have written : Stamps (c.setBuf j (buf.writeSub (c.peers i).aggLen payload)) :=
      stamps.slot _ held rfl fun state => stamps.tx j buf held state
    exact written.peer fun _ => stamps.first i staged
  exact grown.note ⟨by simp [Event.retimes], by simp⟩

theorem Micro.stamps (move : Micro t c c') (stamps : Stamps c) : Stamps c' := by
  cases move with
  | calm move => exact move.stamps stamps
  | sample | accept | due | meet | deliver => exact stamps.note ⟨by simp [Event.retimes], by simp⟩
  | expire j buf life τ => exact (stamps.landed buf _).note ⟨by simp [Event.retimes], by simp⟩
  | stage i j blk cap n1 n2 payload inUse idle empty room small le1 le2 =>
    refine (stamps.stageAt le1 le2).appendAt (update_self ..) ?_
    simp [Core.stageAt, AckPeer.aggOpen]
  | append i j buf payload inUse named held =>
    exact stamps.appendAt held (by rw [named]; rfl)
  | launch i j buf p n1 n2 n3 inUse named held window le1 le2 le3 place =>
    refine stamps.fill rfl (others_kept ⟨by simp [Event.retimes], by simp⟩) ?_ ?_ ?_ ?_
    · exact ⟨n2, by simp [lastBorn, latest], rfl⟩
    · exact fun _ => .inr ⟨n1, by simp [stampOf], rfl⟩
    · intro k staged
      by_cases same : k = i
      · subst same
        simp only [update_self] at staged
        rw [place.aggIdx] at staged
        cases staged
      · simp only [update_of_ne same] at staged ⊢
        refine (((stamps.first k staged).cons ?_).cons ?_).cons ?_ <;> simp
    · exact past_cons (past_cons (past_cons stamps.past le1 (Nat.le_refl n1)) le2
        (Nat.le_refl n2)) le3 (Nat.le_refl n3)
  | plain i j blk payload n1 n2 inUse empty window small le1 le2 =>
    refine stamps.fill rfl (fun k x ne => ⟨fun ok => ?_, fun ok => ?_⟩) ?_ ?_ ?_ ?_
    · refine (ok.cons ?_).cons ?_ <;> simp [Ne.symm ne]
    · refine (ok.cons ?_).cons ?_ <;> simp [Event.retimes, Ne.symm ne]
    · exact ⟨n1, by simp [lastBorn, latest], rfl⟩
    · exact fun _ => .inr ⟨n2, by simp [stampOf], rfl⟩
    · intro k staged
      refine ((stamps.first k staged).cons ?_).cons ?_ <;> simp
    · exact past_cons (past_cons stamps.past le1 (Nat.le_refl n1)) le2 (Nat.le_refl n2)
  | touch j buf τ held inflight last =>
    refine stamps.fill rfl (fun k x ne => ⟨fun ok => ?_, fun ok => ?_⟩) ?_ ?_ ?_ ?_
    · exact ok.cons (by simp)
    · exact ok.cons (by simp [Event.retimes, Ne.symm ne])
    · exact (stamps.born j buf held).cons (by simp)
    · exact fun _ => .inr ⟨τ, by simpa [Core.note, Core.setBuf, stampOf] using last, rfl⟩
    · exact fun k staged => (stamps.first k staged).cons (by simp)
    · exact past_cons stamps.past (Nat.le_refl _) (Nat.le_refl _)
  | mark j buf τ held inflight last eq =>
    exact (stamps.slot { buf with state := .sending } held rfl
      fun _ => .inr ⟨τ, last, eq⟩).aside rfl rfl rfl (Nat.le_refl _)
  | handOff j buf held sending own =>
    refine ⟨fun k x there => (stamps.born k x there).cons (by simp), fun k x there state => ?_,
      fun k staged => (stamps.first k staged).cons (by simp),
      past_cons stamps.past (Nat.le_refl _) (Nat.le_refl _)⟩
    by_cases same : k = j
    · subst same
      have tx := stamps.tx k x there state
      rw [show c.bufs k = some x from there] at held
      cases held
      rcases tx with ⟨inflight, _⟩ | ⟨stamp, last, eq⟩
      · rw [sending] at inflight
        cases inflight
      · exact .inr ⟨stamp, (stampOf_cons (by simp)).trans last, eq⟩
    · exact (stamps.tx k x there state).cons (by simp [Event.retimes, Ne.symm same])
  | sentOff j buf held sending own =>
    refine stamps.slot _ held rfl fun _ => ?_
    rcases stamps.tx j buf held (not_staging sending) with ⟨inflight, _⟩ | stamped
    · rw [sending] at inflight
      cases inflight
    · exact .inr stamped
  | release j buf why held inflight => exact stamps.landed buf _
  | hold i j buf τ inUse named held last old =>
    have noted : Stamps (c.note (.holdDropped t i (c.peers i).aggNsub
        (buf.data.take (c.peers i).aggLen))) := stamps.note ⟨by simp [Event.retimes], by simp⟩
    have dropped : Stamps (((c.note (.holdDropped t i (c.peers i).aggNsub
        (buf.data.take (c.peers i).aggLen))).free j buf).setPeer i (aggClear (c.peers i))) :=
      (noted.free buf).peer fun staged => by cases staged
    exact dropped.aside rfl rfl rfl (Nat.le_refl _)
  | reconfig cfg n =>
    have set : Stamps { c with cfg := cfg, window := cfg.window, cwnd := n } :=
      stamps.aside rfl rfl rfl (Nat.le_refl _)
    exact set.note ⟨by simp [Event.retimes], by simp⟩
  | reject i =>
    have counted : Stamps { c with counts := c.counts.reject } :=
      stamps.aside rfl rfl rfl (Nat.le_refl _)
    exact counted.note ⟨by simp [Event.retimes], by simp⟩
  | hear i src payload undefinedShl =>
    have place := peerRxSeq_place undefinedShl (c.peers i) (le16 payload 3)
    exact (stamps.place place).note ⟨by simp [Event.retimes], by simp⟩

theorem latest_mem {p : Event → Bool} (last : latest p trace = some τ) : ∃ e ∈ trace, e.1 = τ := by
  induction trace with
  | nil => cases last
  | cons e older ih =>
    obtain ⟨n, e⟩ := e
    simp only [latest] at last
    split at last
    · cases last
      exact ⟨(τ, e), by simp, rfl⟩
    · obtain ⟨x, member, eq⟩ := ih last
      exact ⟨x, by simp [member], eq⟩

theorem Stamps.sample_le (stamps : Stamps c) (last : lastSample t c.trace = some τ) :
    τ ≤ c.clock := by
  obtain ⟨e, member, rfl⟩ := latest_mem last
  exact stamps.past e member

theorem expire_timely (stamps : Stamps c) {life : Jiffy} (held : c.bufs j = some buf)
    (last : lastSample t c.trace = some τ) (old : life ≤ BitVec.ofNat 32 τ - buf.bornJiff)
    (ok : punctual c.clock c.trace (.deadlineDropped t j life) = true) :
    timely c.clock c.trace (.deadlineDropped t j life) = true := by
  obtain ⟨born, is, eq⟩ := stamps.born j buf held
  simp only [punctual, timely, is, last, Option.all_some, decide_eq_true_eq] at ok ⊢
  rw [eq] at old
  have age := age_le ok old
  have now := stamps.sample_le last
  omega

theorem hold_timely (stamps : Stamps c) {nsub τ : Nat} {data : List Byte}
    (staged : (c.peers i).aggIdx.isSome = true) (last : lastSample t c.trace = some τ)
    (old : msJ ackAggMaxHoldMs ≤ BitVec.ofNat 32 τ - (c.peers i).aggFirstJiff)
    (ok : punctual c.clock c.trace (.holdDropped t i nsub data) = true) :
    timely c.clock c.trace (.holdDropped t i nsub data) = true := by
  obtain ⟨first, is, eq⟩ := stamps.first i staged
  simp only [punctual, timely, is, last, Option.all_some, decide_eq_true_eq] at ok ⊢
  rw [eq] at old
  have age := age_le ok old
  have now := stamps.sample_le last
  omega

theorem due_timely (stamps : Stamps c) {backoff : Jiffy} (held : c.bufs j = some buf)
    (inflight : buf.state = .inflight) (last : lastSample t c.trace = some τ)
    (old : backoff ≤ BitVec.ofNat 32 τ - buf.txJiff)
    (ok : punctual c.clock c.trace (.retried t j backoff) = true) :
    timely c.clock c.trace (.retried t j backoff) = true := by
  simp only [punctual, timely, Bool.or_eq_true] at ok ⊢
  rcases ok with kicked | order
  · exact .inl kicked
  rcases stamps.tx j buf held (by rw [inflight]; decide) with ⟨_, kicked⟩ | ⟨stamp, is, eq⟩
  · exact .inl kicked
  right
  simp only [is, last, Option.all_some, Bool.and_eq_true, decide_eq_true_eq] at order
  rw [eq] at old
  have age := age_le order.1 old
  have now := stamps.sample_le last
  cases handed : lastSent j c.trace with
  | none => rfl
  | some sent =>
    have out := order.2
    simp only [handed, Option.all_some, decide_eq_true_eq] at out ⊢
    omega

theorem Micro.timely (move : Micro t c c') (stamps : Stamps c)
    (before : Always punctual c.trace → Always timely c.trace) (ok : Always punctual c'.trace) :
    Always timely c'.trace := by
  cases move with
  | calm move =>
    cases move with
    | elapse | peer | governor | measured => exact before ok
    | air | kick | opened | forget => exact ⟨rfl, before ok.2⟩
  | sample | accept | append | touch | handOff | release | reconfig | reject | hear | meet
  | deliver => exact ⟨rfl, before ok.2⟩
  | expire j buf life τ held inflight last old =>
    have noted : Stamps (c.note (.landed j)) := stamps.note ⟨by simp [Event.retimes], by simp⟩
    exact ⟨expire_timely noted held last old ok.1, rfl, before ok.2.2⟩
  | due j buf backoff τ held inflight last old =>
    exact ⟨due_timely stamps held inflight last old ok.1, before ok.2⟩
  | stage | launch => exact ⟨rfl, rfl, rfl, before ok.2.2.2⟩
  | plain i j blk payload n1 n2 => exact ⟨rfl, rfl, before ok.2.2⟩
  | mark | sentOff => exact before ok
  | hold i j buf τ inUse named held last old =>
    exact ⟨hold_timely stamps (by rw [named]; rfl) last old ok.1, before ok.2⟩

theorem initial_stamps (cfg : Config) (n : Nat) : Stamps (Core.initial cfg n) where
  born := by rintro j buf ⟨⟩
  tx := by rintro j buf ⟨⟩
  first := by rintro i ⟨⟩
  past := by simp [Core.initial]

theorem timers_never_early (c : Threads ρ) (h : Reachable c)
    (ok : Always punctual c.body.trace) : Always timely c.body.trace := by
  have both : Stamps (core c.body) ∧
      (Always punctual c.body.trace → Always timely c.body.trace) :=
    h.moves (J := fun c => Stamps c ∧ (Always punctual c.trace → Always timely c.trace))
      (fun cfg n _ => ⟨initial_stamps cfg n, fun _ => ⟨rfl, trivial⟩⟩)
      fun _ _ _ _ move before => ⟨move.stamps before.1, move.timely before.1 before.2⟩
  exact both.2 ok

def threeSeconds : List (Move Board) :=
  [.start 1 (.tx [1, 2, 3] ⟨2, 0, 0, 0, 0, 1⟩), .resume 1, .resume 1, .resume 1,
    .start 1 .flush, .resume 1, .resume 1, .resume 1, .resume 1, .resume 1,
    .wait fun b => { b with jiffies := b.jiffies + 3000 },
    .start 0 .tick, .resume 0, .resume 0]

theorem timers_never_early_threeSeconds : ∃ c, playAll threeSeconds quietNode = some c ∧
    ((103000, .deadlineDropped 0 0 2900) ∈ c.body.trace ∧
      Always punctual c.body.trace) ∧ Always timely c.body.trace :=
  played_then (by decide +kernel) fun c reach ⟨_, ok⟩ => timers_never_early c reach ok

def lateStamp : List (Move Board) :=
  [.start 0 .tick, .resume 0, .wait fun b => { b with jiffies := b.jiffies + 5 },
    .start 1 (.tx [1, 2, 3] ⟨2, 0, 0, 0, 0, 1⟩), .resume 1, .resume 1, .resume 1,
    .start 1 .flush, .resume 1, .resume 1, .resume 1, .resume 1, .resume 1,
    .resume 0]

theorem timer_early_lateStamp : ∃ c,
    playAll lateStamp quietNode = some c ∧ Reachable c ∧
      c.body.trace.head? = some (100005, .deadlineDropped 0 0 2900) ∧
      lastBorn 0 c.body.trace = some 100005 ∧ ¬ Always timely c.body.trace :=
  played (by decide +kernel)

end RnodeHalow.Ack
