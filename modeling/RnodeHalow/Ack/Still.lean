import RnodeHalow.Ack.Invariant
import RnodeHalow.Ack.Walks

set_option autoImplicit false

namespace RnodeHalow.Ack

open Resumption

variable {ρ : Type} [Platform ρ]

def Calms : Core → Core → Prop := Relation.ReflTransGen Calm

theorem Calms.chain {t : Nat} {c c' : Core} (calms : Calms c c') : Chain t c c' := by
  induction calms with
  | refl => exact .refl
  | tail _ move ih => exact ih.tail (.calm move)

theorem SamePlace.refl (p : AckPeer) : SamePlace p p := rfl

def Event.Neutral : Event → Prop
  | .opened .. => False
  | .appended .. => False
  | .bundled .. => False
  | .sampled _ => False
  | .heard .. => False
  | .delivered .. => False
  | _ => True

abbrev Neutrally := Grown Event.Neutral

def Event.Airs (e : Event) : Prop := ∃ data dest mcs tid, e = .txP data dest mcs tid

abbrev Aired := Grown Event.Airs

theorem Grown.neutrally {older trace : History} (aired : Aired older trace) :
    Neutrally older trace :=
  aired.mono fun _ ⟨_, _, _, _, is⟩ => is ▸ trivial

-- The events of calm steps.
def Event.calm : Event → Bool
  | .txP .. | .kicked _ | .opened .. | .forgot .. => true
  | _ => false

theorem Calms.grown {c c' : Core} (calms : Calms c c') : Grown (·.calm = true) c.trace c'.trace := by
  induction calms with
  | refl => exact .refl _
  | tail _ move ih =>
    refine ih.trans ?_
    cases move with
    | elapse | peer | governor | measured => exact .refl _
    | air | kick | opened | forget => exact ⟨[_], rfl, by simp [Event.calm]⟩

-- `Calm` moves that keep the slots, the staged bundles and all counters.
structure Still (c c' : Core) : Prop where
  calms : Calms c c'
  bufs : c'.bufs = c.bufs
  standing : ∀ i, (c'.peers i).standing = (c.peers i).standing
  inflightN : c'.inflightN = c.inflightN
  counts : c'.counts = c.counts
  aired : Aired c.trace c'.trace

theorem Still.peers {c c' : Core} (still : Still c c') (i : PeerIx) :
    SamePlace (c.peers i) (c'.peers i) :=
  congrArg Prod.fst (congrArg Prod.fst (still.standing i))

theorem Still.debt {c c' : Core} (still : Still c c') (i : PeerIx) :
    (c'.peers i).debt = (c.peers i).debt := congrArg Prod.snd (still.standing i)

theorem Still.refl (c : Core) : Still c c := ⟨.refl, rfl, fun _ => rfl, rfl, rfl, .refl _⟩

theorem Still.trans {a b c : Core} (first : Still a b) (second : Still b c) : Still a c :=
  ⟨first.calms.trans second.calms, second.bufs.trans first.bufs,
    fun i => (second.standing i).trans (first.standing i), second.inflightN.trans first.inflightN,
    second.counts.trans first.counts, first.aired.trans second.aired⟩

theorem Still.trace {c c' : Core} (still : Still c c') : Neutrally c.trace c'.trace :=
  still.aired.neutrally

def CalmSec {α : Type} (m : Code ρ α) : Prop :=
  Sec.Along (fun _ b b' => Calms (core b) (core b')) m

def StillSec {α : Type} (m : Code ρ α) : Prop :=
  Sec.Along (fun _ b b' => Still (core b) (core b')) m

def calmness : Frame (Body ρ) where
  rel b b' := Calms (core b) (core b')
  refl _ := .refl
  trans := Relation.ReflTransGen.trans

def growth (P : Event → Prop) : Frame (Body ρ) where
  rel b b' := Grown P b.trace b'.trace
  refl b := .refl b.trace
  trans := .trans

section Growth

variable {P : Event → Prop}

omit [Platform ρ] in
theorem growth_modify {f : Body ρ → Body ρ} (trace : ∀ b, (f b).trace = b.trace) :
    (growth P).Around (Sec.modify f) := fun _ b => ⟨[], trace b, by simp⟩

omit [Platform ρ] in
theorem growth_modifyPeer (i : PeerIx) (f : AckPeer → AckPeer) :
    (growth P).Around (modifyPeer i f : Code ρ Unit) := growth_modify fun _ => rfl

theorem growth_emit {e : Event} (ok : P e) : (growth P).Around (emit e : Code ρ Unit) :=
  fun _ b => .one ok _ b.trace

omit [Platform ρ] in
theorem growth_platform {α : Type} (op : ρ → α × ρ) : (growth P).Around (platform op) :=
  fun _ b => .refl b.trace

theorem growth_lax (ok : ∀ e : Event, e.plain = true → P e) : Lax (growth P : Frame (Body ρ)) where
  vacancy := growth_platform _
  note plain := growth_emit (ok _ plain)
  count _ := growth_modify fun _ => rfl
  entry i _ _ := growth_modifyPeer i _
  clock := growth_platform _
  timeS := growth_platform _
  malloc _ := growth_platform _
  store same := growth_modify fun b => by rw [same b]

end Growth

def stillness : Frame (Body ρ) where
  rel b b' := Still (core b) (core b')
  refl b := .refl (core b)
  trans := Still.trans

section Rules

variable {α β : Type}

theorem StillSec.calm {m : Code ρ α} (still : StillSec m) : CalmSec m :=
  fun t b => (still t b).calms

theorem CalmSec.growth {P : Event → Prop} {m : Code ρ α} (calm : CalmSec m)
    (ok : ∀ e : Event, e.calm = true → P e) : (growth P).Around m :=
  fun t b => (calm t b).grown.mono ok

theorem StillSec.pure (a : α) : StillSec (Pure.pure a : Code ρ α) :=
  Frame.Around.pure (F := stillness) a

theorem StillSec.read (f : Body ρ → α) : StillSec (Sec.read f) :=
  Frame.Around.read (F := stillness) f

theorem StillSec.bind {m : Code ρ α} {f : α → Code ρ β} (first : StillSec m)
    (rest : ∀ a, StillSec (f a)) : StillSec (m >>= f) :=
  Frame.Around.bind (F := stillness) first rest

theorem StillSec.ite {c : Prop} [Decidable c] {m n : Code ρ α} (yes : StillSec m)
    (no : StillSec n) : StillSec (if c then m else n) := Frame.Around.ite (F := stillness) yes no

theorem StillSec.when {c : Prop} [Decidable c] {m : Code ρ Unit} (yes : StillSec m) :
    StillSec (Sec.when c m) := Frame.Around.when (F := stillness) yes

theorem StillSec.forEach {ι : Type} {body : ι → Code ρ Unit}
    (each : ∀ i, StillSec (body i)) (l : List ι) : StillSec (Sec.forEach l body) :=
  Frame.Around.forEach (F := stillness) each l

theorem CalmSec.pure (a : α) : CalmSec (Pure.pure a : Code ρ α) :=
  Frame.Around.pure (F := calmness) a

theorem CalmSec.read (f : Body ρ → α) : CalmSec (Sec.read f) :=
  Frame.Around.read (F := calmness) f

theorem CalmSec.bind {m : Code ρ α} {f : α → Code ρ β} (first : CalmSec m)
    (rest : ∀ a, CalmSec (f a)) : CalmSec (m >>= f) :=
  Frame.Around.bind (F := calmness) first rest

theorem CalmSec.ite {c : Prop} [Decidable c] {m n : Code ρ α} (yes : CalmSec m)
    (no : CalmSec n) : CalmSec (if c then m else n) := Frame.Around.ite (F := calmness) yes no

theorem CalmSec.when {c : Prop} [Decidable c] {m : Code ρ Unit} (yes : CalmSec m) :
    CalmSec (Sec.when c m) := Frame.Around.when (F := calmness) yes

theorem CalmSec.ifSome {x : Option α} {m : α → Code ρ Unit} (each : ∀ a, CalmSec (m a)) :
    CalmSec (Sec.ifSome x m) := Frame.Around.ifSome (F := calmness) each

theorem CalmSec.forEach {ι : Type} {body : ι → Code ρ Unit}
    (each : ∀ i, CalmSec (body i)) (l : List ι) : CalmSec (Sec.forEach l body) :=
  Frame.Around.forEach (F := calmness) each l

end Rules

theorem platform_still {α : Type} (op : ρ → α × ρ)
    (later : ∀ r, Platform.jiffies r ≤ Platform.jiffies (op r).2) : StillSec (platform op) :=
  fun _ b => ⟨.single (.elapse _ (later b.plat)), rfl, fun _ => rfl, rfl, rfl, .refl _⟩

theorem nowJ_still : StillSec (nowJ : Code ρ Jiffy) :=
  platform_still _ Platform.elapse_le

theorem halowGetTxVacancy_still : StillSec (halowGetTxVacancy : Code ρ Nat) :=
  platform_still _ Platform.halowGetTxVacancy_le

theorem modifyStats_core (f : Stats → Stats) (t : Nat) (b : Body ρ) :
    core (modifyStats f t b).2 = { core b with counts := (f b.stats).counts } := rfl

theorem modifyStats_still {f : Stats → Stats} (keeps : ∀ st, (f st).counts = st.counts) :
    StillSec (modifyStats f : Code ρ Unit) := by
  intro t b
  rw [modifyStats_core, keeps]
  exact .refl (core b)

variable (data : List Byte) (i : PeerIx) (dest : Mac) (mcs : Byte)

theorem airing_still (tid : Byte) : StillSec (emit (.txP data dest mcs tid) : Code ρ Unit) :=
  fun _ _ => ⟨.single (.air data dest mcs tid), rfl, fun _ => rfl, rfl, rfl,
    .one ⟨data, dest, mcs, tid, rfl⟩ _ _⟩

theorem modifyPeer_calm {f : AckPeer → AckPeer} (same : ∀ p, (f p).seat = p.seat) :
    CalmSec (modifyPeer i f : Code ρ Unit) :=
  fun _ b => .single (.peer i _ (congrArg Prod.fst (same (b.peers i)))
    (congrArg Prod.snd (same (b.peers i))))

theorem modifyPeer_still {f : AckPeer → AckPeer} (same : ∀ p, (f p).standing = p.standing) :
    StillSec (modifyPeer i f : Code ρ Unit) := by
  intro t b
  have seat (p : AckPeer) : (f p).seat = p.seat := congrArg Prod.fst (same p)
  have standing := entry_rel (R := fun p q => q.standing = p.standing) (fun _ => rfl)
    (same (b.peers i))
  exact ⟨modifyPeer_calm i seat t b, rfl, standing, rfl, rfl, .refl _⟩

theorem halowTxP_still (tid : Byte) : StillSec (halowTxP data dest mcs tid : Code ρ Int) :=
  .bind (airing_still data dest mcs tid) fun _ =>
    platform_still _ (Platform.halowTxP_le data dest mcs tid)

theorem halowTx_still :
    StillSec (halowTx data dest mcs : Code ρ Int) := halowTxP_still data dest mcs 0#8

theorem governor_still (n : Body ρ → Nat)
    (move : ∀ b, n b = b.cwnd ∨ 1 ≤ n b ∧ (n b ≤ b.cwnd ∨ n b ≤ b.window)) :
    StillSec (Sec.modify fun b => { b with cwnd := n b }) := by
  intro t b
  rcases move b with same | ⟨pos, bound⟩
  · change Still (core b) { core b with cwnd := n b }
    rw [same]
    exact .refl (core b)
  · exact ⟨.single (.governor (n b) pos bound), rfl, fun _ => rfl, rfl, rfl, .refl _⟩

theorem cwndOnCleanClear_still : StillSec (cwndOnCleanClear : Code ρ Unit) := by
  apply governor_still
  intro b
  split <;> omega

theorem cwndOnRetransTimeout_still : StillSec (cwndOnRetransTimeout : Code ρ Unit) := by
  apply governor_still
  intro b
  simp only [cwndShed]
  grind

theorem dfltMcsRefresh_still : StillSec (dfltMcsRefresh : Code ρ Unit) := by
  refine .bind nowJ_still fun now => .bind (.read _) fun b => ?_
  refine .ite (.pure ()) ?_
  refine .bind (platform_still _ Platform.halowConfigLoadMcs_le) fun mcs => ?_
  exact fun _ b => .refl (core b)

theorem peerInitMcs_still : StillSec (peerInitMcs : Code ρ Byte) :=
  .bind (.read _) fun _ =>
    .ite (.pure _) (.bind dfltMcsRefresh_still fun _ => .read _)

theorem peerRateStale_still : StillSec (peerRateStale i : Code ρ Bool) :=
  peerRateStale_around (F := stillness) i nowJ_still

theorem stillness_tunes : Tunes (stillness : Frame (Body ρ)) where
  clock := nowJ_still
  count same := modifyStats_still same
  tune i _ same := modifyPeer_still i fun p => (congrArg AckPeer.standing (same p) :)
  log _ _ b := .refl (core b)

theorem raUpStep_still : StillSec (raUpStep i : Code ρ Unit) := stillness_tunes.raUpStep i

theorem raOnRetrans_still : StillSec (raOnRetrans i : Code ρ Unit) :=
  stillness_tunes.raOnRetrans i

theorem raCheckStale_still : StillSec (raCheckStale i : Code ρ Unit) := by
  refine .bind (peerRateStale_still i) fun stale => .when ?_
  refine .bind peerInitMcs_still fun initMcs => .bind nowJ_still fun now => ?_
  exact modifyPeer_still i fun _ => rfl

theorem rttRecord_core (bornRtt lasttxRtt : Jiffy) (t : Nat) (b : Body ρ) :
    ∃ n, core (rttRecord bornRtt lasttxRtt t b).2 =
      { core b with counts := { (core b).counts with ackRttEwmaMs := n } } := by
  unfold rttRecord
  rw [modifyStats_core]
  dsimp only
  split
  · exact ⟨_, rfl⟩
  · exact ⟨_, rfl⟩

theorem kick_calm (j : BufIx) {buf : AckBuf} (due : Jiffy) (inflight : buf.state = .inflight)
    (t : Nat) (b : Body ρ) (held : b.bufs j = some buf) :
    Calms (core b) (core ((do
      modifyBuf j fun buf => { buf with txJiff := due }
      emit (.kicked j)) t b).2) := by
  refine .single ?_
  have step := Calm.kick (c := core b) j buf due held inflight
  simpa [core, Core.setBuf, Core.note, modifyBuf, emit, held] using step

theorem raKickInflight_calm : CalmSec (raKickInflight i : Code ρ Unit) := by
  refine .bind nowJ_still.calm fun now => .bind (.read _) fun timeoutMs =>
    .bind (.read _) fun mac => ?_
  refine .forEach (fun j => ?_) _
  intro t b
  simp only [Sec.bind_apply, Sec.read_apply]
  cases held : b.bufs j with
  | none => exact .refl
  | some buf =>
    by_cases hit : buf.state = .inflight ∧ macEq buf.destMac mac = true
    · simp only [Sec.when, if_pos hit]
      exact kick_calm j _ hit.1 t b held
    · simp only [Sec.when, if_neg hit]
      exact .refl

theorem raNoteCollapse_calm : CalmSec (raNoteCollapse i : Code ρ Unit) := by
  refine .bind nowJ_still.calm fun now => ?_
  refine .bind (modifyPeer_calm i fun _ => rfl) fun _ => ?_
  exact raKickInflight_calm i

theorem calmness_tunes : Tunes (calmness : Frame (Body ρ)) where
  clock := nowJ_still.calm
  count same := (modifyStats_still same).calm
  tune i _ same := modifyPeer_calm i fun p => (congrArg AckPeer.seat (same p) :)
  log _ _ _ := .refl

theorem raDownStep_calm : CalmSec (raDownStep i : Code ρ Unit) :=
  calmness_tunes.raDownStep i (raNoteCollapse_calm i)

theorem raOnAck_calm : CalmSec (raOnAck i : Code ρ Unit) :=
  calmness_tunes.raOnAck i (fun _ => modifyPeer_calm i fun _ => rfl) (raDownStep_calm i)
    (raUpStep_still i).calm

theorem raOnDrop_calm : CalmSec (raOnDrop i : Code ρ Unit) :=
  calmness_tunes.raOnDrop i (raDownStep_calm i)

end RnodeHalow.Ack
