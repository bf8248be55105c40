import RnodeHalow.Ack.Acceptance
import RnodeHalow.Ack.BitmapAck
import RnodeHalow.Ack.StrokeRuns
import RnodeHalow.Handler.Bundles

set_option autoImplicit false

namespace RnodeHalow.Ack

open Resumption Serial Handler
open Function (update update_of_ne update_self)

variable {ρ : Type} [Platform ρ]

def Call.sized (lens : Nat → Prop) : Call → Prop
  | .tx payload dest => isBroadcast dest = true ∨ lens payload.length
  | _ => True

-- A bitmap ACK that covers its number releases the bundle; while it is being sent it stays.
structure Acknowledgeable (s : Node ρ) (j : BufIx) (buf : AckBuf) : Prop where
  envelope : RnodeHalow.isEnvFrame buf.wire = true
  bundle : Ack.isEnvBundle buf.wire = true
  header : le16 buf.wire 3 = buf.seq
  numbered : buf.seq ≠ 0xFFFF#16
  released : s.owner = none → ∀ (t : Nat) (evm : Byte) (base : BitVec 16) (bm : BitVec 64)
    (dst : Option Mac) (rxEvm : Byte), (buf.seq - base).toNat < seqWindow →
      bm.getLsbD (buf.seq - base).toNat = true →
      ∃ s', (halowAckOnRx (envAckFrame evm base bm) buf.destMac dst rxEvm).run
        { s with active := t } = some (false, s') ∧
        (s'.body.bufs j = none ↔ buf.state = .inflight)

def Event.bears : Event → Bool
  | .born _ => true
  | _ => false

def Event.leaves : Event → Bool
  | .txStamped _ => true
  | _ => false

def Apart (newer older : Nat × Event) : Prop := newer.2.leaves = true → older.2.bears = false

def Wrapped (trace : History) : Prop := trace.IsChain Apart

theorem Wrapped.cons {e : Nat × Event} {trace : History} (stays : e.2.leaves = false)
    (wrapped : Wrapped trace) : Wrapped (e :: trace) :=
  List.IsChain.cons wrapped fun _ _ leaves => absurd leaves (by simp [stays])

theorem leaves_of_dates {e : Event} (undated : e.dates = false) : e.leaves = false := by
  cases e <;> first | rfl | cases undated

theorem bears_of_dates {e : Event} (undated : e.dates = false) : e.bears = false := by
  cases e <;> first | rfl | cases undated

theorem Wrapped.append {news trace : History} (wrapped : Wrapped trace)
    (undated : ∀ e ∈ news, e.2.dates = false) : Wrapped (news ++ trace) := by
  induction news with
  | nil => exact wrapped
  | cons e rest ih =>
    obtain ⟨now, before⟩ := List.forall_mem_cons.mp undated
    exact (ih before).cons (leaves_of_dates now)

theorem Wrapped.older {news trace : History} (wrapped : Wrapped (news ++ trace)) :
    Wrapped trace := List.IsChain.right_of_append wrapped

structure AtRest (trace : History) : Prop where
  wrapped : Wrapped trace
  last : ∀ e ∈ trace.head?, e.2.bears = false

theorem AtRest.cons {e : Nat × Event} {trace : History} (wrapped : Wrapped trace)
    (undated : e.2.dates = false) : AtRest (e :: trace) := by
  refine ⟨wrapped.cons (leaves_of_dates undated), ?_⟩
  rintro _ ⟨⟩
  exact bears_of_dates undated

theorem AtRest.append {news trace : History} (quiet : AtRest trace)
    (undated : ∀ e ∈ news, e.2.dates = false) : AtRest (news ++ trace) := by
  cases news with
  | nil => exact quiet
  | cons e rest =>
    obtain ⟨now, before⟩ := List.forall_mem_cons.mp undated
    exact .cons (quiet.wrapped.append before) now

theorem Aside.atRest {b b' : Body ρ} (aside : Aside b b') (quiet : AtRest b.trace) :
    AtRest b'.trace := by
  obtain ⟨news, eq, undated⟩ := aside.trace
  rw [eq]
  exact quiet.append undated

section Runs

variable {lens : Nat → Prop} (roomy : ∀ n, lens n → ¬ (4015 ≤ n ∧ n ≤ 4022))
include roomy

theorem Dated.atRest {news trace : History}
    (dated : Dated (Call.sized lens) (news.map Prod.snd)) (quiet : AtRest trace) :
    AtRest (news ++ trace) := by
  generalize same : news.map Prod.snd = events at dated
  cases dated with
  | staged i j =>
    obtain ⟨⟨n2, _⟩, rest, rfl, rfl, eq⟩ := List.map_eq_cons_iff.mp same
    obtain ⟨⟨n1, _⟩, rfl, rfl⟩ := List.map_eq_singleton_iff.mp eq
    exact .cons (quiet.wrapped.cons rfl) rfl
  | sealed i j seq data between undated =>
    obtain ⟨⟨n3, _⟩, before, rfl, rfl, eq⟩ := List.map_eq_cons_iff.mp same
    obtain ⟨middle, dating, rfl, rfl, dates⟩ := List.map_eq_append_iff.mp eq
    obtain ⟨⟨n2, _⟩, older, rfl, rfl, left⟩ := List.map_eq_cons_iff.mp dates
    obtain ⟨⟨n1, _⟩, rfl, rfl⟩ := List.map_eq_singleton_iff.mp left
    have stamped : Wrapped ((n1, .txStamped j) :: trace) :=
      List.IsChain.cons quiet.wrapped fun e member _ => quiet.last e member
    rw [List.cons_append, List.append_assoc]
    refine .cons ((stamped.cons rfl).append fun e member => ?_) rfl
    exact undated e.2 (List.mem_map_of_mem member)
  | plain j payload dest allowed unicast small large =>
    rcases allowed with broadcast | fits
    · rw [unicast] at broadcast
      cases broadcast
    · have wire : ackWireMax = 4022 := rfl
      have header : envBundleHdr = 6 := rfl
      exact absurd ⟨by omega, by omega⟩ (roomy _ fits)

theorem Stroke.atRest {b b' : Body ρ} (stroke : Stroke (Call.sized lens) b b')
    (quiet : AtRest b.trace) : AtRest b'.trace := by
  cases stroke with
  | aside aside | refreshed aside | tuned _ _ _ aside | stepped _ _ _ _ _ _ aside =>
    exact aside.atRest quiet
  | grown | shed | installed _ _ | cached => exact quiet
  | dated news dated aside => exact aside.atRest (dated.atRest roomy quiet)

theorem ReachableBy.atRest {c : Threads ρ} (h : ReachableBy (Call.sized lens) c) :
    AtRest c.body.trace := by
  refine h.keeps (J := fun b => AtRest b.trace) (fun stored r _ => ?_) fun b b' stroke => ?_
  · obtain ⟨n, eq⟩ := boot_core stored r
    have trace : (boot stored r).body.trace = [(n, .windowed (configClamp stored).window)] :=
      congrArg Core.trace eq
    rw [trace]
    exact .cons .nil rfl
  · exact stroke.atRest roomy

end Runs

def Enveloped (buf : AckBuf) : Prop :=
  buf.state ≠ .staging → buf.seq ≠ 0xFFFF#16 ∧ ∃ payloads, Handler.Carries buf.seq buf.wire payloads

def AllEnveloped (bufs : BufIx → Option AckBuf) : Prop :=
  ∀ j buf, bufs j = some buf → Enveloped buf

theorem AllEnveloped.set {bufs : BufIx → Option AckBuf} (all : AllEnveloped bufs) {j : BufIx}
    {buf : AckBuf} (new : Enveloped buf) : AllEnveloped (update bufs j (some buf)) := by
  intro k buf' held
  by_cases same : k = j
  · subst same
    rw [update_self] at held
    cases held
    exact new
  · rw [update_of_ne same] at held
    exact all k buf' held

theorem AllEnveloped.free {bufs : BufIx → Option AckBuf} (all : AllEnveloped bufs) (j : BufIx) :
    AllEnveloped (update bufs j none) := by
  intro k buf held
  by_cases same : k = j
  · subst same
    simp at held
  · rw [update_of_ne same] at held
    exact all k buf held

theorem enveloped_of_staging {buf : AckBuf} (staging : buf.state = .staging) : Enveloped buf :=
  fun sent => absurd staging sent

theorem Enveloped.same {buf buf' : AckBuf} (old : Enveloped buf) (sent : buf.state ≠ .staging)
    (seq : buf'.seq = buf.seq) (wire : buf'.wire = buf.wire) : Enveloped buf' := by
  intro _
  rw [seq, wire]
  exact old sent

theorem Calm.enveloped {c c' : Core} (move : Calm c c') (all : AllEnveloped c.bufs) :
    AllEnveloped c'.bufs := by
  cases move with
  | kick j buf due held inflight =>
    exact all.set ((all j buf held).same (ne_of_eq_of_ne inflight (by decide)) rfl rfl)
  | _ => exact all

theorem Micro.enveloped {t : Nat} {c c' : Core} (inv : Inv c) (freight : Freight c)
    (move : Micro t c c') (all : Wrapped c.trace → AllEnveloped c.bufs)
    (wrapped : Wrapped c'.trace) : AllEnveloped c'.bufs := by
  obtain ⟨news, extends', -⟩ := move.extends
  have before := all (Wrapped.older (extends' ▸ wrapped))
  have staged {i : PeerIx} {j : BufIx} {buf : AckBuf} (inUse : (c.peers i).inUse = true)
      (named : (c.peers i).aggIdx = some j) (held : c.bufs j = some buf) :
      buf.state = .staging := by
    obtain ⟨buf', held', staging, -⟩ := (inv.rep.agg_iff i inUse j).mp named
    rw [held] at held'
    cases held'
    exact staging
  cases move with
  | calm move => exact move.enveloped before
  | sample | accept | due | handOff | reconfig | reject | hear | meet | deliver => exact before
  | expire j | release j | hold i j => exact before.free j
  | stage i j blk cap n1 n2 payload =>
    exact (before.set (enveloped_of_staging rfl)).set (enveloped_of_staging rfl)
  | append i j buf payload inUse named held =>
    have staging := staged inUse named held
    exact before.set (enveloped_of_staging staging)
  | launch i j buf p n1 n2 n3 inUse named held =>
    refine before.set fun _ => ⟨takeSeq_numbered _, pendingOf i c.trace, ?_⟩
    exact carries_of_staged inv freight.books freight.loaded inUse named held
  | plain i j blk payload n1 n2 =>
    have apart := (List.isChain_cons.mp wrapped).1 _ rfl rfl
    cases apart
  | touch j buf τ held inflight | mark j buf τ held inflight =>
    exact before.set ((before j buf held).same (ne_of_eq_of_ne inflight (by decide)) rfl rfl)
  | sentOff j buf held sending =>
    exact before.set ((before j buf held).same (not_staging sending) rfl rfl)

theorem ReachableBy.enveloped {lens : Nat → Prop} (roomy : ∀ n, lens n → ¬ (4015 ≤ n ∧ n ≤ 4022))
    {c : Threads ρ} (h : ReachableBy (Call.sized lens) c) : AllEnveloped c.body.bufs := by
  have kept : Freight (core c.body) ∧
      (Wrapped c.body.trace → AllEnveloped c.body.bufs) := by
    refine h.reachable.moves (J := fun c => Freight c ∧ (Wrapped c.trace → AllEnveloped c.bufs))
      (fun cfg n _ => ⟨freight_initial cfg n, ?_⟩) fun t c c' inv move ⟨freight, all⟩ => ?_
    · rintro _ j buf ⟨⟩
    · exact ⟨Micro.freight inv move freight, move.enveloped inv freight all⟩
  exact kept.2 (h.atRest roomy).wrapped

theorem envAckFrame_isEnvFrame (evm : Byte) (base : BitVec 16) (bm : BitVec 64) :
    RnodeHalow.isEnvFrame (envAckFrame evm base bm) = true := rfl

theorem envAckCovers_of_bit {base : BitVec 16} {bm : BitVec 64} {buf : AckBuf}
    (numbered : buf.seq ≠ 0xFFFF#16) (near : (buf.seq - base).toNat < seqWindow)
    (bit : bm.getLsbD (buf.seq - base).toNat = true) : envAckCovers base bm buf = true := by
  simp only [envAckCovers, Bool.and_eq_true, decide_eq_true_eq]
  exact ⟨⟨numbered, near⟩, (and_one_ne_zero_iff bm _).mpr bit⟩

theorem halowAckOnRx_releases {s : Node ρ} (inv : Inv (core s.body)) (free : s.owner = none)
    {j : BufIx} {buf : AckBuf} (held : s.body.bufs j = some buf) {base : BitVec 16}
    {bm : BitVec 64} (covers : envAckCovers base bm buf = true) (evm : Byte) (dst : Option Mac)
    (rxEvm : Byte) :
    Alone (halowAckOnRx (envAckFrame evm base bm) buf.destMac dst rxEvm) s fun r s' =>
      r = false ∧ (s'.body.bufs j = none ↔ buf.state = .inflight) := by
  obtain ⟨i, found⟩ : ∃ i, peerFind s.body buf.destMac = some i := by
    obtain ⟨k, inUse, mac⟩ := inv.rep.owned j buf held
    rw [← Option.isSome_iff_exists, Option.isSome_iff_ne_none]
    exact fun none => peerFind_none none k inUse mac
  unfold halowAckOnRx
  rw [if_pos (envAckFrame_isEnvFrame evm base bm)]
  refine .seq (.mono (rxEnv_released free inv.rep.idx_eq found evm base bm) ?_)
  rintro _ s' ⟨rfl, released⟩
  refine .pure false ⟨rfl, ?_⟩
  have freed := released.freed j
  rw [held] at freed
  simpa [Acked, covers] using freed

theorem Enveloped.acknowledgeable {s : Node ρ} (inv : Inv (core s.body)) {j : BufIx} {buf : AckBuf}
    (held : s.body.bufs j = some buf) (sent : buf.state ≠ .staging) (enveloped : Enveloped buf) :
    Acknowledgeable s j buf := by
  obtain ⟨numbered, payloads, carries⟩ := enveloped sent
  refine ⟨carries.isEnvFrame, carries.isEnvBundle, carries.header, numbered, ?_⟩
  intro free t evm base bm dst rxEvm near bit
  have covers := envAckCovers_of_bit numbered near bit
  obtain ⟨r, s', run, rfl, gone⟩ := halowAckOnRx_releases (s := { s with active := t }) inv free
    held covers evm dst rxEvm
  exact ⟨s', run, gone⟩

def longPayload (n : Nat) : List (Move Board) :=
  [.start 1 (.tx (List.replicate n 0) ⟨2, 0, 0, 0, 0, 1⟩), .resume 1, .resume 1]

theorem longPayload_unnumbered (k : Fin 8) :
    ((playAll (longPayload (4015 + k)) quietNode).any
      fun c => (c.body.bufs 0).any fun buf =>
        decide (buf.state = .sending ∧ buf.seq = 0xFFFF#16)) = true := by
  revert k
  decide +kernel

theorem unnumbered_reachable {lens : Nat → Prop} {n : Nat} (lower : 4015 ≤ n) (upper : n ≤ 4022)
    (fits : lens n) : ∃ (c : Threads Board) (buf : AckBuf), ReachableBy (Call.sized lens) c ∧
      c.body.bufs 0 = some buf ∧ buf.state = .sending ∧ buf.seq = 0xFFFF#16 := by
  have run := longPayload_unnumbered ⟨n - 4015, by omega⟩
  rw [show 4015 + (n - 4015) = n by omega] at run
  obtain ⟨c, played, test⟩ := (Option.any_eq_true _ _).mp run
  obtain ⟨buf, held, sent⟩ := (Option.any_eq_true _ _).mp test
  refine ⟨c, buf, ?_, held, of_decide_eq_true sent⟩
  refine playAll_steps (fun m member => ?_) (.start _ ⟨_, _, trivial, rfl⟩) played
  simp only [longPayload, List.mem_cons, List.not_mem_nil, or_false] at member
  rcases member with rfl | rfl | rfl
  · intro ticks
    refine ⟨.tx (List.replicate n 0) ⟨2, 0, 0, 0, 0, 1⟩, Or.inr ?_, rfl, ticks⟩
    rw [List.length_replicate]
    exact fits
  · trivial
  · trivial

theorem tracked_acknowledgeable_iff (lens : Nat → Prop) :
    (∀ (ρ : Type) [Platform ρ] (c : Threads ρ), ReachableBy (Call.sized lens) c →
      ∀ j buf, c.body.bufs j = some buf → buf.state = .inflight ∨ buf.state = .sending →
        Acknowledgeable c.shared j buf) ↔ ∀ n, lens n → ¬ (4015 ≤ n ∧ n ≤ 4022) := by
  constructor
  · rintro always n fits ⟨lower, upper⟩
    obtain ⟨c, buf, reach, held, sending, unnumbered⟩ := unnumbered_reachable lower upper fits
    exact (always Board c reach 0 buf held (.inr sending)).numbered unnumbered
  · intro roomy ρ inst c reach j buf held sent
    have tracked : buf.state ≠ .staging := by
      rcases sent with state | state <;> rw [state] <;> decide
    exact (reach.enveloped roomy j buf held).acknowledgeable reach.reachable.inv held tracked

theorem tracked_acknowledgeable_short : (∀ n, n ≤ 4014 → ¬ (4015 ≤ n ∧ n ≤ 4022)) ∧
    ∀ (ρ : Type) [Platform ρ] (c : Threads ρ), ReachableBy (Call.sized fun n => n ≤ 4014) c →
      ∀ j buf, c.body.bufs j = some buf → buf.state = .inflight ∨ buf.state = .sending →
        Acknowledgeable c.shared j buf := by
  have roomy (n : Nat) (short : n ≤ 4014) : ¬ (4015 ≤ n ∧ n ≤ 4022) := by omega
  exact ⟨roomy, (tracked_acknowledgeable_iff _).mpr roomy⟩

theorem tracked_without_number : ∃ (c : Threads Board) (buf : AckBuf),
    playAll (longPayload 4015) quietNode = some c ∧
      Reachable c ∧ c.body.bufs 0 = some buf ∧ buf.state = .sending ∧
      buf.seq = 0xFFFF#16 ∧ RnodeHalow.isEnvFrame buf.wire = false ∧
      ¬ Acknowledgeable c.shared 0 buf := by
  have run : ∃ c ∈ playAll (longPayload 4015) quietNode,
      ∃ buf ∈ c.body.bufs 0, buf.state = .sending ∧ buf.seq = 0xFFFF#16 ∧
        RnodeHalow.isEnvFrame buf.wire = false := by
    decide +kernel
  obtain ⟨c, script, reach, buf, held, sending, unnumbered, plain⟩ := played run
  exact ⟨c, buf, script, reach, held, sending, unnumbered, plain,
    fun fine => fine.numbered unnumbered⟩

end RnodeHalow.Ack
