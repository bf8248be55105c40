import RnodeHalow.Handler.Routing
import RnodeHalow.Rns.LinkRequests

set_option autoImplicit false

namespace RnodeHalow.Handler

open Rns RnodeHalow.Stream

structure TxStatistics where
  txPackets : BitVec 64
  txBytes : BitVec 64
  deriving DecidableEq

def statisticsRadioRegisterTxPackage (len : Nat) (st : TxStatistics) : TxStatistics :=
  ⟨st.txPackets + 1, st.txBytes + BitVec.ofNat 64 len⟩

def boardStatistics (board : Radio.Board) : TxStatistics :=
  ⟨BitVec.ofNat 64 board.txPackages, BitVec.ofNat 64 board.txBytes⟩

theorem txRegister_statistics (payload : List Byte) (dest : Mac) (t : Nat)
    (b : Ack.Body Radio.Board) :
    boardStatistics (Ack.txRegister payload dest t b).2.plat =
      statisticsRadioRegisterTxPackage payload.length (boardStatistics b.plat) := by
  change (⟨BitVec.ofNat 64 (b.plat.txPackages + 1),
    BitVec.ofNat 64 (b.plat.txBytes + payload.length)⟩ : TxStatistics) = _
  rw [BitVec.ofNat_add, BitVec.ofNat_add]
  rfl

structure Uplink where
  handler : PkgHandler
  radio : TxStatistics
  ambients : Nat → Ambient
  answers : List Int
  -- a refused frame, as the handler has left it in the buffer of the decoder
  rewritten : Option (List Byte)

def Uplink.fresh (handler : PkgHandler) (radio : TxStatistics) (ambients : Nat → Ambient)
    (answers : List Int) : Uplink := ⟨handler, radio, ambients, answers, none⟩

def rnsTcpRxHandler (sha256 : List Byte → Vector Byte 32) : FrameCb Uplink := fun frame u =>
  let r := u.handler.tcpToRf sha256 (u.rewritten.getD frame) (u.ambients 0)
  let after : Uplink :=
    { u with handler := r.1, ambients := fun n => u.ambients (n + 1), rewritten := none }
  match r.2 with
  | none => (0, after)
  | some (sent, _) =>
    let answer := u.answers.headD 0
    (answer,
      { after with
        radio := statisticsRadioRegisterTxPackage sent.length u.radio
        answers := u.answers.tail
        rewritten := if throttled answer then some sent else none })

variable {sha256 : List Byte → Vector Byte 32}

theorem tcpToRf_unparsed {pkg : List Byte} {e : Ret} (h : PkgHandler) (amb : Ambient)
    (failed : rnsLinkParserParse sha256 pkg = .error e) : h.tcpToRf sha256 pkg amb = (h, none) := by
  rw [PkgHandler.tcpToRf, failed]

theorem tcpToRf_sent {pkg : List Byte} {info : PacketInfo} (h : PkgHandler) (amb : Ambient)
    (parsed : rnsLinkParserParse sha256 pkg = .ok info) :
    ∃ sent dest, (h.tcpToRf sha256 pkg amb).2 = some (sent, dest) ∧ Alike sha256 pkg sent := by
  rw [PkgHandler.tcpToRf, parsed]
  dsimp only
  split
  · exact ⟨_, _, rfl, clampMtu_alike parsed _⟩
  · split
    · exact ⟨pkg, _, rfl, .refl pkg⟩
    · exact ⟨pkg, _, rfl, .refl pkg⟩

def parses (sha256 : List Byte → Vector Byte 32) (frame : List Byte) : Bool :=
  (rnsLinkParserParse sha256 frame).isOk

def offeredPackets (sha256 : List Byte → Vector Byte 32) (frame : List Byte) : Nat :=
  if parses sha256 frame then 1 else 0

def offeredBytes (sha256 : List Byte → Vector Byte 32) (frame : List Byte) : Nat :=
  if parses sha256 frame then frame.length else 0

structure Counted (sha256 : List Byte → Vector Byte 32) (frame : List Byte) (u : Uplink)
    (answer : Int) (v : Uplink) : Prop where
  packets : v.radio.txPackets = u.radio.txPackets + BitVec.ofNat 64 (offeredPackets sha256 frame)
  bytes : v.radio.txBytes = u.radio.txBytes + BitVec.ofNat 64 (offeredBytes sha256 frame)
  refused : throttled answer = true →
    parses sha256 frame = true ∧ ∃ sent, v.rewritten = some sent ∧ Alike sha256 frame sent
  taken : throttled answer = false → v.rewritten = none

variable {u v : Uplink} {log : FrameOffers}

theorem rxHandler_counted {frame : List Byte}
    (alike : Alike sha256 frame (u.rewritten.getD frame)) :
    Counted sha256 frame u (rnsTcpRxHandler sha256 frame u).1
      (rnsTcpRxHandler sha256 frame u).2 := by
  unfold rnsTcpRxHandler
  cases parsed : rnsLinkParserParse sha256 frame with
  | error e =>
    have fails : parses sha256 frame = false := by
      rw [parses, parsed]
      rfl
    rw [tcpToRf_unparsed u.handler (u.ambients 0) (alike.parse.trans parsed)]
    exact
      { packets := by simp [offeredPackets, fails]
        bytes := by simp [offeredBytes, fails]
        refused := fun no => absurd (show throttled 0 = true from no) (by decide)
        taken := fun _ => rfl }
  | ok info =>
    have succeeds : parses sha256 frame = true := by
      rw [parses, parsed]
      rfl
    obtain ⟨sent, dest, result, alike'⟩ :=
      tcpToRf_sent u.handler (u.ambients 0) (alike.parse.trans parsed)
    have whole : Alike sha256 frame sent := alike.trans alike'
    simp only [result]
    exact
      { packets := by simp [offeredPackets, succeeds, statisticsRadioRegisterTxPackage]
        bytes := by simp [offeredBytes, succeeds, statisticsRadioRegisterTxPackage, whole.length]
        refused := fun no => ⟨succeeds, sent, if_pos no, whole⟩
        taken := fun yes => if_neg (Bool.eq_false_iff.mp yes) }

structure Tallied (sha256 : List Byte → Vector Byte 32) (u : Uplink) (log : FrameOffers)
    (v : Uplink) : Prop where
  packets : v.radio.txPackets =
    u.radio.txPackets + BitVec.ofNat 64 (log.map fun offer => offeredPackets sha256 offer.1).sum
  bytes : v.radio.txBytes =
    u.radio.txBytes + BitVec.ofNat 64 (log.map fun offer => offeredBytes sha256 offer.1).sum
  parsed : ∀ offer ∈ log, throttled offer.2 = true → parses sha256 offer.1 = true
  next : ∀ frame, (∀ offer ∈ log.head?, throttled offer.2 = true → frame = offer.1) →
    Alike sha256 frame (v.rewritten.getD frame)

theorem Tallied.offer {u v w : Uplink} {frame : List Byte} {answer : Int}
    (tallied : Tallied sha256 u log v) (counted : Counted sha256 frame v answer w) :
    Tallied sha256 u ((frame, answer) :: log) w where
  packets := by
    rw [counted.packets, tallied.packets, List.map_cons, List.sum_cons, Nat.add_comm,
      BitVec.ofNat_add, BitVec.add_assoc]
  bytes := by
    rw [counted.bytes, tallied.bytes, List.map_cons, List.sum_cons, Nat.add_comm,
      BitVec.ofNat_add, BitVec.add_assoc]
  parsed := List.forall_mem_cons.mpr ⟨fun no => (counted.refused no).1, tallied.parsed⟩
  next other first := by
    cases outcome : throttled answer with
    | false =>
      rw [counted.taken outcome]
      exact .refl other
    | true =>
      obtain ⟨-, sent, kept, alike⟩ := counted.refused outcome
      rw [first (frame, answer) rfl outcome, kept]
      exact alike

theorem replay_tallied (clean : u.rewritten = none) (told : Told (rnsTcpRxHandler sha256) u log)
    (patient : Offers.Patient throttled log) :
    Tallied sha256 u log (replay (rnsTcpRxHandler sha256) u log) := by
  induction log with
  | nil =>
    exact
      { packets := (BitVec.add_zero _).symm
        bytes := (BitVec.add_zero _).symm
        parsed := nofun
        next := fun frame _ => by
          rw [replay, clean]
          exact .refl frame }
  | cons offer old ih =>
    obtain ⟨first, later⟩ := List.isChain_cons.mp patient
    have before := ih told.2 later
    have now := rxHandler_counted (before.next offer.1 first)
    rw [← told.1] at now
    exact before.offer now

structure SameBooks (u v : Uplink) : Prop where
  handler : u.handler = v.handler
  radio : u.radio = v.radio
  ambients : u.ambients = v.ambients

theorem rxHandler_books (same : SameBooks u v) (rewritten : u.rewritten = v.rewritten)
    (frame : List Byte) :
    SameBooks (rnsTcpRxHandler sha256 frame u).2 (rnsTcpRxHandler sha256 frame v).2 := by
  obtain ⟨handler, radio, ambients⟩ := same
  unfold rnsTcpRxHandler
  rw [handler, radio, ambients, rewritten]
  dsimp only
  split <;> exact ⟨rfl, rfl, rfl⟩

theorem rxHandler_unrefused {frame : List Byte}
    (yes : ¬throttled (rnsTcpRxHandler sha256 frame u).1 = true) :
    (rnsTcpRxHandler sha256 frame u).2.rewritten = none := by
  unfold rnsTcpRxHandler at yes ⊢
  dsimp only at yes ⊢
  cases result : (u.handler.tcpToRf sha256 (u.rewritten.getD frame) (u.ambients 0)).2 with
  | none => rfl
  | some sent =>
    rw [result] at yes
    exact if_neg yes

theorem replay_clean (clean : u.rewritten = none) (told : Told (rnsTcpRxHandler sha256) u log)
    (free : Offers.refusals throttled log = 0) :
    (replay (rnsTcpRxHandler sha256) u log).rewritten = none := by
  cases log with
  | nil => exact clean
  | cons offer old =>
    have yes : ¬throttled offer.2 = true := List.countP_eq_zero.mp free offer List.mem_cons_self
    rw [told.1] at yes
    exact rxHandler_unrefused yes

theorem replay_books {log log' : FrameOffers} (same : SameBooks u v) (clean : u.rewritten = none)
    (clean' : v.rewritten = none) (told : Told (rnsTcpRxHandler sha256) u log)
    (told' : Told (rnsTcpRxHandler sha256) v log') (frames : log.map Prod.fst = log'.map Prod.fst)
    (free : Offers.refusals throttled log = 0) (free' : Offers.refusals throttled log' = 0) :
    SameBooks (replay (rnsTcpRxHandler sha256) u log) (replay (rnsTcpRxHandler sha256) v log') := by
  have older {offer : List Byte × Int} {old : FrameOffers}
      (free : Offers.refusals throttled (offer :: old) = 0) :
      Offers.refusals throttled old = 0 :=
    Nat.le_zero.mp (free ▸ (List.sublist_cons_self offer old).countP_le)
  induction log generalizing log' with
  | nil =>
    obtain rfl : log' = [] := List.map_eq_nil_iff.mp frames.symm
    exact same
  | cons offer old ih =>
    obtain ⟨offer', old', rfl, head, rest⟩ := List.map_eq_cons_iff.mp frames.symm
    have before := ih told.2 told'.2 rest.symm (older free) (older free')
    have rewritten := (replay_clean clean told.2 (older free)).trans
      (replay_clean clean' told'.2 (older free')).symm
    rw [replay, replay, head]
    exact rxHandler_books before rewritten offer.1

theorem rxHandler_unscheduled (free : u.answers = []) (frame : List Byte) :
    (rnsTcpRxHandler sha256 frame u).1 = 0 ∧ (rnsTcpRxHandler sha256 frame u).2.answers = [] := by
  unfold rnsTcpRxHandler
  dsimp only
  rw [free]
  split <;> exact ⟨rfl, rfl⟩

theorem replay_unscheduled (free : u.answers = []) (told : Told (rnsTcpRxHandler sha256) u log) :
    (replay (rnsTcpRxHandler sha256) u log).answers = [] ∧ Offers.refusals throttled log = 0 := by
  induction log with
  | nil => exact ⟨free, rfl⟩
  | cons offer old ih =>
    obtain ⟨answers, before⟩ := ih told.2
    obtain ⟨taken, after⟩ := rxHandler_unscheduled answers offer.1
    refine ⟨after, ?_⟩
    rw [Offers.refusals, List.countP_cons_of_neg]
    · exact before
    · rw [told.1, taken]
      decide

def linkTx (u : Uplink) (id : LinkId) : Option (BitVec 32 × BitVec 32) :=
  (u.handler.db.record id).map fun r => (r.txPackets, r.txBytes)

def refusedBytes (offers : FrameOffers) : Nat :=
  ((offers.filter fun offer => throttled offer.2).map fun offer => offer.1.length).sum

theorem sum_refused {f g : List Byte → Nat}
    (same : ∀ offer ∈ log, throttled offer.2 = true → f offer.1 = g offer.1) :
    ((log.filter fun offer => throttled offer.2).map fun offer => f offer.1).sum =
      ((log.filter fun offer => throttled offer.2).map fun offer => g offer.1).sum := by
  congr 1
  apply List.map_congr_left
  intro offer mem
  obtain ⟨mem, no⟩ := List.mem_filter.mp mem
  exact same offer mem no

theorem Tallied.split (tallied : Tallied sha256 u log v) :
    v.radio.txPackets = u.radio.txPackets +
      BitVec.ofNat 64 ((Offers.taken throttled log).map (offeredPackets sha256)).sum +
        BitVec.ofNat 64 (Offers.refusals throttled log) ∧
    v.radio.txBytes = u.radio.txBytes +
      BitVec.ofNat 64 ((Offers.taken throttled log).map (offeredBytes sha256)).sum +
        BitVec.ofNat 64 (refusedBytes log) := by
  have packets : ((log.filter fun offer => throttled offer.2).map fun offer =>
      offeredPackets sha256 offer.1).sum = Offers.refusals throttled log := by
    rw [sum_refused (g := fun _ => 1) fun offer mem no => if_pos (tallied.parsed offer mem no),
      List.map_const', List.sum_replicate, smul_eq_mul, mul_one, Offers.refusals,
      List.countP_eq_length_filter]
  have bytes : ((log.filter fun offer => throttled offer.2).map fun offer =>
      offeredBytes sha256 offer.1).sum = refusedBytes log :=
    sum_refused fun offer mem no => if_pos (tallied.parsed offer mem no)
  constructor
  · rw [tallied.packets, @Offers.sum_offered _ _ throttled (offeredPackets sha256) log, packets,
      BitVec.ofNat_add, BitVec.add_assoc]
  · rw [tallied.bytes, @Offers.sum_offered _ _ throttled (offeredBytes sha256) log, bytes,
      BitVec.ofNat_add, BitVec.add_assoc]

def uplinkRun (sha256 : List Byte → Vector Byte 32) (cap : Nat) (u : Uplink)
    (chunks : List (List Byte)) (actions : List Action) : Session cap Uplink :=
  (Session.start u chunks).run (rnsTcpRxHandler sha256) actions

structure Finished (sha256 : List Byte → Vector Byte 32) (cap : Nat) (u : Uplink)
    (stream : List Byte) (s : Session cap Uplink) : Prop where
  user : s.user = replay (rnsTcpRxHandler sha256) u s.offers
  told : Told (rnsTcpRxHandler sha256) u s.offers
  tallied : Tallied sha256 u s.offers s.user
  taken : Offers.taken throttled s.offers = decodeBytewise cap stream

theorem uplinkRun_finished {cap : Nat} {chunks : List (List Byte)} {actions : List Action}
    (short : ∀ chunk ∈ chunks, chunk.length ≤ 65535) (clean : u.rewritten = none)
    (idle : (uplinkRun sha256 cap u chunks actions).load = 0) :
    Finished sha256 cap u chunks.flatten (uplinkRun sha256 cap u chunks actions) := by
  have start : Session.Reads _ [] (Session.start u chunks : Session cap Uplink) :=
    Session.reads_start u short
  obtain ⟨_, reads⟩ := Session.run_reads (rnsTcpRxHandler sha256) start actions
  have replays : Replays (rnsTcpRxHandler sha256) u
      ((Session.start u chunks : Session cap Uplink).user, []) := ⟨rfl, trivial⟩
  obtain ⟨user, told⟩ := Session.run_replays (rnsTcpRxHandler sha256) u replays actions
  have tallied := replay_tallied clean told reads.patient
  rw [← user] at tallied
  exact ⟨user, told, tallied, reads.complete idle⟩

-- Once the stream is through, the statistics show one frame too many for each refusal.
theorem refusals_counted (sha256 : List Byte → Vector Byte 32) (cap : Nat) (handler : PkgHandler)
    (radio : TxStatistics) (ambients : Nat → Ambient) (answers : List Int)
    (chunks : List (List Byte)) (actions actions' : List Action)
    (short : ∀ chunk ∈ chunks, chunk.length ≤ 65535)
    (idle : (uplinkRun sha256 cap (.fresh handler radio ambients answers) chunks actions).load = 0)
    (idle' : (uplinkRun sha256 cap (.fresh handler radio ambients []) chunks actions').load = 0) :
    let s := uplinkRun sha256 cap (.fresh handler radio ambients answers) chunks actions
    let s' := uplinkRun sha256 cap (.fresh handler radio ambients []) chunks actions'
    s.user.radio.txPackets = s'.user.radio.txPackets + BitVec.ofNat 64 s.refusals ∧
    s.user.radio.txBytes = s'.user.radio.txBytes + BitVec.ofNat 64 (refusedBytes s.offers) ∧
    (s.refusals = 0 →
      s.user.radio = s'.user.radio ∧ ∀ id, linkTx s.user id = linkTx s'.user id) ∧
    (s.user.radio = s'.user.radio → 2 ^ 64 ∣ s.refusals) := by
  intro s s'
  have done : Finished sha256 cap _ _ s := uplinkRun_finished short rfl idle
  have done' : Finished sha256 cap _ _ s' := uplinkRun_finished short rfl idle'
  have free' : Offers.refusals throttled s'.offers = 0 := (replay_unscheduled rfl done'.told).2
  obtain ⟨packets, bytes⟩ := done.tallied.split
  obtain ⟨packets', bytes'⟩ := done'.tallied.split
  have nothing : refusedBytes s'.offers = 0 := by
    rw [refusedBytes, List.filter_eq_nil_iff.mpr (List.countP_eq_zero.mp free')]
    rfl
  rw [done.taken] at packets bytes
  rw [done'.taken, free'] at packets'
  rw [done'.taken, nothing] at bytes'
  have more : s.user.radio.txPackets = s'.user.radio.txPackets + BitVec.ofNat 64 s.refusals := by
    rw [packets, packets']
    exact congrArg (· + BitVec.ofNat 64 s.refusals) (BitVec.add_zero _).symm
  refine ⟨more, ?_, ?_, ?_⟩
  · rw [bytes, bytes']
    exact congrArg (· + BitVec.ofNat 64 (refusedBytes s.offers)) (BitVec.add_zero _).symm
  · intro free
    have frames : s.offers.map Prod.fst = s'.offers.map Prod.fst := by
      have same := done.taken.trans done'.taken.symm
      rw [Offers.taken_unrefused free, Offers.taken_unrefused free'] at same
      exact List.reverse_injective same
    have start : SameBooks (.fresh handler radio ambients answers)
        (.fresh handler radio ambients []) := ⟨rfl, rfl, rfl⟩
    have books := replay_books start rfl rfl done.told done'.told frames free free'
    rw [← done.user, ← done'.user] at books
    exact ⟨books.radio, fun id => by rw [linkTx, books.handler]; rfl⟩
  · intro same
    rw [same] at more
    have zero : BitVec.ofNat 64 s.refusals = 0 := by
      have cancel := congrArg (· - s'.user.radio.txPackets) more
      simpa using cancel.symm
    have value := congrArg BitVec.toNat zero
    rw [BitVec.toNat_ofNat] at value
    exact Nat.dvd_of_mod_eq_zero value

def linkStream : List Byte := rnsStreamFlag :: (linkFrame someLink 0x00#8 ++ [rnsStreamFlag])

def linkUplink (answers : List Int) : Session rnsStreamMaxFrameSize Uplink :=
  uplinkRun noHash rnsStreamMaxFrameSize
    (.fresh PkgHandler.init ⟨0, 0⟩ (fun _ => wideAwake) answers) [linkStream] (Session.rounds 2)

theorem refusals_counted_twice :
    (linkUplink [Ack.txThrottle]).user.radio.txPackets =
      (linkUplink []).user.radio.txPackets + BitVec.ofNat 64 (linkUplink [Ack.txThrottle]).refusals :=
  (refusals_counted noHash rnsStreamMaxFrameSize PkgHandler.init ⟨0, 0⟩ (fun _ => wideAwake)
    [Ack.txThrottle] [linkStream] (Session.rounds 2) (Session.rounds 2) (by decide)
    (by decide +kernel) (by decide +kernel)).1

theorem refused_frame_counted_twice :
    (linkUplink [Ack.txThrottle]).accepted = (linkUplink []).accepted ∧
      (linkUplink [Ack.txThrottle]).load = 0 ∧ (linkUplink []).load = 0 ∧
      (linkUplink []).user.radio = ⟨1, 19⟩ ∧ (linkUplink [Ack.txThrottle]).user.radio = ⟨2, 38⟩ ∧
      linkTx (linkUplink []).user someLink = some (1, 0) ∧
      linkTx (linkUplink [Ack.txThrottle]).user someLink = some (2, 0) := by
  decide +kernel

end RnodeHalow.Handler
