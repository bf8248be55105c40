import RnodeHalow.Handler.Redirect
import RnodeHalow.Shared.Phases

set_option autoImplicit false

namespace RnodeHalow.Handler

open Resumption Rns Ack

variable {ρ : Type} [Platform ρ]

abbrev onlySends (payload : List Byte) (dest : Mac) : Frame (Body ρ) :=
  growth fun e => ∀ data addr mcs tid, e = .txP data addr mcs tid → data = payload ∧ addr = dest

variable {payload : List Byte} {dest : Mac}

omit [Platform ρ] in
theorem onlySends_platform {α : Type} (op : ρ → α × ρ) :
    (onlySends payload dest).Around (platform op) := fun _ _ => ⟨[], rfl, by simp⟩

theorem onlySends_halowTx (mcs : Byte) :
    (onlySends payload dest).Around (halowTx payload dest mcs : Code ρ Int) := by
  intro t b
  refine ⟨[(Platform.jiffies b.plat, .txP payload dest mcs 0#8)], rfl, fun e member => ?_⟩
  rw [List.mem_singleton.mp member]
  intro data addr mcs tid eq
  injection eq with same there _ _
  exact ⟨same.symm, there.symm⟩

theorem onlySends_bcRepeatLoop (n : Nat) :
    (onlySends payload dest).Around (bcRepeatLoop payload dest n : Code ρ Unit) := by
  induction n with
  | zero => exact .pure ()
  | succ n ih =>
    refine (onlySends_platform _).bind fun vacancy => .when ?_
    refine (onlySends_halowTx _).bind fun r => .when ?_
    exact Frame.Around.bind (growth_modify fun _ => rfl) fun _ => ih

theorem onlySends_txBroadcast :
    (onlySends payload dest).Around (txBroadcast payload dest : Code ρ Int) := by
  refine (Frame.Around.read _).bind fun bcRepeat => (onlySends_halowTx _).bind fun r => ?_
  exact .ite ((onlySends_bcRepeatLoop _).bind fun _ => .pure _) (.pure _)

theorem onlySends_halowAckTx (everyone : isBroadcast dest = true) :
    (onlySends payload dest).Throughout (halowAckTx payload dest : Prog (Node ρ) Int) := by
  refine .of_phases (.bind (.sec fun _ => ?_) fun _ => .bind ?_ fun r => .bind (.sec fun _ => ?_)
    fun _ => .pure _)
  · refine Frame.Around.bind (F := onlySends payload dest) ?_ fun _ => onlySends_platform _
    exact growth_modify fun _ => rfl
  · refine .bind (.sec fun _ => .read _) fun cfg => ?_
    have plain : noack cfg payload.length dest = true := by simp [noack, everyone]
    rw [plain, if_pos rfl]
    refine .sec fun _ => ?_
    refine Frame.Around.bind (F := onlySends payload dest) ?_ fun _ => onlySends_txBroadcast
    exact growth_modify fun _ => rfl
  · refine Frame.Around.when (F := onlySends payload dest) ?_
    exact growth_modify fun _ => rfl

def keepsBufs : Frame (Body ρ) where
  rel b b' := b'.bufs = b.bufs
  refl _ := rfl
  trans first second := second.trans first

omit [Platform ρ] in
theorem keepsBufs_modify {f : Body ρ → Body ρ} (same : ∀ b, (f b).bufs = b.bufs) :
    keepsBufs.Around (Sec.modify f) := fun _ => same

theorem keepsBufs_halowTxP (data : List Byte) (addr : Mac) (mcs tid : Byte) :
    keepsBufs.Around (halowTxP data addr mcs tid : Code ρ Int) := fun _ _ => rfl

theorem keepsBufs_sendAck (evm : Byte) (addr : Mac) (fids : List (BitVec 16)) :
    keepsBufs.phases.Governs (sendAck evm addr fids : Prog (Node ρ) Unit) := by
  refine .bind ?_ fun mcs => .bind (.sec fun _ => keepsBufs_modify fun _ => rfl) fun _ => ?_
  · refine .bind .lock fun _ => .bind (.sec fun _ => .read _) fun mcs => ?_
    exact .bind .unlock fun _ => .pure mcs
  refine .bind .lock fun _ => .bind (.sec fun _ => .read _) fun env => .bind .unlock fun _ => ?_
  cases env with
  | some window =>
    refine .sec fun _ => ?_
    exact .bind (keepsBufs_halowTxP _ _ _ _) fun r => keepsBufs_modify fun _ => rfl
  | none =>
    refine .sec fun _ => (Frame.Around.read _).bind fun cfg => ?_
    exact .bind (keepsBufs_halowTxP _ _ _ _) fun r => keepsBufs_modify fun _ => rfl

theorem keepsBufs_rxDataNoted (pkg : List Byte) (src : Mac) (evm : Byte) :
    keepsBufs.Around (rxDataNoted pkg src (some macBroadcast) evm :
      Code ρ (Bool × Option (List (BitVec 16)))) := by
  refine Frame.Around.bind ?_ fun r => .bind (.when ?_) fun _ => .pure r
  · have everyone : isToMe (some macBroadcast) = false := by decide
    rw [everyone]
    refine (Frame.Around.read _).bind fun found => ?_
    cases found with
    | none => exact .bind (.when (keepsBufs_modify fun _ => rfl)) fun _ => .pure _
    | some i => exact Frame.Around.bind (keepsBufs_modify fun _ => rfl) fun _ => .pure _
  · exact Frame.Around.self.bind fun t => keepsBufs_modify fun _ => rfl

theorem keepsBufs_rxData (pkg : List Byte) (src : Mac) (evm : Byte) :
    keepsBufs.phases.Governs (rxData pkg src (some macBroadcast) evm : Prog (Node ρ) Bool) := by
  refine .bind .lock fun _ => .bind (.sec fun _ => keepsBufs_rxDataNoted pkg src evm) fun r => ?_
  refine .bind .unlock fun _ => ?_
  cases r.2 with
  | none => exact .pure _
  | some fids => exact .bind (keepsBufs_sendAck evm src fids) fun _ => .pure _

variable {pkg : List Byte}

theorem isEnvFrame_of_bundle (bundle : Handler.isEnvBundle pkg = true) : isEnvFrame pkg = true := by
  simp only [Handler.isEnvBundle, envBundleHdr, Bool.and_eq_true, decide_eq_true_eq, beq_iff_eq]
    at bundle
  obtain ⟨⟨⟨⟨long, first⟩, second⟩, -⟩, ver⟩ := bundle
  have long := of_decide_eq_true long
  have small : byteAt pkg 2 < 0x80#8 := by
    change (byteAt pkg 2).toNat < 128
    rw [halowEnvVer, Nat.shiftRight_eq_div_pow, envVer] at ver
    omega
  simp only [isEnvFrame, Bool.and_eq_true, decide_eq_true_eq, beq_iff_eq]
  exact ⟨⟨⟨by omega, first⟩, second⟩, small⟩

theorem rxEnv_bundle {src : Mac} {s last : Node ρ} {states : List (Node ρ)}
    (course : (rxEnv pkg src s).Course states false last) : Ack.isEnvBundle pkg = true := by
  by_contra other
  rw [Bool.not_eq_true] at other
  unfold rxEnv at course
  rw [other] at course
  split at course
  · obtain ⟨_, _, _, _, -, -, inside⟩ := Res.Course.bind course
    obtain ⟨_, _, _, _, -, -, leaving⟩ := Res.Course.bind inside
    obtain ⟨_, _, _, _, -, -, result⟩ := Res.Course.bind leaving
    exact absurd (pure_course result).2.1 (by decide)
  · obtain ⟨_, _, _, _, -, -, result⟩ := Res.Course.bind course
    exact absurd (pure_course result).2.1 (by decide)

theorem ours_refused (ours : ¬(isEnvFrame pkg = false ∧ isAckFrame pkg = false)) {src : Mac}
    {dst : Option Mac} {evm : Byte} {s last : Node ρ} {states : List (Node ρ)} {answer : Bool}
    (course : (halowAckOnRx pkg src dst evm s).Course states answer last) :
    answer = false ∨ Handler.isEnvBundle pkg = true := by
  unfold halowAckOnRx at course
  split at course
  next env =>
    obtain ⟨consumed, _, _, _, -, first, rest⟩ := Res.Course.bind course
    cases consumed with
    | true => exact .inl (pure_course rest).2.1
    | false =>
      have bundle := rxEnv_bundle first
      simp only [Ack.isEnvBundle, isEnvFrame, Bool.and_eq_true, decide_eq_true_eq] at bundle env
      refine .inr ?_
      simp only [Handler.isEnvBundle, Bool.and_eq_true, decide_eq_true_eq]
      exact ⟨⟨⟨⟨bundle.1.2, env.1.1.2⟩, env.1.2⟩, bundle.1.1.2⟩, bundle.1.1.1⟩
  next noEnv =>
    have ack : isAckFrame pkg = true := by
      by_contra noAck
      exact ours ⟨Bool.eq_false_iff.mpr noEnv, Bool.eq_false_iff.mpr noAck⟩
    rw [if_pos ack] at course
    obtain ⟨_, _, _, _, -, -, result⟩ := Res.Course.bind course
    exact .inl (pure_course result).2.1

def HandsOver (pkg : List Byte) (h h' : PkgHandler) : Prop :=
  ∃ frame n, h'.toTcp = (frame, n) :: h.toTcp ∧ Buffer.get frame 0 n = Stream.encoded pkg

theorem HandsOver.ne {h : PkgHandler} : ¬HandsOver pkg h h := by
  rintro ⟨frame, n, same, -⟩
  exact List.cons_ne_self _ _ same.symm

theorem deliver_handsOver {sha256 : List Byte → Vector Byte 32} {info : PacketInfo}
    (parsed : rnsLinkParserParse sha256 pkg = .ok info) (src : Mac) (unicastToMe : Bool)
    {amb : Ambient} {mem : Stream.Buf}
    (allocated : amb.osMalloc (Stream.encoded pkg).length = some mem) (h : PkgHandler) :
    HandsOver pkg h (h.deliverRnsFrame sha256 pkg src unicastToMe amb) := by
  rw [PkgHandler.deliverRnsFrame, parsed]
  dsimp only
  rw [Stream.deliverEncode_eq allocated]
  exact ⟨_, _, rfl, Buffer.get_put ..⟩

theorem subFrames_shorter {pkg q : List Byte} {o nsub : Nat} (mem : q ∈ subFrames pkg o nsub) :
    pkg = [] ∨ q.length < pkg.length := by
  induction nsub generalizing o with
  | zero => cases mem
  | succ nsub ih =>
    rcases List.mem_cons.mp mem with rfl | later
    · rcases pkg with _ | ⟨b, rest⟩
      · exact .inl rfl
      · right
        rw [List.length_take, List.length_drop, List.length_cons]
        omega
    · exact ih later

def HandsOthers (pkg : List Byte) (h h' : PkgHandler) : Prop :=
  ∃ news, h'.toTcp = news ++ h.toTcp ∧ ∀ x ∈ news, Buffer.get x.1 0 x.2 ≠ Stream.encoded pkg

theorem HandsOthers.not_handsOver {h h' : PkgHandler} (others : HandsOthers pkg h h') :
    ¬HandsOver pkg h h' := by
  rintro ⟨frame, n, one, same⟩
  obtain ⟨news, eq, all⟩ := others
  have new : news = [(frame, n)] := List.append_cancel_right (eq.symm.trans one)
  exact all (frame, n) (by simp [new]) same

theorem deliver_handsOthers {sha256 : List Byte → Vector Byte 32} {pkg q : List Byte}
    (other : q ≠ pkg) (src : Mac) (unicastToMe : Bool) (amb : Ambient) {h h' : PkgHandler}
    (others : HandsOthers pkg h h') :
    HandsOthers pkg h (h'.deliverRnsFrame sha256 q src unicastToMe amb) := by
  rw [PkgHandler.deliverRnsFrame]
  cases rnsLinkParserParse sha256 q with
  | error e => exact others
  | ok info =>
    obtain ⟨news, eq, all⟩ := others
    refine ⟨(Stream.deliverEncode amb.osMalloc q).toList ++ news, ?_, fun x member => ?_⟩
    · dsimp only
      rw [eq, List.append_assoc]
    · rcases List.mem_append.mp member with new | old
      · cases allocated : amb.osMalloc (Stream.encoded q).length with
        | none =>
          rw [Stream.encoded_length] at allocated
          simp [Stream.deliverEncode, allocated] at new
        | some mem =>
          rw [Stream.deliverEncode_eq allocated, Option.toList_some, List.mem_singleton] at new
          rw [new, Buffer.get_put]
          exact fun same => other (Stream.encoded_injective same)
      · exact all x old

theorem bundle_handsOthers {sha256 : List Byte → Vector Byte 32}
    (bundle : Handler.isEnvBundle pkg = true) (src dst : Mac) (accepted : Bool)
    (amb : Nat → Ambient) (h : PkgHandler) :
    HandsOthers pkg h (h.rfToTcp sha256 pkg src dst accepted amb) := by
  refine PkgHandler.rfToTcp_keeps ⟨[], rfl, by simp⟩ fun q mem _ amb h' others => ?_
  refine deliver_handsOthers ?_ src _ amb others
  rintro rfl
  rw [packetsOf, if_pos bundle] at mem
  split at mem
  · rcases subFrames_shorter mem with empty | shorter
    · rw [empty] at bundle
      exact absurd bundle (by decide)
    · exact absurd shorter (Nat.lt_irrefl _)
  · cases mem

theorem plain_path_transparent_iff {sha256 : List Byte → Vector Byte 32} {pkg : List Byte}
    {info : PacketInfo} (parsed : rnsLinkParserParse sha256 pkg = .ok info) :
    (onlySends pkg macBroadcast).Throughout (halowAckTx pkg macBroadcast : Prog (Node ρ) Int) ∧
    ∀ (src : Mac) (evm : Byte) (s last : Node ρ) (states : List (Node ρ)) (answer : Bool),
      (halowAckOnRx pkg src (some macBroadcast) evm s).Course states answer last →
      ∀ (h : PkgHandler) (amb : Nat → Ambient) (mem : Stream.Buf),
        (amb 0).osMalloc (Stream.encoded pkg).length = some mem →
        ((HandsOver pkg h (h.rfToTcp sha256 pkg src macBroadcast answer amb) ∧
          keepsBufs.Throughout
            (halowAckOnRx pkg src (some macBroadcast) evm : Prog (Node ρ) Bool)) ↔
          isEnvFrame pkg = false ∧ isAckFrame pkg = false) := by
  refine ⟨onlySends_halowAckTx (by decide), ?_⟩
  intro src evm s last states answer course h amb mem allocated
  constructor
  · rintro ⟨handed, -⟩
    by_contra ours
    rcases ours_refused ours course with refused | bundle
    · rw [refused] at handed
      exact HandsOver.ne handed
    · exact (bundle_handsOthers bundle src _ answer amb h).not_handsOver handed
  · rintro ⟨noEnv, noAck⟩
    have plain : Handler.isEnvBundle pkg = false := by
      by_contra bundle
      rw [Bool.not_eq_false] at bundle
      rw [isEnvFrame_of_bundle bundle] at noEnv
      cases noEnv
    constructor
    · rw [plain_broadcast_accepted noEnv noAck course, PkgHandler.rfToTcp, plain]
      exact deliver_handsOver parsed src _ allocated h
    · rw [halowAckOnRx, noEnv, noAck]
      exact .of_phases (keepsBufs_rxData pkg src evm)

def bootedNode : Node Board := boot halowAckConfigSetDefault (.quiet 7 8)

def plentiful : Nat → Ambient := fun _ => ⟨0, 500#32, true, fun _ => some fun _ => 0⟩

theorem plain_path_transparent_link :
    rnsLinkParserParse noHash (linkFrame someLink 0x00#8) = .ok (linkFrameInfo someLink 0x00#8) ∧
      HandsOver (linkFrame someLink 0x00#8) .init
        (PkgHandler.init.rfToTcp noHash (linkFrame someLink 0x00#8) thePeer macBroadcast true
          plentiful) := by
  have parsed := @linkFrame_parse noHash someLink 0x00#8
  have alone : ∃ r ∈ (halowAckOnRx (linkFrame someLink 0x00#8) thePeer (some macBroadcast) 0).run
      bootedNode, r.1 = true := by decide +kernel
  obtain ⟨⟨_, last⟩, run, rfl⟩ := alone
  have transparent := (plain_path_transparent_iff parsed).2 thePeer 0 bootedNode last _ true
    (Res.run_course run) .init plentiful _ rfl
  exact ⟨parsed, (transparent.mpr ⟨by decide, by decide⟩).1⟩

def accessCodePacket : List Byte := 0xA5#8 :: 0x5A#8 :: List.replicate 17 0x00#8

theorem access_code_packet_swallowed :
    (∃ info, rnsLinkParserParse noHash accessCodePacket = .ok info) ∧
    (∃ last : Node Board, (halowAckTx accessCodePacket macBroadcast).run bootedNode =
        some (0, last) ∧
      (100000, .txP accessCodePacket macBroadcast halowMcsDefault 0#8) ∈ last.body.trace) ∧
    (∃ last : Node Board,
      (halowAckOnRx accessCodePacket thePeer (some macBroadcast) 0).run bootedNode =
        some (false, last)) ∧
    ∀ h, ¬HandsOver accessCodePacket h
      (h.rfToTcp noHash accessCodePacket thePeer macBroadcast false plentiful) := by
  refine ⟨⟨_, rfl⟩, ?_, ?_, fun h => HandsOver.ne⟩
  · have alone : ∃ r ∈ (halowAckTx accessCodePacket macBroadcast).run bootedNode, r.1 = 0 ∧
        (100000, .txP accessCodePacket macBroadcast halowMcsDefault 0#8) ∈ r.2.body.trace := by
      decide +kernel
    obtain ⟨⟨_, last⟩, run, rfl, aired⟩ := alone
    exact ⟨last, run, aired⟩
  · have alone : ∃ r ∈ (halowAckOnRx accessCodePacket thePeer (some macBroadcast) 0).run bootedNode,
        r.1 = false := by decide +kernel
    obtain ⟨⟨_, last⟩, run, rfl⟩ := alone
    exact ⟨last, run⟩

end RnodeHalow.Handler
