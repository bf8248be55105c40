import RnodeHalow.Handler.Counting
import RnodeHalow.Handler.Transparency

set_option autoImplicit false

namespace RnodeHalow.Handler

open Resumption Rns Ack

variable (sha256 : List Byte → Vector Byte 32)

-- The bytes handed to TCP so far.
def PkgHandler.stream (h : PkgHandler) : List Byte :=
  (h.toTcp.reverse.map fun x => Buffer.get x.1 0 x.2).flatten

def Ambient.room (amb : Ambient) (q : List Byte) : Bool :=
  (amb.osMalloc (Stream.encoded q).length).isSome

def handed : List (List Byte) → (Nat → Ambient) → List (List Byte)
  | [], _ => []
  | q :: rest, amb =>
    [q].filter (fun q => parses sha256 q && (amb 0).room q) ++ handed rest fun n => amb (n + 1)

-- The frames that the ACK layer lets pass for this node.
def Happening.frame (myMac : Mac) : Happening → Option (List Byte × (Nat → Ambient))
  | .received data _ addr3 accepted amb =>
    if accepted ∧ data ≠ [] ∧ (addr3 = macBroadcast ∨ addr3 = myMac) then some (data, amb) else none
  | _ => none

def packetsRead (frames : List (List Byte × (Nat → Ambient))) : List (List Byte) :=
  frames.flatMap fun f => handed sha256 (packetsOf f.1) f.2

theorem deliver_stream (q : List Byte) (src : Mac) (unicastToMe : Bool) (amb : Ambient)
    (h : PkgHandler) :
    (h.deliverRnsFrame sha256 q src unicastToMe amb).stream = h.stream ++
      (([q].filter fun q => parses sha256 q && amb.room q).map Stream.encoded).flatten := by
  rw [PkgHandler.deliverRnsFrame]
  cases parsed : rnsLinkParserParse sha256 q with
  | error e => simp [parses, parsed, Except.isOk, Except.toBool]
  | ok info =>
    cases allocated : amb.osMalloc (Stream.encoded q).length with
    | none =>
      have failed : Stream.deliverEncode amb.osMalloc q = none := by
        rw [Stream.encoded_length] at allocated
        simp [Stream.deliverEncode, allocated]
      simp [PkgHandler.stream, failed, Ambient.room, allocated]
    | some mem =>
      simp [PkgHandler.stream, Stream.deliverEncode_eq allocated, Buffer.get_put, parses, parsed,
        Except.isOk, Except.toBool, Ambient.room, allocated]

theorem rfToTcp_stream (data : List Byte) (src dst : Mac) (amb : Nat → Ambient) (h : PkgHandler) :
    (h.rfToTcp sha256 data src dst true amb).stream =
      h.stream ++ ((handed sha256 (packetsOf data) amb).map Stream.encoded).flatten := by
  rw [PkgHandler.rfToTcp_eq]
  generalize packetsOf data = packets
  induction packets generalizing h amb with
  | nil => exact (List.append_nil _).symm
  | cons q rest ih =>
    rw [handed, List.map_append, List.flatten_append, ← List.append_assoc,
      ← deliver_stream sha256 q src (decide (dst ≠ macBroadcast)) (amb 0) h]
    exact ih _ _

theorem step_stream (myMac : Mac) (h : PkgHandler) (e : Happening) :
    (h.step sha256 myMac e).stream =
      h.stream ++ ((packetsRead sha256 (e.frame myMac).toList).map Stream.encoded).flatten := by
  have idle (same : (h.step sha256 myMac e).stream = h.stream) (none : e.frame myMac = none) :
      (h.step sha256 myMac e).stream =
        h.stream ++ ((packetsRead sha256 (e.frame myMac).toList).map Stream.encoded).flatten := by
    rw [same, none]
    exact (List.append_nil _).symm
  cases e with
  | received data addr2 addr3 accepted amb =>
    by_cases passed : accepted = true ∧ data ≠ [] ∧ (addr3 = macBroadcast ∨ addr3 = myMac)
    · rw [Happening.frame, if_pos passed, PkgHandler.step, PkgHandler.rxHandler]
      obtain ⟨rfl, some, mine⟩ := passed
      rw [if_neg (by simpa using some), if_neg (by tauto), rfToTcp_stream]
      simp [packetsRead]
    · refine idle ?_ (if_neg passed)
      rw [PkgHandler.step, PkgHandler.rxHandler]
      split_ifs with empty others
      · rfl
      · rfl
      · rw [List.length_eq_zero_iff] at empty
        have refused : accepted = false := by cases accepted <;> tauto
        rw [refused]
        rfl
  | transmit pkg amb =>
    refine idle ?_ rfl
    rw [PkgHandler.step, PkgHandler.tcpToRf]
    split
    · rfl
    · split_ifs <;> rfl
  | sweep nowS => exact idle rfl rfl

theorem run_stream (myMac : Mac) (events : List Happening) (h : PkgHandler) :
    (h.run sha256 myMac events).stream = h.stream ++
      ((packetsRead sha256 (events.filterMap (Happening.frame myMac))).map
        Stream.encoded).flatten := by
  induction events generalizing h with
  | nil => exact (List.append_nil _).symm
  | cons e rest ih =>
    have split : (e :: rest).filterMap (Happening.frame myMac) =
        (e.frame myMac).toList ++ rest.filterMap (Happening.frame myMac) := by
      rw [List.filterMap_cons]
      cases e.frame myMac <;> rfl
    rw [PkgHandler.run, List.foldl_cons]
    refine (ih _).trans ?_
    rw [step_stream, split, packetsRead, packetsRead, packetsRead, List.flatMap_append,
      List.map_append, List.flatten_append, List.append_assoc]

theorem mem_handed {q : List Byte} {qs : List (List Byte)} {amb : Nat → Ambient}
    (mem : q ∈ handed sha256 qs amb) : q ∈ qs ∧ q ≠ [] := by
  induction qs generalizing amb with
  | nil => cases mem
  | cons p rest ih =>
    rcases List.mem_append.mp mem with first | later
    · obtain ⟨here, ok⟩ := List.mem_filter.mp first
      refine ⟨List.mem_cons.mpr (.inl (List.mem_singleton.mp here)), ?_⟩
      rintro rfl
      cases ok
    · exact ⟨List.mem_cons_of_mem p (ih later).1, (ih later).2⟩

theorem packetsOf_short {data q : List Byte} (mem : q ∈ packetsOf data) :
    q.length ≤ data.length := by
  unfold packetsOf at mem
  split_ifs at mem with bundle valid
  · rcases subFrames_shorter mem with rfl | shorter
    · cases bundle
    · exact Nat.le_of_lt shorter
  · cases mem
  · rw [List.mem_singleton.mp mem]

section Host

variable (myMac : Mac) (events : List Happening) {cap : Nat} (d : Stream.Decoder cap)
  (chunks : List (List Byte))
  (stream : chunks.flatten = (PkgHandler.init.run sha256 myMac events).stream)

include stream

theorem feed_stream (room : ∀ f ∈ events.filterMap (Happening.frame myMac), ∀ q ∈ packetsOf f.1,
      q.length ≤ cap) :
    Stream.feed d.reset chunks =
      packetsRead sha256 (events.filterMap (Happening.frame myMac)) := by
  refine (Stream.feed_encodeds_iff d _ chunks
    (stream.trans (run_stream sha256 myMac events .init))).mpr fun q mem => ?_
  obtain ⟨f, frame, mem⟩ := List.mem_flatMap.mp mem
  obtain ⟨inside, some⟩ := mem_handed sha256 mem
  exact ⟨some, room f frame q inside⟩

-- Packets that do not parse or find no memory are left out.
theorem host_reads_received
    (room : ∀ f ∈ events.filterMap (Happening.frame myMac), f.1.length ≤ cap) :
    Stream.feed d.reset chunks =
      packetsRead sha256 (events.filterMap (Happening.frame myMac)) :=
  feed_stream sha256 myMac events d chunks stream fun f frame _ mem =>
    (packetsOf_short mem).trans (room f frame)

end Host

def zeros : List Byte := List.replicate 19 0

def ones : List Byte := List.replicate 19 1

def refusedSecond : List Byte :=
  [0xA5, 0x5A, 0x10, 0, 0, 2, 19, 0] ++ zeros ++ [3, 0, 1, 2, 3]

def onlyOnes : List Byte := [0xA5, 0x5A, 0x10, 1, 0, 1, 19, 0] ++ ones

def twoBundlesHeard : List Happening :=
  [.sweep 7, .received refusedSecond thePeer macBroadcast true plentiful,
    .received onlyOnes thePeer theAttacker true plentiful,
    .received onlyOnes thePeer macBroadcast true plentiful]

def heardStream : List Byte := (PkgHandler.init.run noHash thePeer twoBundlesHeard).stream

theorem host_reads_received_twoBundles :
    Stream.feed (Stream.Decoder.init : Stream.Decoder 32).reset
      [heardStream.take 10, heardStream.drop 10] = [zeros, ones] := by
  have cut : [heardStream.take 10, heardStream.drop 10].flatten = heardStream := by
    simp [List.take_append_drop]
  rw [host_reads_received noHash thePeer twoBundlesHeard _ _ cut (by decide +kernel)]
  decide +kernel

theorem packetsOf_carries {seq : BitVec 16} {data : List Byte} {payloads : List (List Byte)}
    (carries : Carries seq data payloads) : packetsOf data = payloads := by
  have valid : bundleWalkValid data envBundleHdr (byteAt data 5).toNat = true :=
    (bundleWalkValid_iff ..).mpr (of_decide_eq_true carries.walk)
  have magic : byteAt data 0 = ackMagic0 ∧ byteAt data 1 = ackMagic1 := by
    rw [carries.bytes]
    exact ⟨rfl, rfl⟩
  have bundle : isEnvBundle data = true := by
    simp [isEnvBundle, carries.halowEnv, magic, carries.length]
  have subs := subFrames_packed (bundleHdr seq payloads.length) payloads carries.small
  rw [bundleHdr_length] at subs
  rw [packetsOf, if_pos bundle, if_pos valid, carries.bytes, bundleHdr_count carries.few]
  exact subs

structure Arrival where
  data : List Byte
  amb : Nat → Ambient
  -- the entry of the sender that the bundle was staged for, and the history before it left
  peer : PeerIx
  older : History

theorem payloads_reach_host {ρ : Type} [Platform ρ] (c : Threads ρ) (h : Reachable c)
    (arrivals : List Arrival) (flushed : ∀ x ∈ arrivals, ∃ newer τ seq,
      c.body.trace = newer ++ (τ, .flushed x.peer seq x.data) :: x.older)
    (myMac : Mac) (events : List Happening)
    (heard : events.filterMap (Happening.frame myMac) = arrivals.map fun x => (x.data, x.amb))
    (d : Stream.Decoder (2 ^ 16)) (chunks : List (List Byte))
    (stream : chunks.flatten = (PkgHandler.init.run sha256 myMac events).stream) :
    Stream.feed d.reset chunks =
      arrivals.flatMap fun x => handed sha256 (pendingOf x.peer x.older) x.amb := by
  have carried (x : Arrival) (mem : x ∈ arrivals) :
      ∃ seq, Carries seq x.data (pendingOf x.peer x.older) := by
    obtain ⟨newer, τ, seq, sent⟩ := flushed x mem
    have shipped : Shipped c.body.trace := (freight_of_reachable h).shipped
    rw [sent] at shipped
    exact ⟨seq, Shipped.at shipped⟩
  rw [feed_stream sha256 myMac events d chunks stream, heard, packetsRead, List.flatMap_map]
  · refine List.flatMap_congr fun x mem => ?_
    obtain ⟨seq, carries⟩ := carried x mem
    rw [packetsOf_carries carries]
  · intro f frame q mem
    rw [heard] at frame
    obtain ⟨x, arrived, rfl⟩ := List.mem_map.mp frame
    obtain ⟨seq, carries⟩ := carried x arrived
    rw [packetsOf_carries carries] at mem
    exact Nat.le_of_lt (carries.small q mem)

def sendsTwoBundles : List (Move Board) :=
  let flush : List (Move Board) := .start 1 .flush :: List.replicate 5 (.resume 1)
  .start 1 (.tx zeros thePeer) :: List.replicate 3 (.resume 1) ++
    .start 1 (.tx [1, 2, 3] thePeer) :: List.replicate 3 (.resume 1) ++ flush ++
    .start 1 (.tx ones thePeer) :: List.replicate 3 (.resume 1) ++ flush

theorem payloads_reach_host_twoBundles : ∃ c, playAll sendsTwoBundles quietNode = some c ∧
    (c.body.trace[11]? = some (100000, .flushed 0 0 refusedSecond) ∧
      c.body.trace[2]? = some (100000, .flushed 0 1 onlyOnes) ∧
      pendingOf 0 (c.body.trace.drop 12) = [zeros, [1, 2, 3]] ∧
      pendingOf 0 (c.body.trace.drop 3) = [ones]) ∧
    ∀ d : Stream.Decoder (2 ^ 16),
      Stream.feed d.reset [heardStream.take 10, heardStream.drop 10] = [zeros, ones] := by
  refine played_then (by decide +kernel) fun c reach ⟨first, second, pending, pending'⟩ d => ?_
  have split {k : Nat} {e : Nat × Event} (here : c.body.trace[k]? = some e) :
      c.body.trace = c.body.trace.take k ++ e :: c.body.trace.drop (k + 1) := by
    obtain ⟨inside, rfl⟩ := List.getElem?_eq_some_iff.mp here
    rw [List.cons_getElem_drop_succ, List.take_append_drop]
  have read := payloads_reach_host noHash c reach
    [⟨refusedSecond, plentiful, 0, c.body.trace.drop 12⟩,
      ⟨onlyOnes, plentiful, 0, c.body.trace.drop 3⟩]
    (List.forall_mem_cons.mpr ⟨⟨_, _, _, split first⟩,
      List.forall_mem_singleton.mpr ⟨_, _, _, split second⟩⟩) thePeer twoBundlesHeard rfl d
    [heardStream.take 10, heardStream.drop 10] (by simp [List.take_append_drop]; rfl)
  rw [read, List.flatMap_cons, List.flatMap_singleton, pending, pending']
  change handed noHash [zeros, [1, 2, 3]] plentiful ++ handed noHash [ones] plentiful = [zeros, ones]
  decide +kernel

end RnodeHalow.Handler
