import RnodeHalow.Handler.PkgHandler
import RnodeHalow.Rns.LinkLife
import RnodeHalow.Shared.Course
import RnodeHalow.Shared.Runs

set_option autoImplicit false

namespace RnodeHalow.Handler

open Rns

variable (sha256 : List Byte → Vector Byte 32) (myMac : Mac) (id : LinkId) (mac : Mac)

def OfLink (pkg : List Byte) : Prop :=
  ∃ info, rnsLinkParserParse sha256 pkg = .ok info ∧ info.valid = true ∧ info.linkId = id

def ClosesLink (pkg : List Byte) : Prop :=
  ∃ info, rnsLinkParserParse sha256 pkg = .ok info ∧ info.valid = true ∧ info.linkId = id ∧
    info.context = contextLinkclose

def Undisturbed (h : PkgHandler) : Happening → Prop
  | .received data _ addr3 accepted _ =>
    accepted = true → addr3 = myMac → addr3 ≠ macBroadcast →
      ∀ q ∈ packetsOf data, ¬OfLink sha256 id q
  | .transmit pkg _ => ¬ClosesLink sha256 id pkg
  | .sweep nowS => ∀ r, h.db.record id = some r → r.expired nowS = false

def Unclosed : Happening → Prop
  | .received data _ addr3 accepted _ =>
    accepted = true → addr3 = macBroadcast → ∀ q ∈ packetsOf data, ¬ClosesLink sha256 id q
  | .transmit _ _ => True
  | .sweep _ => True

def Along (P : PkgHandler → Happening → Prop) (h : PkgHandler) (events : List Happening) : Prop :=
  ∀ before e later, events = before ++ e :: later → P (h.run sha256 myMac before) e

def Knows (h : PkgHandler) : Prop := ∃ r, h.db.record id = some r ∧ r.remoteMac = mac

def Redirected (h : PkgHandler) : Prop :=
  ∃ pkg amb sent dest, OfLink sha256 id pkg ∧
    (h.tcpToRf sha256 pkg amb).2 = some (sent, dest) ∧ dest ≠ mac ∧ dest ≠ macBroadcast

variable {sha256 myMac id mac}

theorem register_knows {d : WellDb} {reg : Registration} (nowS : Int) (malloc : Bool) {r : Record}
    (held : d.record id = some r) (goes : reg.pkg.linkId = id → reg.pkg.context ≠ contextLinkclose)
    (kept : reg.pkg.linkId = id →
      reg.remoteMac = none ∨ reg.unicastToMe = false ∧ r.remoteMac ≠ linkMacUnknown) :
    ∃ s, (d.register reg nowS malloc).2.record id = some s ∧ s.remoteMac = r.remoteMac := by
  rw [WellDb.register_record]
  by_cases same : reg.pkg.linkId = id
  · exact ⟨_, LinkMap.register_present same (goes same) held,
      (Record.touched_remoteMac reg nowS r).trans (learnedMac_kept (kept same))⟩
  · exact ⟨r, (LinkMap.register_other same).trans held, rfl⟩

variable {h : PkgHandler} {info : PacketInfo}

theorem deliver_knows {q : List Byte} {srcMac : Mac} {unicastToMe : Bool} {amb : Ambient}
    (unicast : mac ≠ linkMacUnknown) (knows : Knows id mac h) (goes : ¬ClosesLink sha256 id q)
    (other : unicastToMe = true → ¬OfLink sha256 id q) :
    Knows id mac (h.deliverRnsFrame sha256 q srcMac unicastToMe amb) := by
  obtain ⟨r, held, rfl⟩ := knows
  unfold PkgHandler.deliverRnsFrame
  cases parsed : rnsLinkParserParse sha256 q with
  | error e => exact ⟨r, held, rfl⟩
  | ok info =>
    dsimp only
    by_cases valid : info.valid = true
    · rw [if_pos valid]
      refine register_knows _ _ held (fun same close => ?_) fun same => ?_
      · exact goes ⟨info, parsed, valid, same, close⟩
      · refine .inr ⟨Bool.eq_false_iff.mpr fun me => ?_, unicast⟩
        exact other me ⟨info, parsed, valid, same⟩
    · rw [if_neg valid]
      exact ⟨r, held, rfl⟩

theorem tcpToRf_valid {pkg : List Byte} (h : PkgHandler) (amb : Ambient)
    (parsed : rnsLinkParserParse sha256 pkg = .ok info) (valid : info.valid = true) :
    ∃ (reg : Registration) (sent : List Byte), reg.pkg = info ∧ reg.remoteMac = none ∧
      h.tcpToRf sha256 pkg amb =
        ({ h with db := (h.db.register reg amb.nowS amb.malloc).2 },
          some (sent, PkgHandler.txDest info (h.db.register reg amb.nowS amb.malloc).2)) := by
  rw [PkgHandler.tcpToRf, parsed]
  by_cases request : info.packetType = .linkrequest
  · simp only [valid, request, decide_true, Bool.and_self, if_true]
    exact ⟨⟨info, .tx, none, _, true, false⟩, _, rfl, rfl, rfl⟩
  · simp only [valid, request, decide_false, Bool.and_false, Bool.false_eq_true, if_false, if_true]
    exact ⟨⟨info, .tx, none, 0, false, false⟩, pkg, rfl, rfl, rfl⟩

theorem txDest_known {d : WellDb} {r : Record} (valid : info.valid = true)
    (held : d.record info.linkId = some r) (known : r.remoteMac ≠ linkMacUnknown) :
    PkgHandler.txDest info d = r.remoteMac := by
  rw [PkgHandler.txDest, if_pos valid, held]
  exact if_pos (decide_eq_true known)

theorem txDest_absent {d : WellDb} (absent : d.record info.linkId = none) :
    PkgHandler.txDest info d = macBroadcast := by
  rw [PkgHandler.txDest, absent, ite_self]

theorem received_knows {data : List Byte} {addr2 addr3 : Mac} {accepted : Bool}
    {amb : Nat → Ambient} (unicast : mac ≠ linkMacUnknown) (knows : Knows id mac h)
    (undisturbed : Undisturbed sha256 myMac id h (.received data addr2 addr3 accepted amb))
    (unclosed : Unclosed sha256 id (.received data addr2 addr3 accepted amb)) :
    Knows id mac (h.rxHandler sha256 myMac data addr2 addr3 accepted amb) := by
  unfold PkgHandler.rxHandler
  split
  · exact knows
  · split
    · exact knows
    next mine =>
      refine PkgHandler.rfToTcp_keeps knows fun q mem yes amb h knows => ?_
      by_cases everyone : addr3 = macBroadcast
      · apply deliver_knows unicast knows
        · exact unclosed yes everyone q mem
        · intro me
          exact absurd everyone (of_decide_eq_true me)
      · have forMe : addr3 = myMac := by
          by_contra other
          exact mine ⟨everyone, other⟩
        have away := undisturbed yes forMe everyone q mem
        apply deliver_knows unicast knows
        · rintro ⟨info, parsed, valid, same, -⟩
          exact away ⟨info, parsed, valid, same⟩
        · exact fun _ => away

theorem tcpToRf_knows {pkg : List Byte} (amb : Ambient) (knows : Knows id mac h)
    (goes : ¬ClosesLink sha256 id pkg) : Knows id mac (h.tcpToRf sha256 pkg amb).1 := by
  obtain ⟨r, held, rfl⟩ := knows
  cases parsed : rnsLinkParserParse sha256 pkg with
  | error e =>
    rw [PkgHandler.tcpToRf, parsed]
    exact ⟨r, held, rfl⟩
  | ok info =>
    by_cases valid : info.valid = true
    · obtain ⟨reg, sent, rfl, none, result⟩ := tcpToRf_valid h amb parsed valid
      rw [result]
      refine register_knows _ _ held (fun same close => ?_) fun _ => .inl none
      exact goes ⟨reg.pkg, parsed, valid, same, close⟩
    · rw [PkgHandler.tcpToRf, parsed]
      simp only [valid, Bool.false_and, Bool.false_eq_true, if_false]
      exact ⟨r, held, rfl⟩

theorem step_knows {e : Happening} (unicast : mac ≠ linkMacUnknown) (knows : Knows id mac h)
    (undisturbed : Undisturbed sha256 myMac id h e) (unclosed : Unclosed sha256 id e) :
    Knows id mac (h.step sha256 myMac e) := by
  cases e with
  | received data addr2 addr3 accepted amb =>
    exact received_knows unicast knows undisturbed unclosed
  | transmit pkg amb => exact tcpToRf_knows amb knows undisturbed
  | sweep nowS =>
    obtain ⟨r, held, rfl⟩ := knows
    refine ⟨r, ?_, rfl⟩
    change (h.db.sweep nowS).record id = some r
    rw [WellDb.sweep_record, LinkMap.sweep, held, Option.filter_some_pos]
    simp [undisturbed r held]

theorem run_knows (events : List Happening) (unicast : mac ≠ linkMacUnknown)
    (knows : Knows id mac h)
    (undisturbed : Along sha256 myMac (Undisturbed sha256 myMac id) h events)
    (unclosed : ∀ e ∈ events, Unclosed sha256 id e) : Knows id mac (h.run sha256 myMac events) := by
  have along : Runs.Along (PkgHandler.step sha256 myMac)
      (fun h e => Undisturbed sha256 myMac id h e ∧ Unclosed sha256 id e) h events := by
    intro before e later split
    exact ⟨undisturbed before e later split, unclosed e (by simp [split])⟩
  exact along.holds knows fun h e knows harmless =>
    step_knows unicast knows harmless.1 harmless.2

theorem Knows.not_redirected (unicast : mac ≠ linkMacUnknown) (knows : Knows id mac h) :
    ¬Redirected sha256 id mac h := by
  rintro ⟨pkg, amb, sent, dest, ⟨info, parsed, valid, rfl⟩, goes, other, single⟩
  obtain ⟨r, held, rfl⟩ := knows
  obtain ⟨reg, sent', rfl, none, result⟩ := tcpToRf_valid h amb parsed valid
  rw [result] at goes
  injection goes with pair
  injection pair with _ same
  by_cases close : reg.pkg.context = contextLinkclose
  · refine single (same.symm.trans (txDest_absent ?_))
    rw [WellDb.register_record, LinkMap.register_close rfl close, Function.update_self]
  · obtain ⟨s, held', kept⟩ := register_knows amb.nowS amb.malloc held (fun _ => close)
      fun _ => .inl none
    refine other (same.symm.trans ((txDest_known valid held' ?_).trans kept))
    rw [kept]
    exact unicast

def linkFrame (id : LinkId) (context : Byte) : List Byte :=
  0x0C#8 :: 0x00#8 :: (id.toList ++ [context])

def linkFrameInfo (id : LinkId) (context : Byte) : PacketInfo :=
  { hops := 0
    destinationType := .link
    packetType := .data
    context := context
    payloadLen := 0
    destination := id
    linkId := id
    valid := true }

theorem linkFrame_parse (id : LinkId) (context : Byte) :
    rnsLinkParserParse sha256 (linkFrame id context) = .ok (linkFrameInfo id context) := by
  have length : (linkFrame id context).length = headerType1Size := by
    rw [linkFrame, List.length_cons, List.length_cons, List.length_append, Vector.length_toList]
    rfl
  have bytes (i : Nat) :
      byteAt (linkFrame id context) (2 + i) = (id.toList ++ [context])[i]?.getD 0#8 := by
    rw [Nat.add_comm, byteAt, List.getD_eq_getElem?_getD]
    rfl
  have destination : idAt (linkFrame id context) 2 = id := by
    apply Vector.ext
    intro i bound
    rw [idAt, Vector.getElem_ofFn]
    dsimp only
    rw [bytes, List.getElem?_append_left (by simpa using bound)]
    simp [bound]
  have last : byteAt (linkFrame id context) (2 + truncatedHashLen) = context := by
    rw [bytes, List.getElem?_append_right (by simp)]
    simp
  have flags : byteAt (linkFrame id context) 0 = 0x0C#8 := rfl
  have hops : byteAt (linkFrame id context) 1 = 0x00#8 := rfl
  rw [rnsLinkParserParse, if_neg (by omega)]
  simp only [flags]
  rw [if_pos (by decide), parseBody, flags, hops, destination, last, length]
  rfl

theorem linkFrame_goes {id : LinkId} : (linkFrameInfo id 0x00#8).context ≠ contextLinkclose := by
  change (0x00#8 : Byte) ≠ contextLinkclose
  decide

theorem linkFrame_unclosed : ¬ClosesLink sha256 id (linkFrame id 0x00#8) := by
  rintro ⟨info, parsed, -, -, close⟩
  rw [linkFrame_parse] at parsed
  injection parsed with same
  rw [← same] at close
  exact linkFrame_goes close

theorem linkFrame_plain (id : LinkId) (context : Byte) :
    isEnvBundle (linkFrame id context) = false := by
  have first : (byteAt (linkFrame id context) 0 == ackMagic0) = false := by
    change (0x0C#8 == ackMagic0) = false
    decide
  simp [isEnvBundle, first]

def wideAwake : Ambient := ⟨0, 500#32, true, fun _ => none⟩

theorem packetsOf_plain {data : List Byte} (plain : isEnvBundle data = false) :
    packetsOf data = [data] := by
  simp [packetsOf, plain]

theorem rxHandler_plain {data : List Byte} (addr2 : Mac) (amb : Nat → Ambient) (h : PkgHandler)
    (parsed : rnsLinkParserParse sha256 data = .ok info) (valid : info.valid = true)
    (plain : isEnvBundle data = false) :
    (h.rxHandler sha256 myMac data addr2 macBroadcast true amb).db =
      (h.db.register (PkgHandler.rxRegistration data info addr2 false (amb 0)) (amb 0).nowS
        (amb 0).malloc).2 := by
  have some : data.length ≠ 0 := by
    intro empty
    rw [rnsLinkParserParse, if_pos (by rw [empty]; decide)] at parsed
    cases parsed
  rw [PkgHandler.rxHandler, if_neg some, if_neg (by simp), PkgHandler.rfToTcp]
  simp only [Bool.not_true, Bool.false_eq_true, if_false, plain, ne_eq, not_true_eq_false,
    decide_false, PkgHandler.deliverRnsFrame, parsed, valid, if_true]

section Attack

variable (sha256 myMac)

theorem close_forgets {h : PkgHandler} {data : List Byte} (addr2 : Mac) (amb : Nat → Ambient)
    (knows : Knows id mac h) (close : ClosesLink sha256 id data)
    (plain : isEnvBundle data = false) :
    (h.rxHandler sha256 myMac data addr2 macBroadcast true amb).db.record id = none ∧
      LinkMap.size (h.rxHandler sha256 myMac data addr2 macBroadcast true amb).db.record <
        dbMaxLinkCount := by
  obtain ⟨r, held, -⟩ := knows
  obtain ⟨info, parsed, valid, rfl, context⟩ := close
  have refines := h.db.refines
  rw [rxHandler_plain addr2 amb h parsed valid plain, WellDb.register_record,
    LinkMap.register_close rfl context]
  refine ⟨Function.update_self .., ?_⟩
  have some : h.db.record info.linkId ≠ none := by simp [held]
  have room := refines.represents.ncard_erase refines.well.distinct some
  rwa [Fintype.card_fin] at room

theorem newcomer_learned {h : PkgHandler} (amb : Nat → Ambient) (told : Mac)
    (absent : h.db.record id = none) (room : LinkMap.size h.db.record < dbMaxLinkCount)
    (allocated : (amb 0).malloc = true) :
    Knows id told (h.rxHandler sha256 myMac (linkFrame id 0x00#8) told macBroadcast true amb) := by
  rw [Knows, rxHandler_plain told amb h (linkFrame_parse id 0x00#8) rfl (linkFrame_plain id 0x00#8),
    WellDb.register_record]
  refine ⟨_, LinkMap.register_absent rfl linkFrame_goes absent room allocated, ?_⟩
  rw [Record.touched_remoteMac]
  exact learnedMac_unknown rfl

-- Whoever sends the first packet after a close is taken for the other end.
theorem close_then_learned {h : PkgHandler} {data : List Byte} (addr2 : Mac) (amb : Nat → Ambient)
    (knows : Knows id mac h) (close : ClosesLink sha256 id data)
    (plain : isEnvBundle data = false) (told : Mac) :
    Knows id told (h.run sha256 myMac
      [.received data addr2 macBroadcast true amb,
        .received (linkFrame id 0x00#8) told macBroadcast true fun _ => wideAwake]) := by
  obtain ⟨absent, room⟩ := close_forgets sha256 myMac addr2 amb knows close plain
  exact newcomer_learned sha256 myMac (fun _ => wideAwake) told absent room rfl

theorem Knows.sent {h : PkgHandler} {told : Mac} (unicast : told ≠ macBroadcast)
    (knows : Knows id told h) (amb : Ambient) :
    (h.tcpToRf sha256 (linkFrame id 0x00#8) amb).2 = some (linkFrame id 0x00#8, told) := by
  obtain ⟨r, held, rfl⟩ := knows
  let reg : Registration := ⟨linkFrameInfo id 0x00#8, .tx, none, 0, false, false⟩
  obtain ⟨s, held', kept⟩ : ∃ s, (h.db.register reg amb.nowS amb.malloc).2.record id = some s ∧
      s.remoteMac = r.remoteMac :=
    register_knows amb.nowS amb.malloc held (fun _ => linkFrame_goes) fun _ => .inl rfl
  have known : s.remoteMac ≠ linkMacUnknown := by
    rw [kept]
    exact unicast
  have dest : PkgHandler.txDest (linkFrameInfo id 0x00#8)
      (h.db.register reg amb.nowS amb.malloc).2 = s.remoteMac := txDest_known rfl held' known
  rw [PkgHandler.tcpToRf, linkFrame_parse]
  change some (linkFrame id 0x00#8, PkgHandler.txDest (linkFrameInfo id 0x00#8) _) = _
  rw [dest, kept]

theorem broadcasts_unclosed {h : PkgHandler} {data data' : List Byte} {addr2 addr2' : Mac}
    {amb amb' : Nat → Ambient} (first : ∀ q ∈ packetsOf data, ¬ClosesLink sha256 id q)
    (second : ∀ q ∈ packetsOf data', ¬ClosesLink sha256 id q) :
    let events := [Happening.received data addr2 macBroadcast true amb,
      .received data' addr2' macBroadcast true amb']
    Along sha256 myMac (Undisturbed sha256 myMac id) h events ∧
      ∀ e ∈ events, Unclosed sha256 id e := by
  intro events
  have both (e : Happening) (mem : e ∈ events) :
      (∀ h, Undisturbed sha256 myMac id h e) ∧ Unclosed sha256 id e := by
    simp only [events, List.mem_cons, List.not_mem_nil, or_false] at mem
    rcases mem with rfl | rfl
    · exact ⟨fun _ _ _ single => absurd rfl single, fun _ _ => first⟩
    · exact ⟨fun _ _ _ single => absurd rfl single, fun _ _ => second⟩
  refine ⟨fun before e later split => (both e ?_).1 _, fun e mem => (both e mem).2⟩
  rw [split]
  simp

end Attack

theorem exists_other_mac (mac : Mac) : ∃ told, told ≠ mac ∧ told ≠ macBroadcast := by
  by_cases same : mac = ⟨2, 0, 0, 0, 0, 1⟩
  · exact ⟨⟨2, 0, 0, 0, 0, 2⟩, by rw [same]; decide, by decide⟩
  · exact ⟨⟨2, 0, 0, 0, 0, 1⟩, fun eq => same eq.symm, by decide⟩

theorem redirect_needs_close (sha256 : List Byte → Vector Byte 32) (myMac : Mac) (id : LinkId)
    (mac : Mac) (h : PkgHandler) (unicast : mac ≠ macBroadcast) (knows : Knows id mac h) :
    (∀ events, Along sha256 myMac (Undisturbed sha256 myMac id) h events →
      (∀ e ∈ events, Unclosed sha256 id e) →
        ¬Redirected sha256 id mac (h.run sha256 myMac events)) ∧
    ∀ data addr2 amb, isEnvBundle data = false →
      ((∀ data' addr2' amb', (∀ q ∈ packetsOf data', ¬ClosesLink sha256 id q) →
        ¬Redirected sha256 id mac (h.run sha256 myMac
          [.received data addr2 macBroadcast true amb,
            .received data' addr2' macBroadcast true amb'])) ↔
        ¬ClosesLink sha256 id data) := by
  have safe (events : List Happening)
      (undisturbed : Along sha256 myMac (Undisturbed sha256 myMac id) h events)
      (unclosed : ∀ e ∈ events, Unclosed sha256 id e) :
      ¬Redirected sha256 id mac (h.run sha256 myMac events) :=
    (run_knows events unicast knows undisturbed unclosed).not_redirected unicast
  refine ⟨safe, fun data addr2 amb plain => ?_⟩
  constructor
  · intro never close
    obtain ⟨told, other, single⟩ := exists_other_mac mac
    have learned := close_then_learned sha256 myMac addr2 amb knows close plain told
    have harmless : ∀ q ∈ packetsOf (linkFrame id 0x00#8), ¬ClosesLink sha256 id q := by
      rw [packetsOf_plain (linkFrame_plain id 0x00#8)]
      intro q mem
      rw [List.mem_singleton.mp mem]
      exact linkFrame_unclosed
    exact never (linkFrame id 0x00#8) told (fun _ => wideAwake) harmless
      ⟨linkFrame id 0x00#8, wideAwake, _, told, ⟨_, linkFrame_parse id 0x00#8, rfl, rfl⟩,
        learned.sent sha256 single wideAwake, other, single⟩
  · intro goes data' addr2' amb' unclosed
    have plainGoes : ∀ q ∈ packetsOf data, ¬ClosesLink sha256 id q := by
      rw [packetsOf_plain plain]
      intro q mem
      rwa [List.mem_singleton.mp mem]
    obtain ⟨undisturbed, unclosed⟩ := broadcasts_unclosed sha256 myMac plainGoes unclosed
    exact safe _ undisturbed unclosed

section Acceptance

open Resumption Ack

variable {ρ : Type} [Platform ρ]

theorem rxDataNoted_broadcast (payload : List Byte) (src : Mac) (evm : Byte) (t : Nat) (b : Body ρ) :
    (rxDataNoted payload src (some macBroadcast) evm t b).1 = (true, none) := by
  have everyone : isToMe (some macBroadcast) = false := by decide
  simp only [rxDataNoted, everyone, rxDataLocked, rxPeer, Sec.bind_apply]
  cases found : peerFind b src with
  | none => simp [found]
  | some i => simp [found]

theorem plain_broadcast_accepted {payload : List Byte} (noEnv : isEnvFrame payload = false)
    (noAck : isAckFrame payload = false) {src : Mac} {evm : Byte} {s last : Node ρ}
    {states : List (Node ρ)} {answer : Bool}
    (course : (halowAckOnRx payload src (some macBroadcast) evm s).Course states answer last) :
    answer = true := by
  rw [halowAckOnRx, noEnv, noAck] at course
  simp only [Bool.false_eq_true, if_false] at course
  obtain ⟨_, _, _, _, rfl, -, inside⟩ := Res.Course.bind course
  obtain ⟨r, _, _, _, rfl, noted, leaving⟩ := Res.Course.bind inside
  obtain ⟨-, rfl, -⟩ := sec_course noted
  rw [rxDataNoted_broadcast] at leaving
  obtain ⟨_, _, _, _, rfl, -, result⟩ := Res.Course.bind leaving
  exact (pure_course result).2.1

end Acceptance

def someLink : LinkId := Vector.replicate truncatedHashLen 0x11#8
def thisNode : Mac := ⟨2, 0, 0, 0, 0, 1⟩
def thePeer : Mac := ⟨2, 0, 0, 0, 0, 2⟩
def theAttacker : Mac := ⟨2, 0, 0, 0, 0, 3⟩
def noHash : List Byte → Vector Byte 32 := fun _ => Vector.replicate 32 0#8

def fromAnyone (context : Byte) (sender : Mac) : Happening :=
  .received (linkFrame someLink context) sender macBroadcast true fun _ => wideAwake

def afterFirst : PkgHandler := PkgHandler.init.run noHash thisNode [fromAnyone 0x00#8 thePeer]

theorem afterFirst_knows : Knows someLink thePeer afterFirst := by
  have empty : PkgHandler.init.db.record = LinkMap.empty := WellDb.record_eq LinkDb.Refines.init
  have room : LinkMap.size PkgHandler.init.db.record < dbMaxLinkCount := by
    rw [empty, LinkDb.Refines.init.size]
    decide
  exact newcomer_learned noHash thisNode (fun _ => wideAwake) thePeer (by rw [empty]; rfl) room rfl

theorem redirect_needs_close_learned :
    Knows someLink thePeer afterFirst ∧
      ¬Redirected noHash someLink thePeer
        (afterFirst.run noHash thisNode [fromAnyone 0x00#8 theAttacker]) := by
  refine ⟨afterFirst_knows, (redirect_needs_close noHash thisNode someLink thePeer afterFirst
    (by decide) afterFirst_knows).1 _ ?_ ?_⟩
  · intro before e later split
    have only : e = fromAnyone 0x00#8 theAttacker := by
      have mem : e ∈ [fromAnyone 0x00#8 theAttacker] := by
        rw [split]
        simp
      exact List.mem_singleton.mp mem
    rw [only]
    exact fun _ _ single => absurd rfl single
  · intro e mem
    rw [List.mem_singleton.mp mem]
    intro _ _ q member
    rw [packetsOf_plain (linkFrame_plain someLink 0x00#8)] at member
    rw [List.mem_singleton.mp member]
    exact linkFrame_unclosed

theorem link_redirected_by_close :
    (∀ context ∈ [contextLinkclose, 0x00#8], isEnvFrame (linkFrame someLink context) = false ∧
      isAckFrame (linkFrame someLink context) = false) ∧
    Knows someLink thePeer afterFirst ∧
      ((afterFirst.run noHash thisNode
        [fromAnyone contextLinkclose theAttacker, fromAnyone 0x00#8 theAttacker]).tcpToRf noHash
          (linkFrame someLink 0x00#8) wideAwake).2 =
        some (linkFrame someLink 0x00#8, theAttacker) := by
  have close : ClosesLink noHash someLink (linkFrame someLink contextLinkclose) :=
    ⟨_, linkFrame_parse someLink contextLinkclose, rfl, rfl, rfl⟩
  have learned := close_then_learned noHash thisNode theAttacker (fun _ => wideAwake)
    afterFirst_knows close (linkFrame_plain someLink contextLinkclose) theAttacker
  exact ⟨by decide, afterFirst_knows, learned.sent noHash (by decide) wideAwake⟩

end RnodeHalow.Handler
