import RnodeHalow.Handler.Redirect

set_option autoImplicit false

namespace RnodeHalow.Handler

open Rns

variable {sha256 : List Byte → Vector Byte 32}

-- Where the packets of a link go: to the other end once it is known, to everyone until then.
def linkRoute (d : WellDb) (id : LinkId) : Mac :=
  match d.record id with
  | some r => if r.remoteMac ≠ linkMacUnknown then r.remoteMac else macBroadcast
  | none => macBroadcast

def RouteKnown (d : WellDb) (id : LinkId) : Prop :=
  ∃ r, d.record id = some r ∧ r.remoteMac ≠ linkMacUnknown

section Routes

variable {d d' : WellDb} {id : LinkId}

theorem txDest_route {info : PacketInfo} (valid : info.valid = true) :
    PkgHandler.txDest info d = linkRoute d info.linkId := by
  rw [PkgHandler.txDest, if_pos valid, linkRoute]
  cases d.record info.linkId with
  | none => rfl
  | some r => simp only [peerMacKnown, decide_eq_true_eq]

theorem linkRoute_absent (absent : d.record id = none) : linkRoute d id = macBroadcast := by
  rw [linkRoute, absent]

theorem linkRoute_held {r : Record} (held : d.record id = some r) :
    linkRoute d id = r.remoteMac := by
  rw [linkRoute, held]
  dsimp only
  split
  · rfl
  next unknown =>
    rw [not_not.mp unknown]
    rfl

theorem linkRoute_broadcast_iff : linkRoute d id = macBroadcast ↔ ¬RouteKnown d id := by
  cases held : d.record id with
  | none => simp [linkRoute_absent held, RouteKnown, held]
  | some r =>
    have same : macBroadcast = linkMacUnknown := rfl
    simp [linkRoute_held held, RouteKnown, held, same]

end Routes

section Registers

variable {d : WellDb} {reg : Registration} {nowS : Int} {malloc : Bool}

theorem register_route (silent : reg.remoteMac = none)
    (goes : reg.pkg.context ≠ contextLinkclose) :
    linkRoute (d.register reg nowS malloc).2 reg.pkg.linkId = linkRoute d reg.pkg.linkId := by
  have after := congrFun (d.register_record reg nowS malloc) reg.pkg.linkId
  cases held : d.record reg.pkg.linkId with
  | some r =>
    rw [LinkMap.register_present rfl goes held] at after
    rw [linkRoute_held after, linkRoute_held held, Record.touched_remoteMac]
    exact learnedMac_kept (.inl silent)
  | none =>
    rw [linkRoute_absent held]
    cases next : (d.register reg nowS malloc).2.record reg.pkg.linkId with
    | none => exact linkRoute_absent next
    | some s =>
      have fresh : s = (Record.fresh reg nowS).touched reg nowS :=
        LinkMap.register_newcomer goes held (after.symm.trans next)
      rw [linkRoute_held next, fresh, Record.touched_remoteMac]
      exact learnedMac_kept (.inl silent)

theorem register_closed_route (close : reg.pkg.context = contextLinkclose) :
    linkRoute (d.register reg nowS malloc).2 reg.pkg.linkId = macBroadcast := by
  apply linkRoute_absent
  rw [WellDb.register_record, LinkMap.register_close rfl close, Function.update_self]

end Registers

-- A packet that closes a link whose other end is known goes to everyone.
theorem tcp_to_rf_routed_iff (sha256 : List Byte → Vector Byte 32) (h : PkgHandler)
    (pkg : List Byte) (amb : Ambient) (info : PacketInfo)
    (parsed : rnsLinkParserParse sha256 pkg = .ok info) (valid : info.valid = true) :
    (∃ sent, (h.tcpToRf sha256 pkg amb).2 = some (sent, linkRoute h.db info.linkId)) ↔
      ¬(info.context = contextLinkclose ∧ RouteKnown h.db info.linkId) := by
  obtain ⟨reg, sent, rfl, silent, result⟩ := tcpToRf_valid h amb parsed valid
  rw [result, txDest_route valid]
  simp only [Option.some.injEq, Prod.mk.injEq, exists_eq_left']
  by_cases close : reg.pkg.context = contextLinkclose
  · rw [register_closed_route close, eq_comm, linkRoute_broadcast_iff]
    simp only [close, true_and]
  · rw [register_route silent close]
    simp only [close, false_and, not_false_eq_true]

theorem tcp_to_rf_routed_data :
    linkRoute afterFirst.db someLink = thePeer ∧
      ∃ sent, (afterFirst.tcpToRf noHash (linkFrame someLink 0x00#8) wideAwake).2 =
        some (sent, linkRoute afterFirst.db someLink) := by
  obtain ⟨r, held, mac⟩ := afterFirst_knows
  refine ⟨(linkRoute_held held).trans mac, ?_⟩
  exact (tcp_to_rf_routed_iff noHash afterFirst (linkFrame someLink 0x00#8) wideAwake
    (linkFrameInfo someLink 0x00#8) (linkFrame_parse someLink 0x00#8) rfl).mpr
      fun both => linkFrame_goes both.1

theorem close_goes_to_everyone :
    linkRoute afterFirst.db someLink = thePeer ∧ thePeer ≠ macBroadcast ∧
      (afterFirst.tcpToRf noHash (linkFrame someLink contextLinkclose) wideAwake).2 =
        some (linkFrame someLink contextLinkclose, macBroadcast) := by
  obtain ⟨r, held, mac⟩ := afterFirst_knows
  refine ⟨(linkRoute_held held).trans mac, by decide, ?_⟩
  rw [PkgHandler.tcpToRf, linkFrame_parse]
  change some (linkFrame someLink contextLinkclose,
    PkgHandler.txDest (linkFrameInfo someLink contextLinkclose) _) = _
  rw [txDest_route rfl]
  exact congrArg (fun dest => some (linkFrame someLink contextLinkclose, dest))
    (@register_closed_route afterFirst.db
      ⟨linkFrameInfo someLink contextLinkclose, .tx, none, 0, false, false⟩ 0 true rfl)

end RnodeHalow.Handler
