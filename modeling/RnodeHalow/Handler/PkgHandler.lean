import RnodeHalow.Handler.Bundles
import RnodeHalow.Rns.LinkMap
import RnodeHalow.Stream.Encoder

set_option autoImplicit false

namespace RnodeHalow.Handler

open Resumption Rns

def rnsLinkMtuFixed : BitVec 32 := 500#32

def linkMtuLimit (hw : BitVec 32) : BitVec 32 := if rnsLinkMtuFixed < hw then rnsLinkMtuFixed else hw

def linkEffectiveMtu (hw advertised : BitVec 32) : BitVec 32 :=
  let lim := linkMtuLimit hw
  if advertised = 0 ∨ advertised > lim then lim else advertised

def peerMacKnown (mac : Mac) : Bool := mac ≠ linkMacUnknown

structure Ambient where
  nowS : Int
  hwMtu : BitVec 32
  malloc : Bool
  osMalloc : Nat → Option Stream.Buf

structure PkgHandler where
  db : WellDb
  -- the frames handed to `tcp_server_send_owned`, the newest first
  toTcp : List (Stream.Buf × Nat)

-- What happens to the handler; a frame can hold several packets, so `amb` is a sequence there.
inductive Happening where
  | received (data : List Byte) (addr2 addr3 : Mac) (accepted : Bool) (amb : Nat → Ambient)
  | transmit (pkg : List Byte) (amb : Ambient)
  | sweep (nowS : Int)

namespace PkgHandler

def init : PkgHandler := ⟨.init, []⟩

variable (sha256 : List Byte → Vector Byte 32)

def rxRegistration (pkg : List Byte) (info : PacketInfo) (srcMac : Mac) (unicastToMe : Bool)
    (amb : Ambient) : Registration :=
  let isLinkrequest := decide (info.packetType = .linkrequest)
  let rxMtu :=
    if isLinkrequest then linkEffectiveMtu amb.hwMtu (rnsLinkUtilsGetMtu pkg info).2 else 0
  ⟨info, .rx, some srcMac, rxMtu, isLinkrequest, unicastToMe⟩

def deliverRnsFrame (pkg : List Byte) (srcMac : Mac) (unicastToMe : Bool) (amb : Ambient)
    (h : PkgHandler) : PkgHandler :=
  match rnsLinkParserParse sha256 pkg with
  | .error _ => h
  | .ok info =>
    { db :=
        if info.valid then
          (h.db.register (rxRegistration pkg info srcMac unicastToMe amb) amb.nowS amb.malloc).2
        else h.db
      toTcp := (Stream.deliverEncode amb.osMalloc pkg).toList ++ h.toTcp }

def deliverNext (pkg : List Byte) (srcMac : Mac) (unicastToMe : Bool) :
    Sec (PkgHandler × (Nat → Ambient)) Unit :=
  Sec.modify fun s =>
    (s.1.deliverRnsFrame sha256 pkg srcMac unicastToMe (s.2 0), fun n => s.2 (n + 1))

def rfToTcp (pkg : List Byte) (srcMac dstMac : Mac) (accepted : Bool) (amb : Nat → Ambient)
    (h : PkgHandler) : PkgHandler :=
  if !accepted then h
  else
    let unicastToMe := decide (dstMac ≠ macBroadcast)
    if isEnvBundle pkg then
      if !bundleWalkValid pkg envBundleHdr (byteAt pkg 5).toNat then h
      else
        (bundleSplitDeliver (deliverNext sha256) pkg srcMac unicastToMe envBundleHdr
          (byteAt pkg 5).toNat 0 (h, amb)).2.1
    else h.deliverRnsFrame sha256 pkg srcMac unicastToMe (amb 0)

-- `halow_rx_handler`: what is not for this node stays out.
def rxHandler (myMac : Mac) (data : List Byte) (addr2 addr3 : Mac) (accepted : Bool)
    (amb : Nat → Ambient) (h : PkgHandler) : PkgHandler :=
  if data.length = 0 then h
  else if addr3 ≠ macBroadcast ∧ addr3 ≠ myMac then h
  else h.rfToTcp sha256 data addr2 addr3 accepted amb

def txDest (info : PacketInfo) (db : WellDb) : Mac :=
  if info.valid then
    match db.record info.linkId with
    | some link => if peerMacKnown link.remoteMac then link.remoteMac else macBroadcast
    | none => macBroadcast
  else macBroadcast

def tcpToRf (pkg : List Byte) (amb : Ambient) (h : PkgHandler) :
    PkgHandler × Option (List Byte × Mac) :=
  match rnsLinkParserParse sha256 pkg with
  | .error _ => (h, none)
  | .ok info =>
    if info.valid && decide (info.packetType = .linkrequest) then
      let clamped := rnsLinkUtilsClampMtu pkg info (linkMtuLimit amb.hwMtu)
      let storedMtu := linkEffectiveMtu amb.hwMtu clamped.originalMtu
      let db := (h.db.register ⟨info, .tx, none, storedMtu, true, false⟩ amb.nowS amb.malloc).2
      ({ h with db := db }, some (clamped.packet, txDest info db))
    else if info.valid then
      let db := (h.db.register ⟨info, .tx, none, 0, false, false⟩ amb.nowS amb.malloc).2
      ({ h with db := db }, some (pkg, txDest info db))
    else (h, some (pkg, txDest info h.db))

def step (myMac : Mac) (h : PkgHandler) : Happening → PkgHandler
  | .received data addr2 addr3 accepted amb => h.rxHandler sha256 myMac data addr2 addr3 accepted amb
  | .transmit pkg amb => (h.tcpToRf sha256 pkg amb).1
  | .sweep nowS => { h with db := h.db.sweep nowS }

def run (myMac : Mac) (h : PkgHandler) (events : List Happening) : PkgHandler :=
  events.foldl (step sha256 myMac) h

end PkgHandler

def packetsOf (data : List Byte) : List (List Byte) :=
  if isEnvBundle data then
    if bundleWalkValid data envBundleHdr (byteAt data 5).toNat then
      subFrames data envBundleHdr (byteAt data 5).toNat
    else []
  else [data]

namespace PkgHandler

variable {sha256 : List Byte → Vector Byte 32}

theorem rfToTcp_eq (pkg : List Byte) (src dst : Mac) (amb : Nat → Ambient) (h : PkgHandler) :
    h.rfToTcp sha256 pkg src dst true amb = (Sec.forEach (packetsOf pkg)
      (fun q => deliverNext sha256 q src (decide (dst ≠ macBroadcast))) 0 (h, amb)).2.1 := by
  rw [rfToTcp, Bool.not_true, if_neg Bool.false_ne_true, packetsOf]
  dsimp only
  by_cases bundle : isEnvBundle pkg = true
  · rw [if_pos bundle, if_pos bundle, bundleSplitDeliver_eq]
    cases bundleWalkValid pkg envBundleHdr (byteAt pkg 5).toNat <;> rfl
  · rw [if_neg bundle, if_neg bundle]
    rfl

theorem rfToTcp_keeps {P : PkgHandler → Prop} {pkg : List Byte} {srcMac dstMac : Mac}
    {accepted : Bool} {amb : Nat → Ambient} {h : PkgHandler} (start : P h)
    (each : ∀ q ∈ packetsOf pkg, accepted = true → ∀ amb h, P h →
      P (h.deliverRnsFrame sha256 q srcMac (decide (dstMac ≠ macBroadcast)) amb)) :
    P (h.rfToTcp sha256 pkg srcMac dstMac accepted amb) := by
  cases accepted with
  | false => exact start
  | true =>
    rw [rfToTcp_eq]
    generalize packetsOf pkg = packets at each
    induction packets generalizing h amb with
    | nil => exact start
    | cons q rest ih =>
      exact ih (each q List.mem_cons_self rfl (amb 0) h start) fun q mem =>
        each q (List.mem_cons_of_mem _ mem)

end PkgHandler

end RnodeHalow.Handler
