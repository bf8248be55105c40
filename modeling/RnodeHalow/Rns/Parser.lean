import RnodeHalow.Wire

set_option autoImplicit false

namespace RnodeHalow.Rns

def truncatedHashLen : Nat := 16
def linkrequestCoreLen : Nat := 64

abbrev LinkId := Vector Byte truncatedHashLen

inductive Ret where
  | ok
  | nullptr
  | packetTooShort
  | invalidHeaderType
  | invalidHeader2Size
  | invalidHashBody
  | noLinkId
  | noSlot
  | noMemory
  | invalidPacketType
  | notModified
  deriving DecidableEq, Repr

inductive PacketType where
  | data
  | announce
  | linkrequest
  | proof
  deriving DecidableEq, Repr

inductive DestinationType where
  | single
  | group
  | plain
  | link
  deriving DecidableEq, Repr

def contextLinkclose : Byte := 0xFC#8
def contextLinkproof : Byte := 0xFD#8
def contextLrproof : Byte := 0xFF#8

structure PacketInfo where
  hops : Byte
  destinationType : DestinationType
  packetType : PacketType
  context : Byte
  payloadLen : BitVec 16
  destination : LinkId
  linkId : LinkId
  valid : Bool
  deriving DecidableEq, Repr

def packetTypeOf (flags : Byte) : PacketType :=
  if flags &&& 0x03#8 = 0x00#8 then .data
  else if flags &&& 0x03#8 = 0x01#8 then .announce
  else if flags &&& 0x03#8 = 0x02#8 then .linkrequest
  else .proof

def destinationTypeOf (flags : Byte) : DestinationType :=
  if flags >>> 2 &&& 0x03#8 = 0x00#8 then .single
  else if flags >>> 2 &&& 0x03#8 = 0x01#8 then .group
  else if flags >>> 2 &&& 0x03#8 = 0x02#8 then .plain
  else .link

def headerTypeOf (flags : Byte) : Byte := flags >>> 6 &&& 0x01#8

def headerType1 : Byte := 0x00#8
def headerType2 : Byte := 0x01#8

def headerType1Size : Nat := 2 + truncatedHashLen + 1
def headerType2Size : Nat := 2 + truncatedHashLen + truncatedHashLen + 1

def idAt (packet : List Byte) (off : Nat) : LinkId := Vector.ofFn fun i => byteAt packet (off + i)

section Parser

-- `sha256_init`, `sha256_update` and `sha256_final` on the concatenation of what is fed.
variable (sha256 : List Byte → Vector Byte 32)

def rnsLinkParserCalcLinkId (packet : List Byte) : Except Ret LinkId :=
  if packet.length < headerType1Size then .error .packetTooShort
  else
    let flags := byteAt packet 0
    let hash (payloadOffset hashBodyOffset : Nat) : LinkId :=
      let payloadLen := packet.length - payloadOffset
      let hashBodyLen := packet.length - hashBodyOffset
      let hashBodyLen :=
        if packetTypeOf flags = .linkrequest ∧ payloadLen > linkrequestCoreLen then
          hashBodyLen - (payloadLen - linkrequestCoreLen)
        else hashBodyLen
      let first := flags &&& 0x0F#8
      let digest := sha256 (first :: (packet.drop hashBodyOffset).take hashBodyLen)
      idAt digest.toList 0
    if headerTypeOf flags = headerType1 then .ok (hash headerType1Size 2)
    else if headerTypeOf flags = headerType2 then
      if packet.length < headerType2Size then .error .invalidHeader2Size
      else .ok (hash headerType2Size (2 + truncatedHashLen))
    else .error .invalidHeaderType

def parseBody (packet : List Byte) (destination : LinkId) (context : Byte) (payloadOffset : Nat) :
    Except Ret PacketInfo :=
  let flags := byteAt packet 0
  let info : PacketInfo :=
    { hops := byteAt packet 1
      destinationType := destinationTypeOf flags
      packetType := packetTypeOf flags
      context := context
      payloadLen := BitVec.ofNat 16 (packet.length - payloadOffset)
      destination := destination
      linkId := Vector.replicate truncatedHashLen 0#8
      valid := false }
  if info.destinationType = .link then .ok { info with linkId := destination, valid := true }
  else if info.packetType = .linkrequest then
    match rnsLinkParserCalcLinkId sha256 packet with
    | .error e => .error e
    | .ok id => .ok { info with linkId := id, valid := true }
  else .ok info

def rnsLinkParserParse (packet : List Byte) : Except Ret PacketInfo :=
  if packet.length < headerType1Size then .error .packetTooShort
  else
    let flags := byteAt packet 0
    if headerTypeOf flags = headerType1 then
      parseBody sha256 packet (idAt packet 2) (byteAt packet (2 + truncatedHashLen)) headerType1Size
    else if headerTypeOf flags = headerType2 then
      if packet.length < headerType2Size then .error .invalidHeader2Size
      else
        parseBody sha256 packet (idAt packet (2 + truncatedHashLen))
          (byteAt packet (2 + truncatedHashLen + truncatedHashLen)) headerType2Size
    else .error .invalidHeaderType

end Parser

def signallingOffset (packet : List Byte) (pkt : PacketInfo) : Nat :=
  packet.length - pkt.payloadLen.toNat + 64

def linkRequestGetMtu (packet : List Byte) (pkt : PacketInfo) : BitVec 32 :=
  let off := signallingOffset packet pkt
  let signalling := (byteAt packet off).setWidth 32 <<< 16 |||
    (byteAt packet (off + 1)).setWidth 32 <<< 8 ||| (byteAt packet (off + 2)).setWidth 32
  signalling &&& 0x1FFFFF#32

def linkRequestGetMode (packet : List Byte) (pkt : PacketInfo) : Byte :=
  byteAt packet (signallingOffset packet pkt) >>> 5 &&& 0x07#8

def linkRequestSetSignalling (packet : List Byte) (pkt : PacketInfo) (mode : Byte)
    (mtu : BitVec 32) : List Byte :=
  let off := signallingOffset packet pkt
  let signalling := mtu &&& 0x1FFFFF#32 ||| (mode &&& 0x07#8).setWidth 32 <<< 21
  ((packet.set off ((signalling >>> 16).setWidth 8)).set (off + 1)
    ((signalling >>> 8).setWidth 8)).set (off + 2) (signalling.setWidth 8)

structure Clamped where
  ret : Ret
  packet : List Byte
  originalMtu : BitVec 32

def rnsLinkUtilsClampMtu (packet : List Byte) (pkt : PacketInfo) (mtuLimit : BitVec 32) : Clamped :=
  if pkt.packetType ≠ .linkrequest then ⟨.invalidPacketType, packet, 0⟩
  else if pkt.payloadLen.toNat < 67 then ⟨.packetTooShort, packet, 0⟩
  else
    let mtu := linkRequestGetMtu packet pkt
    if mtu ≤ mtuLimit then ⟨.notModified, packet, mtu⟩
    else
      let mode := linkRequestGetMode packet pkt
      ⟨.ok, linkRequestSetSignalling packet pkt mode mtuLimit, mtu⟩

def rnsLinkUtilsGetMtu (packet : List Byte) (pkt : PacketInfo) : Ret × BitVec 32 :=
  if pkt.packetType ≠ .linkrequest then (.invalidPacketType, 0)
  else if pkt.payloadLen.toNat < 67 then (.packetTooShort, 0)
  else (.ok, linkRequestGetMtu packet pkt)

end RnodeHalow.Rns
