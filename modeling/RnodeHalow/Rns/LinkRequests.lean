import RnodeHalow.Rns.Parser
import RnodeHalow.Shared.Buffer
import RnodeHalow.Shared.Octets

set_option autoImplicit false

namespace RnodeHalow.Rns

section Hashed

variable (sha256 : List Byte → Vector Byte 32)

def payloadStart (p : List Byte) : Nat :=
  if headerTypeOf (byteAt p 0) = headerType1 then headerType1Size else headerType2Size

theorem payloadStart_bounds (p : List Byte) : 19 ≤ payloadStart p ∧ payloadStart p ≤ 35 := by
  rw [payloadStart]
  split <;> decide

def hashedStart (p : List Byte) : Nat :=
  if headerTypeOf (byteAt p 0) = headerType1 then 2 else 2 + truncatedHashLen

def hashedLen : Nat := truncatedHashLen + 1 + linkrequestCoreLen

-- The lower half of the flags, the destination, the context and 64 bytes of the payload.
def hashedPart (p : List Byte) : List Byte :=
  (byteAt p 0 &&& 0x0F#8) :: (p.drop (hashedStart p)).take hashedLen

def linkIdOf (p : List Byte) : LinkId := idAt (sha256 (hashedPart p)).toList 0

variable {sha256} {p q : List Byte}

theorem headerTypeOf_cases : ∀ flags : Byte,
    headerTypeOf flags = headerType1 ∨ headerTypeOf flags = headerType2 := by
  decide

theorem hashedStart_add (p : List Byte) :
    hashedStart p + hashedLen = payloadStart p + linkrequestCoreLen := by
  unfold hashedStart payloadStart
  split <;> rfl

theorem starts_congr (same : headerTypeOf (byteAt q 0) = headerTypeOf (byteAt p 0)) :
    payloadStart q = payloadStart p ∧ hashedStart q = hashedStart p := by
  rw [payloadStart, payloadStart, hashedStart, hashedStart, same]
  exact ⟨rfl, rfl⟩

theorem calcLinkId_eq (long : payloadStart p ≤ p.length)
    (request : packetTypeOf (byteAt p 0) = .linkrequest) :
    rnsLinkParserCalcLinkId sha256 p = .ok (linkIdOf sha256 p) := by
  have bounds := payloadStart_bounds p
  have counted (start : Nat) (at_start : start = hashedStart p) :
      (p.drop start).take
          (if p.length - payloadStart p > linkrequestCoreLen then
            p.length - start - (p.length - payloadStart p - linkrequestCoreLen)
          else p.length - start) =
        (p.drop start).take hashedLen := by
    have sum := hashedStart_add p
    rw [← at_start] at sum
    split <;> rename_i core
    · congr 1
      omega
    · rw [List.take_of_length_le (by rw [List.length_drop]),
        List.take_of_length_le (by rw [List.length_drop]; omega)]
  rw [rnsLinkParserCalcLinkId, if_neg (by rw [headerType1Size, truncatedHashLen]; omega)]
  simp only [request, true_and]
  by_cases one : headerTypeOf (byteAt p 0) = headerType1
  · have start : payloadStart p = headerType1Size := if_pos one
    have hashed : hashedStart p = 2 := if_pos one
    rw [start] at counted
    rw [if_pos one, linkIdOf, hashedPart, hashed, ← counted 2 hashed.symm]
  · have two := (headerTypeOf_cases (byteAt p 0)).resolve_left one
    have start : payloadStart p = headerType2Size := if_neg one
    have hashed : hashedStart p = 2 + truncatedHashLen := if_neg one
    rw [start] at counted long
    rw [if_neg one, if_pos two, if_neg (Nat.not_lt.mpr long), linkIdOf, hashedPart, hashed,
      ← counted (2 + truncatedHashLen) hashed.symm]

end Hashed

section Rewriting

variable (sha256 : List Byte → Vector Byte 32)

structure Alike (p q : List Byte) : Prop where
  length : q.length = p.length
  parse : rnsLinkParserParse sha256 q = rnsLinkParserParse sha256 p

variable {sha256} {p q : List Byte} {n : Nat}

theorem Alike.refl (p : List Byte) : Alike sha256 p p := ⟨rfl, rfl⟩

theorem Alike.trans {r : List Byte} (first : Alike sha256 p q) (second : Alike sha256 q r) :
    Alike sha256 p r := ⟨second.length.trans first.length, second.parse.trans first.parse⟩

theorem byteAt_congr (same : q.take n = p.take n) {i : Nat} (below : i < n) :
    byteAt q i = byteAt p i := by
  have taken (l : List Byte) : byteAt (l.take n) i = byteAt l i := by
    simp only [byteAt, List.getD_eq_getElem?_getD, List.getElem?_take_of_lt below]
  rw [← taken q, same, taken]

theorem idAt_congr (same : q.take n = p.take n) {off : Nat} (below : off + truncatedHashLen ≤ n) :
    idAt q off = idAt p off := by
  apply Vector.ext
  intro i bound
  simp only [idAt, Vector.getElem_ofFn]
  exact byteAt_congr same (by omega)

theorem drop_take_congr (same : q.take n = p.take n) {off len : Nat} (below : off + len ≤ n) :
    (q.drop off).take len = (p.drop off).take len := by
  have cut (l : List Byte) : (l.drop off).take len = ((l.take n).drop off).take len := by
    rw [List.drop_take, List.take_take, Nat.min_eq_left (by omega)]
  rw [cut q, same, ← cut p]

theorem parse_body {info : PacketInfo} (parsed : rnsLinkParserParse sha256 p = .ok info) :
    payloadStart p ≤ p.length ∧
      ∃ destination context, parseBody sha256 p destination context (payloadStart p) = .ok info := by
  unfold rnsLinkParserParse at parsed
  dsimp only at parsed
  split at parsed
  · cases parsed
  next long =>
    unfold payloadStart
    split at parsed
    next one =>
      rw [if_pos one]
      exact ⟨Nat.le_of_not_lt long, _, _, parsed⟩
    next other =>
      rw [if_neg other]
      split at parsed
      · split at parsed
        · cases parsed
        next long2 => exact ⟨Nat.le_of_not_lt long2, _, _, parsed⟩
      · cases parsed

theorem parse_header {info : PacketInfo} (parsed : rnsLinkParserParse sha256 p = .ok info) :
    payloadStart p ≤ p.length ∧ info.packetType = packetTypeOf (byteAt p 0) ∧
      info.destinationType = destinationTypeOf (byteAt p 0) ∧
      info.payloadLen = BitVec.ofNat 16 (p.length - payloadStart p) := by
  obtain ⟨long, destination, context, result⟩ := parse_body parsed
  refine ⟨long, ?_⟩
  unfold parseBody at result
  dsimp only at result
  split at result
  · cases result
    exact ⟨rfl, rfl, rfl⟩
  · split at result
    · split at result
      · cases result
      · cases result
        exact ⟨rfl, rfl, rfl⟩
    · cases result
      exact ⟨rfl, rfl, rfl⟩

theorem hashedPart_take (same : q.take n = p.take n)
    (core : payloadStart p + linkrequestCoreLen ≤ n) : hashedPart q = hashedPart p := by
  have flags : byteAt q 0 = byteAt p 0 := byteAt_congr same (by rw [linkrequestCoreLen] at core; omega)
  rw [hashedPart, hashedPart, flags, (starts_congr (congrArg headerTypeOf flags)).2,
    drop_take_congr same (by rwa [hashedStart_add])]

section Congruence

variable (length : q.length = p.length) (same : q.take n = p.take n)
  (core : payloadStart p + linkrequestCoreLen ≤ n)
  (request : packetTypeOf (byteAt p 0) = .linkrequest)
  (long : linkrequestCoreLen < p.length - payloadStart p)

include length same core request long

theorem calcLinkId_congr : rnsLinkParserCalcLinkId sha256 q = rnsLinkParserCalcLinkId sha256 p := by
  have flags : byteAt q 0 = byteAt p 0 := byteAt_congr same (by rw [linkrequestCoreLen] at core; omega)
  have start : payloadStart q = payloadStart p := (starts_congr (congrArg headerTypeOf flags)).1
  have inside : payloadStart p ≤ p.length := by omega
  rw [calcLinkId_eq inside request,
    calcLinkId_eq (by rwa [start, length]) ((congrArg packetTypeOf flags).trans request),
    linkIdOf, hashedPart_take same core, linkIdOf]

theorem parse_congr : rnsLinkParserParse sha256 q = rnsLinkParserParse sha256 p := by
  have bounds := payloadStart_bounds p
  have flags : byteAt q 0 = byteAt p 0 := byteAt_congr same (by omega)
  have hops : byteAt q 1 = byteAt p 1 := byteAt_congr same (by omega)
  have body (destination : LinkId) (context : Byte) (off : Nat) :
      parseBody sha256 q destination context off = parseBody sha256 p destination context off := by
    unfold parseBody
    simp only [length, flags, hops, calcLinkId_congr length same core request long]
  have room : 99 ≤ n ∨ headerTypeOf (byteAt p 0) = headerType1 := by
    by_cases one : headerTypeOf (byteAt p 0) = headerType1
    · exact .inr one
    · have start : payloadStart p = headerType2Size := if_neg one
      rw [start] at core
      exact .inl core
  have destination1 : idAt q 2 = idAt p 2 :=
    idAt_congr same (by rw [truncatedHashLen]; omega)
  have context1 : byteAt q (2 + truncatedHashLen) = byteAt p (2 + truncatedHashLen) :=
    byteAt_congr same (by rw [truncatedHashLen]; omega)
  unfold rnsLinkParserParse
  simp only [length, flags, body, destination1, context1]
  rcases room with room | one
  · have destination2 : idAt q (2 + truncatedHashLen) = idAt p (2 + truncatedHashLen) :=
      idAt_congr same (by rw [truncatedHashLen]; omega)
    have context2 : byteAt q (2 + truncatedHashLen + truncatedHashLen) =
        byteAt p (2 + truncatedHashLen + truncatedHashLen) :=
      byteAt_congr same (by rw [truncatedHashLen]; omega)
    rw [destination2, context2]
  · simp only [one, if_true]

end Congruence

theorem setSignalling_take (packet : List Byte) (pkt : PacketInfo) (mode : Byte) (mtu : BitVec 32) :
    (linkRequestSetSignalling packet pkt mode mtu).take (signallingOffset packet pkt) =
      packet.take (signallingOffset packet pkt) := by
  simp only [linkRequestSetSignalling, List.take_set]
  rw [List.set_eq_of_length_le, List.set_eq_of_length_le, List.set_eq_of_length_le]
  all_goals simp only [List.length_set, List.length_take]
  all_goals omega

theorem clampMtu_alike {info : PacketInfo} (parsed : rnsLinkParserParse sha256 p = .ok info)
    (mtuLimit : BitVec 32) : Alike sha256 p (rnsLinkUtilsClampMtu p info mtuLimit).packet := by
  unfold rnsLinkUtilsClampMtu
  split
  · exact .refl p
  next request =>
    split
    · exact .refl p
    next long =>
      dsimp only
      split
      · exact .refl p
      · obtain ⟨start, packetType, -, payloadLen⟩ := parse_header parsed
        have cut : info.payloadLen.toNat ≤ p.length - payloadStart p := by
          rw [payloadLen, BitVec.toNat_ofNat]
          exact Nat.mod_le _ _
        have length : (linkRequestSetSignalling p info (linkRequestGetMode p info)
            mtuLimit).length = p.length := by
          simp only [linkRequestSetSignalling, List.length_set]
        refine ⟨length, parse_congr length (setSignalling_take p info _ _) ?_ ?_ ?_⟩
        · rw [signallingOffset, linkrequestCoreLen]
          omega
        · rw [← packetType]
          exact not_not.mp request
        · rw [linkrequestCoreLen]
          omega

end Rewriting

section LinkId

variable (sha256 : List Byte → Vector Byte 32)

structure Requests (p : List Byte) (info : PacketInfo) : Prop where
  parsed : rnsLinkParserParse sha256 p = .ok info
  request : info.packetType = .linkrequest
  direct : info.destinationType ≠ .link

variable {sha256} {p q : List Byte}

theorem Requests.linkId {info : PacketInfo} (requests : Requests sha256 p info) :
    info.linkId = linkIdOf sha256 p := by
  obtain ⟨parsed, request, direct⟩ := requests
  obtain ⟨long, packetType, destinationType, -⟩ := parse_header parsed
  obtain ⟨-, destination, context, result⟩ := parse_body parsed
  rw [packetType] at request
  rw [destinationType] at direct
  rw [parseBody, if_neg direct, if_pos request, calcLinkId_eq long request] at result
  cases result
  rfl

variable (sha256) in
theorem exists_requests (long : payloadStart p ≤ p.length)
    (request : packetTypeOf (byteAt p 0) = .linkrequest)
    (direct : destinationTypeOf (byteAt p 0) ≠ .link) : ∃ info, Requests sha256 p info := by
  have bounds := payloadStart_bounds p
  have body (destination : LinkId) (context : Byte) (off : Nat) :
      ∃ info, parseBody sha256 p destination context off = .ok info ∧
        info.packetType = packetTypeOf (byteAt p 0) ∧
        info.destinationType = destinationTypeOf (byteAt p 0) := by
    rw [parseBody, if_neg direct, if_pos request, calcLinkId_eq long request]
    exact ⟨_, rfl, rfl, rfl⟩
  have parsed : ∃ destination context off,
      rnsLinkParserParse sha256 p = parseBody sha256 p destination context off := by
    rw [rnsLinkParserParse, if_neg (by rw [headerType1Size, truncatedHashLen]; omega)]
    by_cases one : headerTypeOf (byteAt p 0) = headerType1
    · simp only [if_pos one]
      exact ⟨_, _, _, rfl⟩
    · have two := (headerTypeOf_cases (byteAt p 0)).resolve_left one
      have start : payloadStart p = headerType2Size := if_neg one
      simp only [if_neg one, if_pos two, if_neg (Nat.not_lt.mpr (start ▸ long))]
      exact ⟨_, _, _, rfl⟩
  obtain ⟨destination, context, off, parsed⟩ := parsed
  obtain ⟨info, result, packetType, destinationType⟩ := body destination context off
  exact ⟨info, parsed.trans result, packetType.trans request, destinationType ▸ direct⟩

theorem lower_packetType (flags : Byte) : packetTypeOf flags = packetTypeOf (flags &&& 0x0F#8) := by
  have low : ∀ flags : Byte, flags &&& 0x0F#8 &&& 0x03#8 = flags &&& 0x03#8 := by decide
  rw [packetTypeOf, packetTypeOf, low]

theorem lower_destinationType (flags : Byte) :
    destinationTypeOf flags = destinationTypeOf (flags &&& 0x0F#8) := by
  have low : ∀ flags : Byte, (flags &&& 0x0F#8) >>> 2 &&& 0x03#8 = flags >>> 2 &&& 0x03#8 := by
    decide
  rw [destinationTypeOf, destinationTypeOf, low]

theorem Requests.of_hashed {info : PacketInfo} (requests : Requests sha256 p info)
    (long : payloadStart q ≤ q.length) (hashed : hashedPart q = hashedPart p) :
    ∃ info', Requests sha256 q info' ∧ info'.linkId = info.linkId := by
  obtain ⟨-, packetType, destinationType, -⟩ := parse_header requests.parsed
  have lower : byteAt q 0 &&& 0x0F#8 = byteAt p 0 &&& 0x0F#8 := (List.cons.inj hashed).1
  have request : packetTypeOf (byteAt q 0) = .linkrequest := by
    rw [lower_packetType, lower, ← lower_packetType, ← packetType, requests.request]
  have direct : destinationTypeOf (byteAt q 0) ≠ .link := by
    rw [lower_destinationType, lower, ← lower_destinationType, ← destinationType]
    exact requests.direct
  obtain ⟨info', requests'⟩ := exists_requests sha256 long request direct
  refine ⟨info', requests', ?_⟩
  rw [requests'.linkId, requests.linkId, linkIdOf, hashed, linkIdOf]

variable (sha256) in
inductive Alters : List Byte → List Byte → Prop
  | toType2 (p : List Byte) (transport : LinkId) : headerTypeOf (byteAt p 0) = headerType1 →
      Alters p ((byteAt p 0 ||| 0x40#8) :: byteAt p 1 :: (transport.toList ++ p.drop 2))
  | toType1 (p : List Byte) : headerTypeOf (byteAt p 0) = headerType2 →
      Alters p ((byteAt p 0 &&& 0xBF#8) :: byteAt p 1 :: p.drop (2 + truncatedHashLen))
  | hops (p : List Byte) (hops : Byte) : Alters p (p.set 1 hops)
  | flags (p : List Byte) (flags : Byte) : flags &&& 0x0F#8 = byteAt p 0 &&& 0x0F#8 →
      headerTypeOf flags = headerTypeOf (byteAt p 0) → Alters p (p.set 0 flags)
  | tail (p rest : List Byte) : payloadStart p + linkrequestCoreLen ≤ p.length →
      Alters p (p.take (payloadStart p + linkrequestCoreLen) ++ rest)
  | clamp (p : List Byte) (info : PacketInfo) (mtuLimit : BitVec 32) :
      rnsLinkParserParse sha256 p = .ok info →
      Alters p (rnsLinkUtilsClampMtu p info mtuLimit).packet

theorem starts_of_type1 (one : headerTypeOf (byteAt p 0) = headerType1) :
    payloadStart p = 19 ∧ hashedStart p = 2 := by
  rw [payloadStart, hashedStart, if_pos one, if_pos one]
  exact ⟨rfl, rfl⟩

theorem starts_of_type2 (two : headerTypeOf (byteAt p 0) = headerType2) :
    payloadStart p = 35 ∧ hashedStart p = 18 := by
  have other : headerTypeOf (byteAt p 0) ≠ headerType1 := by
    rw [two]
    decide
  rw [payloadStart, hashedStart, if_neg other, if_neg other]
  exact ⟨rfl, rfl⟩

theorem hashedPart_congr (same : headerTypeOf (byteAt q 0) = headerTypeOf (byteAt p 0))
    (lower : byteAt q 0 &&& 0x0F#8 = byteAt p 0 &&& 0x0F#8) (rest : q.drop 2 = p.drop 2) :
    hashedPart q = hashedPart p := by
  have after : 2 ≤ hashedStart p := by
    unfold hashedStart
    split <;> decide
  have dropped (l : List Byte) : l.drop (hashedStart p) = (l.drop 2).drop (hashedStart p - 2) := by
    rw [List.drop_drop, Nat.add_sub_cancel' after]
  rw [hashedPart, hashedPart, lower, (starts_congr same).2, dropped q, rest, ← dropped p]

theorem toType2_flags : ∀ flags : Byte, headerTypeOf (flags ||| 0x40#8) = headerType2 ∧
    (flags ||| 0x40#8) &&& 0x0F#8 = flags &&& 0x0F#8 := by
  decide

theorem toType1_flags : ∀ flags : Byte, headerTypeOf (flags &&& 0xBF#8) = headerType1 ∧
    (flags &&& 0xBF#8) &&& 0x0F#8 = flags &&& 0x0F#8 := by
  decide

theorem Requests.altered {info : PacketInfo} (requests : Requests sha256 p info)
    (alters : Alters sha256 p q) :
    ∃ info', Requests sha256 q info' ∧ info'.linkId = info.linkId := by
  have long := (parse_header requests.parsed).1
  have bounds := payloadStart_bounds p
  cases alters with
  | toType2 transport one =>
    obtain ⟨two, lower⟩ := toType2_flags (byteAt p 0)
    obtain ⟨payload, hashed⟩ := starts_of_type1 one
    obtain ⟨payload', hashed'⟩ := starts_of_type2
      (p := (byteAt p 0 ||| 0x40#8) :: byteAt p 1 :: (transport.toList ++ p.drop 2)) two
    have same : ((byteAt p 0 ||| 0x40#8) :: byteAt p 1 :: (transport.toList ++ p.drop 2)).drop 18 =
        p.drop 2 := List.drop_left' Vector.length_toList
    apply requests.of_hashed
    · rw [payload', List.length_cons, List.length_cons, List.length_append, Vector.length_toList,
        List.length_drop, truncatedHashLen]
      omega
    · rw [hashedPart, hashedPart, hashed, hashed', same, ← lower]
      rfl
  | toType1 two =>
    obtain ⟨one, lower⟩ := toType1_flags (byteAt p 0)
    obtain ⟨payload, hashed⟩ := starts_of_type2 two
    obtain ⟨payload', hashed'⟩ := starts_of_type1
      (p := (byteAt p 0 &&& 0xBF#8) :: byteAt p 1 :: p.drop (2 + truncatedHashLen)) one
    apply requests.of_hashed
    · rw [payload', List.length_cons, List.length_cons, List.length_drop, truncatedHashLen]
      omega
    · rw [hashedPart, hashedPart, hashed, hashed', ← lower]
      rfl
  | hops hops =>
    have flags : byteAt (p.set 1 hops) 0 = byteAt p 0 := by simp [byteAt]
    apply requests.of_hashed
    · rw [(starts_congr (congrArg headerTypeOf flags)).1, List.length_set]
      exact long
    · exact hashedPart_congr (congrArg headerTypeOf flags) (congrArg (· &&& 0x0F#8) flags)
        (List.drop_set_of_lt (by decide))
  | flags flags lower same =>
    have first : byteAt (p.set 0 flags) 0 = flags := by
      have some : 0 < p.length := by omega
      simp [byteAt, some]
    rw [← first] at lower same
    apply requests.of_hashed
    · rw [(starts_congr same).1, List.length_set]
      exact long
    · exact hashedPart_congr same lower (List.drop_set_of_lt (by decide))
  | tail rest core =>
    have same : (p.take (payloadStart p + linkrequestCoreLen) ++ rest).take
        (payloadStart p + linkrequestCoreLen) = p.take (payloadStart p + linkrequestCoreLen) :=
      List.take_left' (List.length_take_of_le core)
    have flags := byteAt_congr same (show 0 < payloadStart p + linkrequestCoreLen by omega)
    have payload := (starts_congr (congrArg headerTypeOf flags)).1
    apply requests.of_hashed
    · rw [payload, List.length_append, List.length_take_of_le core]
      omega
    · exact hashedPart_take same (Nat.le_refl _)
  | clamp info' mtuLimit parsed =>
    have alike := clampMtu_alike parsed mtuLimit
    exact ⟨info, ⟨alike.parse.trans requests.parsed, requests.request, requests.direct⟩, rfl⟩

-- However a link request is altered on its way, it asks for the same link.
theorem linkId_invariant {info : PacketInfo} (requests : Requests sha256 p info)
    (altered : Relation.ReflTransGen (Alters sha256) p q) :
    ∃ info', Requests sha256 q info' ∧ info'.linkId = info.linkId := by
  induction altered with
  | refl => exact ⟨info, requests, rfl⟩
  | tail _ last ih =>
    obtain ⟨info', requests', same⟩ := ih
    obtain ⟨info'', requests'', same'⟩ := requests'.altered last
    exact ⟨info'', requests'', same'.trans same⟩

end LinkId

section Checked

open Buffer

def linkRequestGetMtuChecked (packet : List Byte) (pkt : PacketInfo) : Option (BitVec 32) := do
  let off := signallingOffset packet pkt
  let high ← readAt packet off
  let middle ← readAt packet (off + 1)
  let low ← readAt packet (off + 2)
  some ((high.setWidth 32 <<< 16 ||| middle.setWidth 32 <<< 8 ||| low.setWidth 32) &&& 0x1FFFFF#32)

def linkRequestGetModeChecked (packet : List Byte) (pkt : PacketInfo) : Option Byte := do
  let high ← readAt packet (signallingOffset packet pkt)
  some (high >>> 5 &&& 0x07#8)

def linkRequestSetSignallingChecked (packet : List Byte) (pkt : PacketInfo) (mode : Byte)
    (mtu : BitVec 32) : Option (List Byte) := do
  let off := signallingOffset packet pkt
  let signalling := mtu &&& 0x1FFFFF#32 ||| (mode &&& 0x07#8).setWidth 32 <<< 21
  let packet ← writeAt packet off ((signalling >>> 16).setWidth 8)
  let packet ← writeAt packet (off + 1) ((signalling >>> 8).setWidth 8)
  writeAt packet (off + 2) (signalling.setWidth 8)

def rnsLinkUtilsClampMtuChecked (packet : List Byte) (pkt : PacketInfo) (mtuLimit : BitVec 32) :
    Option Clamped :=
  if pkt.packetType ≠ .linkrequest then some ⟨.invalidPacketType, packet, 0⟩
  else if pkt.payloadLen.toNat < 67 then some ⟨.packetTooShort, packet, 0⟩
  else do
    let mtu ← linkRequestGetMtuChecked packet pkt
    if mtu ≤ mtuLimit then some ⟨.notModified, packet, mtu⟩
    else
      let mode ← linkRequestGetModeChecked packet pkt
      let packet ← linkRequestSetSignallingChecked packet pkt mode mtuLimit
      some ⟨.ok, packet, mtu⟩

theorem clampMtu_checked {packet : List Byte} {pkt : PacketInfo} (mtuLimit : BitVec 32)
    (inside : 67 ≤ pkt.payloadLen.toNat → signallingOffset packet pkt + 2 < packet.length) :
    rnsLinkUtilsClampMtuChecked packet pkt mtuLimit =
      some (rnsLinkUtilsClampMtu packet pkt mtuLimit) := by
  unfold rnsLinkUtilsClampMtuChecked rnsLinkUtilsClampMtu
  split
  · rfl
  split
  · rfl
  next long =>
    have last := inside (Nat.le_of_not_lt long)
    have high : signallingOffset packet pkt < packet.length := by omega
    have middle : signallingOffset packet pkt + 1 < packet.length := by omega
    have mtu : linkRequestGetMtuChecked packet pkt = some (linkRequestGetMtu packet pkt) := by
      simp only [linkRequestGetMtuChecked, readAt_inside high 0#8, readAt_inside middle 0#8,
        readAt_inside last 0#8]
      rfl
    have mode : linkRequestGetModeChecked packet pkt = some (linkRequestGetMode packet pkt) := by
      simp only [linkRequestGetModeChecked, readAt_inside high 0#8]
      rfl
    have set : linkRequestSetSignallingChecked packet pkt (linkRequestGetMode packet pkt) mtuLimit =
        some (linkRequestSetSignalling packet pkt (linkRequestGetMode packet pkt) mtuLimit) := by
      simp only [linkRequestSetSignallingChecked, writeAt_inside high, Option.bind_eq_bind,
        Option.bind_some]
      rw [writeAt_inside (by rwa [List.length_set]), Option.bind_some,
        writeAt_inside (by rwa [List.length_set, List.length_set])]
      rfl
    simp only [mtu, mode, set, Option.bind_eq_bind, Option.bind_some]
    split <;> rfl

end Checked

section Signalling

open Octets

def signalling (mode : Byte) (mtu : BitVec 32) : BitVec 32 :=
  mtu &&& 0x1FFFFF#32 ||| (mode &&& 0x07#8).setWidth 32 <<< 21

theorem mode_octets : ∀ mode : Byte,
    octet ((mode &&& 0x07#8).setWidth 32 <<< 21) 3 = 0#8 ∧
      octet ((mode &&& 0x07#8).setWidth 32 <<< 21) 2 >>> 5 &&& 0x07#8 = mode &&& 0x07#8 ∧
      (mode &&& 0x07#8).setWidth 32 <<< 21 &&& 0x1FFFFF#32 = 0#32 := by
  decide

theorem mtu_octet : ∀ high : Byte, (high &&& 0x1F#8) >>> 5 = 0#8 := by decide

theorem signalling_word (mode : Byte) (mtu : BitVec 32) :
    word 0#8 (octet (signalling mode mtu) 2) (octet (signalling mode mtu) 1)
      (octet (signalling mode mtu) 0) = signalling mode mtu := by
  have top : octet (signalling mode mtu) 3 = 0#8 := by
    rw [signalling, octet_or, octet_and, (mode_octets mode).1]
    have mask : octet 0x1FFFFF#32 3 = 0#8 := by decide
    rw [mask, BitVec.and_zero, BitVec.or_zero]
  rw [← top, word_octets]

theorem signalling_mode (mode : Byte) (mtu : BitVec 32) :
    octet (signalling mode mtu) 2 >>> 5 &&& 0x07#8 = mode &&& 0x07#8 := by
  have mask : octet 0x1FFFFF#32 2 = 0x1F#8 := by decide
  rw [signalling, octet_or, octet_and, mask, BitVec.ushiftRight_or_distrib, mtu_octet,
    BitVec.zero_or, (mode_octets mode).2.1]

theorem signalling_mtu (mode : Byte) {mtu : BitVec 32} (small : mtu.toNat < 2 ^ 21) :
    signalling mode mtu &&& 0x1FFFFF#32 = mtu := by
  have kept : mtu &&& 0x1FFFFF#32 = mtu := by
    apply BitVec.eq_of_toNat_eq
    rw [BitVec.toNat_and]
    exact (Nat.and_two_pow_sub_one_eq_mod _ 21).trans (Nat.mod_eq_of_lt small)
  rw [signalling, BitVec.and_or_distrib_right, kept, kept, (mode_octets mode).2.2, BitVec.or_zero]

variable {p q : List Byte} {pkt : PacketInfo}

theorem getMtu_word : linkRequestGetMtu p pkt =
    word 0#8 (byteAt p (signallingOffset p pkt)) (byteAt p (signallingOffset p pkt + 1))
      (byteAt p (signallingOffset p pkt + 2)) &&& 0x1FFFFF#32 := by
  simp [linkRequestGetMtu, word]

theorem signallingOffset_congr (same : q.length = p.length) :
    signallingOffset q pkt = signallingOffset p pkt := by
  rw [signallingOffset, signallingOffset, same]

section SetSignalling

variable (inside : signallingOffset p pkt + 2 < p.length) (mode : Byte) (mtu : BitVec 32)

theorem setSignalling_length : (linkRequestSetSignalling p pkt mode mtu).length = p.length := by
  simp only [linkRequestSetSignalling, List.length_set]

theorem setSignalling_outside {k : Nat}
    (outside : k < signallingOffset p pkt ∨ signallingOffset p pkt + 3 ≤ k) :
    (linkRequestSetSignalling p pkt mode mtu)[k]? = p[k]? := by
  simp only [linkRequestSetSignalling]
  rw [List.getElem?_set_ne (by omega), List.getElem?_set_ne (by omega),
    List.getElem?_set_ne (by omega)]

include inside in
theorem setSignalling_bytes :
    byteAt (linkRequestSetSignalling p pkt mode mtu) (signallingOffset p pkt) =
        octet (signalling mode mtu) 2 ∧
      byteAt (linkRequestSetSignalling p pkt mode mtu) (signallingOffset p pkt + 1) =
        octet (signalling mode mtu) 1 ∧
      byteAt (linkRequestSetSignalling p pkt mode mtu) (signallingOffset p pkt + 2) =
        octet (signalling mode mtu) 0 := by
  have high : signallingOffset p pkt < p.length := by omega
  have middle : signallingOffset p pkt + 1 < p.length := by omega
  simp [linkRequestSetSignalling, byteAt, signalling, octet, List.getD_eq_getElem?_getD, high,
    middle, inside]

include inside in
theorem getMtu_setSignalling (small : mtu.toNat < 2 ^ 21) :
    linkRequestGetMtu (linkRequestSetSignalling p pkt mode mtu) pkt = mtu := by
  obtain ⟨high, middle, low⟩ := setSignalling_bytes inside mode mtu
  rw [getMtu_word, signallingOffset_congr (setSignalling_length mode mtu), high, middle, low,
    signalling_word, signalling_mtu mode small]

include inside in
theorem getMode_setSignalling :
    linkRequestGetMode (linkRequestSetSignalling p pkt mode mtu) pkt = mode &&& 0x07#8 := by
  obtain ⟨high, -, -⟩ := setSignalling_bytes inside mode mtu
  rw [linkRequestGetMode, signallingOffset_congr (setSignalling_length mode mtu), high,
    signalling_mode]

end SetSignalling

end Signalling

section Clamp

variable {sha256 : List Byte → Vector Byte 32} {p : List Byte} {pkt : PacketInfo}

structure ClampSpec (p : List Byte) (pkt : PacketInfo) (mtuLimit : BitVec 32) (r : Clamped) :
    Prop where
  mtu : (rnsLinkUtilsGetMtu r.packet pkt).1 = .ok ∧
    (rnsLinkUtilsGetMtu r.packet pkt).2.toNat =
      min (rnsLinkUtilsGetMtu p pkt).2.toNat mtuLimit.toNat
  mode : byteAt r.packet (payloadStart p + 64) >>> 5 = byteAt p (payloadStart p + 64) >>> 5
  outside : ∀ k, k < payloadStart p + 64 ∨ payloadStart p + 67 ≤ k → r.packet[k]? = p[k]?
  length : r.packet.length = p.length
  original : r.originalMtu = (rnsLinkUtilsGetMtu p pkt).2
  again : (rnsLinkUtilsClampMtu r.packet pkt mtuLimit).packet = r.packet

theorem three_bits : ∀ b : Byte, b >>> 5 &&& 0x07#8 = b >>> 5 := by decide

variable (fits : p.length < 2 ^ 16) (parsed : rnsLinkParserParse sha256 p = .ok pkt)

include fits parsed

theorem payloadLen_eq : pkt.payloadLen.toNat = p.length - payloadStart p := by
  obtain ⟨-, -, -, payloadLen⟩ := parse_header parsed
  rw [payloadLen, BitVec.toNat_ofNat, Nat.mod_eq_of_lt (by omega)]

theorem signallingOffset_eq : signallingOffset p pkt = payloadStart p + 64 := by
  have long := (parse_header parsed).1
  rw [signallingOffset, payloadLen_eq fits parsed]
  omega

theorem clamp_spec (request : pkt.packetType = .linkrequest) {mtuLimit : BitVec 32}
    (small : mtuLimit.toNat < 2 ^ 21) (long : 67 ≤ p.length - payloadStart p) :
    ClampSpec p pkt mtuLimit (rnsLinkUtilsClampMtu p pkt mtuLimit) := by
  have offset := signallingOffset_eq fits parsed
  have inside : signallingOffset p pkt + 2 < p.length := by omega
  have longer : ¬pkt.payloadLen.toNat < 67 := by
    rw [payloadLen_eq fits parsed]
    omega
  have typed : ¬pkt.packetType ≠ .linkrequest := not_not.mpr request
  have get (q : List Byte) : rnsLinkUtilsGetMtu q pkt = (.ok, linkRequestGetMtu q pkt) := by
    rw [rnsLinkUtilsGetMtu, if_neg typed, if_neg longer]
  have clamp (q : List Byte) : rnsLinkUtilsClampMtu q pkt mtuLimit =
      if linkRequestGetMtu q pkt ≤ mtuLimit then ⟨.notModified, q, linkRequestGetMtu q pkt⟩
      else ⟨.ok, linkRequestSetSignalling q pkt (linkRequestGetMode q pkt) mtuLimit,
        linkRequestGetMtu q pkt⟩ := by
    rw [rnsLinkUtilsClampMtu, if_neg typed, if_neg longer]
  rw [clamp p]
  by_cases fine : linkRequestGetMtu p pkt ≤ mtuLimit
  · rw [if_pos fine]
    refine ⟨?_, rfl, fun _ _ => rfl, rfl, ?_, ?_⟩
    · rw [get]
      exact ⟨rfl, (Nat.min_eq_left fine).symm⟩
    · rw [get]
    · rw [clamp, if_pos fine]
  · rw [if_neg fine]
    have more : mtuLimit.toNat ≤ (linkRequestGetMtu p pkt).toNat := by
      rw [BitVec.le_def] at fine
      omega
    have now := getMtu_setSignalling inside (linkRequestGetMode p pkt) mtuLimit small
    refine ⟨?_, ?_, ?_, setSignalling_length .., ?_, ?_⟩
    · rw [get, get, now]
      exact ⟨rfl, (Nat.min_eq_right more).symm⟩
    · have kept := getMode_setSignalling inside (linkRequestGetMode p pkt) mtuLimit
      simp only [linkRequestGetMode, signallingOffset_congr (setSignalling_length _ _), offset,
        three_bits] at kept ⊢
      exact kept
    · intro k outside
      exact setSignalling_outside _ _ (by rw [offset]; omega)
    · rw [get]
    · rw [clamp, now, if_pos (BitVec.le_refl _)]

-- The MTU of a request is cut down to the limit, in place, and nothing else is touched.
theorem clampMtu_exact (request : pkt.packetType = .linkrequest) {mtuLimit : BitVec 32}
    (small : mtuLimit.toNat < 2 ^ 21) :
    (67 ≤ p.length - payloadStart p →
      ClampSpec p pkt mtuLimit (rnsLinkUtilsClampMtu p pkt mtuLimit)) ∧
      (p.length - payloadStart p < 67 → (rnsLinkUtilsClampMtu p pkt mtuLimit).packet = p) ∧
      rnsLinkUtilsClampMtuChecked p pkt mtuLimit = some (rnsLinkUtilsClampMtu p pkt mtuLimit) := by
  refine ⟨clamp_spec fits parsed request small, ?_, clampMtu_checked mtuLimit ?_⟩
  · intro short
    rw [← payloadLen_eq fits parsed] at short
    rw [rnsLinkUtilsClampMtu, if_neg (not_not.mpr request), if_pos short]
  · intro long
    rw [payloadLen_eq fits parsed] at long
    rw [signallingOffset_eq fits parsed]
    omega

end Clamp

def linkRequest500 : List Byte :=
  0x02#8 :: 3#8 :: (List.replicate 17 0xAA#8 ++ List.replicate 64 0xBB#8 ++ [0x20#8, 0x01#8, 0xF4#8])

def firstBytes (l : List Byte) : Vector Byte 32 := Vector.ofFn fun i => byteAt l i

def linkRequest500Info : PacketInfo where
  hops := 3#8
  destinationType := .single
  packetType := .linkrequest
  context := 0xAA#8
  payloadLen := 67#16
  destination := Vector.replicate 16 0xAA#8
  linkId := Vector.ofFn fun i => if i.val = 0 then 0x02#8 else 0xAA#8
  valid := true

theorem linkRequest500_parsed :
    rnsLinkParserParse firstBytes linkRequest500 = .ok linkRequest500Info := by
  decide +kernel

theorem linkId_invariant_relayed :
    ∃ info', Requests firstBytes
        (((0x42#8 :: 3#8 :: (List.replicate 16 0xCC#8 ++ linkRequest500.drop 2)).set 1 4#8)) info' ∧
      info'.linkId = linkRequest500Info.linkId :=
  linkId_invariant ⟨linkRequest500_parsed, rfl, by decide⟩
    (.tail (.single (.toType2 linkRequest500 (Vector.replicate 16 0xCC#8) (by decide)))
      (.hops _ 4#8))

theorem clampMtu_exact_linkRequest500 :
    ClampSpec linkRequest500 linkRequest500Info 300#32
      (rnsLinkUtilsClampMtu linkRequest500 linkRequest500Info 300#32) :=
  (clampMtu_exact (by decide) linkRequest500_parsed rfl (by decide)).1 (by decide)

end RnodeHalow.Rns
