import RnodeHalow.Dhcp.Leases
import RnodeHalow.Shared.Buffer
import RnodeHalow.Shared.Octets

set_option autoImplicit false

namespace RnodeHalow.Dhcp

open Octets

def dhcpOpRequest : Byte := 1#8
def dhcpOpReply : Byte := 2#8
def dhcpMagic : List Byte := [0x63#8, 0x82#8, 0x53#8, 0x63#8]

def optEnd : Byte := 255#8
def optSubnet : Byte := 1#8
def optRouter : Byte := 3#8
def optDns : Byte := 6#8
def optReqIp : Byte := 50#8
def optLease : Byte := 51#8
def optMsgtype : Byte := 53#8
def optServerid : Byte := 54#8

def dhcpFixed : Nat := 240
def dhcpdPktMax : Nat := 548

def MsgType.code : MsgType → Byte
  | .discover => 1#8
  | .offer => 2#8
  | .request => 3#8
  | .decline => 4#8
  | .ack => 5#8
  | .nak => 7#8
  | .release => 8#8

def clientType (b : Byte) : Option MsgType :=
  if b = MsgType.discover.code then some .discover
  else if b = MsgType.request.code then some .request
  else if b = MsgType.decline.code then some .decline
  else if b = MsgType.release.code then some .release
  else none

def put32 (v : BitVec 32) : List Byte :=
  [(v >>> 24).setWidth 8, (v >>> 16).setWidth 8, (v >>> 8).setWidth 8, v.setWidth 8]

def get32 (d : List Byte) (k : Nat) : BitVec 32 :=
  (byteAt d k).setWidth 32 <<< 24 ||| (byteAt d (k + 1)).setWidth 32 <<< 16 |||
    (byteAt d (k + 2)).setWidth 32 <<< 8 ||| (byteAt d (k + 3)).setWidth 32

theorem put32_octets (v : BitVec 32) : put32 v = [octet v 3, octet v 2, octet v 1, octet v 0] := by
  simp [put32, octet]

theorem get32_word (d : List Byte) (k : Nat) :
    get32 d k = word (byteAt d k) (byteAt d (k + 1)) (byteAt d (k + 2)) (byteAt d (k + 3)) := rfl

theorem get32_put32 (v : BitVec 32) : get32 (put32 v) 0 = v := by
  rw [get32_word, put32_octets]
  exact word_octets v

theorem byteAt_drop (d : List Byte) (i k : Nat) : byteAt (d.drop i) k = byteAt d (i + k) := by
  simp [byteAt, List.getD_eq_getElem?_getD]

theorem get32_drop (d : List Byte) (i k : Nat) : get32 (d.drop i) k = get32 d (i + k) := by
  simp only [get32, byteAt_drop, Nat.add_assoc]

def macAt (d : List Byte) (k : Nat) : Mac :=
  ⟨byteAt d k, byteAt d (k + 1), byteAt d (k + 2), byteAt d (k + 3), byteAt d (k + 4),
    byteAt d (k + 5)⟩

def macBytes (m : Mac) : List Byte := [m.b0, m.b1, m.b2, m.b3, m.b4, m.b5]

structure Found where
  msgtype : Option Byte
  reqIp : Ip
  deriving DecidableEq, Repr

def Found.nothing : Found := ⟨none, 0⟩

inductive Walk where
  | malformed
  | unfinished
  | ended (found : Found)
  deriving DecidableEq, Repr

def Found.note (found : Found) (opt : Byte) (olen : Nat) (value : List Byte) : Found :=
  if opt = optMsgtype ∧ olen = 1 ∧ found.msgtype = none then
    { found with msgtype := some (byteAt value 0) }
  else if opt = optReqIp ∧ olen = 4 then { found with reqIp := get32 value 0 }
  else found

def parseOptions (pkt : List Byte) : Nat → Nat → Found → Walk
  | 0, _, _ => .unfinished
  | fuel + 1, i, found =>
    if i < pkt.length then
      if byteAt pkt i = optEnd then .ended found
      else if byteAt pkt i = 0#8 then parseOptions pkt fuel (i + 1) found
      else if pkt.length ≤ (i + 1) % 2 ^ 16 then .malformed
      else
        let olen := (byteAt pkt (i + 1)).toNat
        if pkt.length < (i + 2 + olen) % 2 ^ 16 then .malformed
        else parseOptions pkt fuel ((i + 2 + olen) % 2 ^ 16)
          (found.note (byteAt pkt i) olen (pkt.drop (i + 2)))
    else .ended found

def bootRequest (pkt : List Byte) : Bool :=
  dhcpFixed ≤ pkt.length && byteAt pkt 0 == dhcpOpRequest && byteAt pkt 1 == 1#8 &&
    byteAt pkt 2 == 6#8 && (pkt.drop 236).take 4 == dhcpMagic

def dhcpdParse (pkt : List Byte) : Option Req :=
  if bootRequest pkt then
    match parseOptions pkt (pkt.length + 1) dhcpFixed .nothing with
    | .ended found =>
      (clientType (found.msgtype.getD 0#8)).map fun type =>
        ⟨type, get32 pkt 4, macAt pkt 28, found.reqIp⟩
    | _ => none
  else none

theorem parseOptions_finishes {pkt : List Byte} (short : pkt.length ≤ dhcpdPktMax) (fuel i : Nat)
    (found : Found) (inside : i ≤ pkt.length) (enough : pkt.length < fuel + i) :
    parseOptions pkt fuel i found ≠ .unfinished := by
  unfold dhcpdPktMax at short
  induction fuel generalizing i found with
  | zero => omega
  | succ fuel ih =>
    unfold parseOptions
    by_cases more : i < pkt.length
    · rw [if_pos more]
      by_cases last : byteAt pkt i = optEnd
      · simp [last]
      rw [if_neg last]
      by_cases pad : byteAt pkt i = 0#8
      · rw [if_pos pad]
        exact ih (i + 1) found more (by omega)
      rw [if_neg pad]
      by_cases cut : pkt.length ≤ (i + 1) % 2 ^ 16
      · rw [if_pos cut]
        simp
      rw [if_neg cut]
      have olen_lt := (byteAt pkt (i + 1)).isLt
      have unwrapped : (i + 2 + (byteAt pkt (i + 1)).toNat) % 2 ^ 16 =
          i + 2 + (byteAt pkt (i + 1)).toNat := Nat.mod_eq_of_lt (by omega)
      simp only [unwrapped]
      split
      next => simp
      next fits => exact ih _ _ (by omega) (by omega)
    · simp [more]

structure Fixed where
  bytes : List Byte
  length_eq : bytes.length = dhcpFixed
  op : byteAt bytes 0 = dhcpOpRequest
  htype : byteAt bytes 1 = 1#8
  hlen : byteAt bytes 2 = 6#8
  magic : bytes.drop 236 = dhcpMagic

structure Opt where
  code : Byte
  value : List Byte
  code_pos : code ≠ 0#8
  code_ne_end : code ≠ optEnd
  fits : value.length < 256

def Opt.bytes (o : Opt) : List Byte := o.code :: BitVec.ofNat 8 o.value.length :: o.value

def clientPacket (f : Fixed) (opts : List Opt) : List Byte :=
  f.bytes ++ (opts.flatMap Opt.bytes ++ [optEnd])

def Found.read (found : Found) (opts : List Opt) : Found :=
  opts.foldl (fun found o => found.note o.code o.value.length o.value) found

theorem byteAt_append_left {d e : List Byte} {k : Nat} (inside : k < d.length) :
    byteAt (d ++ e) k = byteAt d k := by
  simp [byteAt, List.getD_eq_getElem?_getD, List.getElem?_append_left inside]

theorem Found.note_append (found : Found) (o : Opt) (rest : List Byte) :
    found.note o.code o.value.length (o.value ++ rest) =
      found.note o.code o.value.length o.value := by
  unfold Found.note
  by_cases type : o.code = optMsgtype ∧ o.value.length = 1 ∧ found.msgtype = none
  · rw [if_pos type, if_pos type, byteAt_append_left (by omega)]
  rw [if_neg type, if_neg type]
  by_cases addr : o.code = optReqIp ∧ o.value.length = 4
  · rw [if_pos addr, if_pos addr]
    have inside (k : Nat) (low : k < 4) : byteAt (o.value ++ rest) k = byteAt o.value k :=
      byteAt_append_left (by omega)
    simp only [get32, Nat.zero_add, inside 0 (by omega), inside 1 (by omega), inside 2 (by omega),
      inside 3 (by omega)]
  · rw [if_neg addr, if_neg addr]

def Opt.isType (o : Opt) : Bool := o.code == optMsgtype && o.value.length == 1

def Opt.isReqIp (o : Opt) : Bool := o.code == optReqIp && o.value.length == 4

theorem note_msgtype (found : Found) (o : Opt) :
    (found.note o.code o.value.length o.value).msgtype =
      found.msgtype.or (if o.isType then some (byteAt o.value 0) else none) := by
  unfold Found.note Opt.isType
  cases known : found.msgtype with
  | none =>
    by_cases type : o.code = optMsgtype ∧ o.value.length = 1
    · simp [type]
    · by_cases addr : o.code = optReqIp ∧ o.value.length = 4
      · simp [addr, optReqIp, optMsgtype]
      · simp [type, addr, known]
  | some b =>
    by_cases addr : o.code = optReqIp ∧ o.value.length = 4
    · simp [addr]
    · simp [addr, known]

theorem note_reqIp (found : Found) (o : Opt) :
    (found.note o.code o.value.length o.value).reqIp =
      if o.isReqIp then get32 o.value 0 else found.reqIp := by
  unfold Found.note Opt.isReqIp
  by_cases type : o.code = optMsgtype ∧ o.value.length = 1 ∧ found.msgtype = none
  · simp [type, optMsgtype, optReqIp]
  · by_cases addr : o.code = optReqIp ∧ o.value.length = 4
    · simp [addr, optMsgtype, optReqIp]
    · simp [type, addr]

theorem read_msgtype (found : Found) (opts : List Opt) : (found.read opts).msgtype =
    found.msgtype.or ((opts.find? Opt.isType).map fun o => byteAt o.value 0) := by
  induction opts generalizing found with
  | nil => simp [Found.read]
  | cons o opts ih =>
    have step : found.read (o :: opts) =
      (found.note o.code o.value.length o.value).read opts := rfl
    rw [step, ih, note_msgtype]
    by_cases type : o.isType = true
    · simp [type]
    · simp [type]

theorem read_reqIp (found : Found) (opts : List Opt) : (found.read opts).reqIp =
    ((opts.reverse.find? Opt.isReqIp).map fun o => get32 o.value 0).getD found.reqIp := by
  induction opts using List.reverseRecOn with
  | nil => rfl
  | append_singleton opts o ih =>
    have step : found.read (opts ++ [o]) =
        (found.read opts).note o.code o.value.length o.value := by
      simp [Found.read, List.foldl_append]
    rw [step, note_reqIp, List.reverse_append, ih]
    by_cases addr : o.isReqIp = true
    · simp [addr]
    · simp [addr]

theorem byteAt_of_drop {d rest : List Byte} {i : Nat} {b : Byte} (here : d.drop i = b :: rest) :
    i < d.length ∧ byteAt d i = b := by
  have long := congrArg List.length here
  rw [List.length_drop, List.length_cons] at long
  have read := byteAt_drop d i 0
  rw [here] at read
  exact ⟨by omega, read.symm⟩

theorem drop_after_option {d rest : List Byte} {i : Nat} {o : Opt}
    (here : d.drop i = o.bytes ++ rest) : d.drop (i + 2 + o.value.length) = rest := by
  have length : o.bytes.length = 2 + o.value.length := by
    rw [Opt.bytes, List.length_cons, List.length_cons]
    omega
  rw [Nat.add_assoc, ← length, ← List.drop_drop, here, List.drop_left]

section Steps

variable {pkt rest : List Byte} {i : Nat} (fuel : Nat) (found : Found)

theorem parseOptions_done (here : pkt.drop i = []) :
    parseOptions pkt (fuel + 1) i found = .ended found := by
  have out : ¬i < pkt.length := Nat.not_lt.mpr (List.drop_eq_nil_iff.mp here)
  rw [parseOptions, if_neg out]

theorem parseOptions_end (here : pkt.drop i = optEnd :: rest) :
    parseOptions pkt (fuel + 1) i found = .ended found := by
  obtain ⟨more, last⟩ := byteAt_of_drop here
  rw [parseOptions, if_pos more, if_pos last]

theorem parseOptions_pad (here : pkt.drop i = 0#8 :: rest) :
    parseOptions pkt (fuel + 1) i found = parseOptions pkt fuel (i + 1) found := by
  obtain ⟨more, pad⟩ := byteAt_of_drop here
  rw [parseOptions, if_pos more, pad, if_neg (by decide), if_pos rfl]

variable (short : pkt.length ≤ dhcpdPktMax)

include short in
theorem parseOptions_option (o : Opt) (here : pkt.drop i = o.bytes ++ rest) :
    parseOptions pkt (fuel + 1) i found =
      parseOptions pkt fuel (i + 2 + o.value.length)
        (found.note o.code o.value.length o.value) := by
  unfold dhcpdPktMax at short
  have split : pkt.drop i = o.code :: BitVec.ofNat 8 o.value.length :: (o.value ++ rest) := here
  obtain ⟨more, code⟩ := byteAt_of_drop split
  have total := congrArg List.length split
  simp only [List.length_drop, List.length_cons, List.length_append] at total
  have olen : (byteAt pkt (i + 1)).toNat = o.value.length := by
    have read := byteAt_drop pkt i 1
    rw [split] at read
    rw [← read]
    exact Nat.mod_eq_of_lt o.fits
  have value : pkt.drop (i + 2) = o.value ++ rest := by
    rw [← List.drop_drop, split]
    rfl
  have fits := o.fits
  have start : (i + 1) % 2 ^ 16 = i + 1 := Nat.mod_eq_of_lt (by omega)
  have unwrapped : (i + 2 + o.value.length) % 2 ^ 16 = i + 2 + o.value.length :=
    Nat.mod_eq_of_lt (by omega)
  rw [parseOptions, if_pos more, code, if_neg o.code_ne_end, if_neg o.code_pos, start,
    if_neg (by omega)]
  simp only [olen, unwrapped]
  rw [if_neg (by omega), value, Found.note_append]

end Steps

inductive OptionList : List Byte → List Opt → Prop
  | nil : OptionList [] []
  | ended (rest : List Byte) : OptionList (optEnd :: rest) []
  | pad {area : List Byte} {opts : List Opt} : OptionList area opts → OptionList (0#8 :: area) opts
  | option (o : Opt) {area : List Byte} {opts : List Opt} : OptionList area opts →
      OptionList (o.bytes ++ area) (o :: opts)

theorem OptionList.encoded (opts : List Opt) :
    OptionList (opts.flatMap Opt.bytes ++ [optEnd]) opts := by
  induction opts with
  | nil => exact .ended []
  | cons o opts ih =>
    rw [List.flatMap_cons, List.append_assoc]
    exact .option o ih

theorem parseOptions_complete {pkt area : List Byte} {opts : List Opt}
    (short : pkt.length ≤ dhcpdPktMax) (list : OptionList area opts) {fuel i : Nat} (found : Found) (here : pkt.drop i = area) (inside : i ≤ pkt.length)
    (enough : pkt.length < fuel + i) :
    parseOptions pkt fuel i found = .ended (found.read opts) := by
  induction list generalizing fuel i found with
  | nil =>
    obtain ⟨fuel, rfl⟩ : ∃ n, fuel = n + 1 := ⟨fuel - 1, by omega⟩
    exact parseOptions_done fuel found here
  | ended rest =>
    obtain ⟨fuel, rfl⟩ : ∃ n, fuel = n + 1 := ⟨fuel - 1, by omega⟩
    exact parseOptions_end fuel found here
  | @pad area opts list ih =>
    obtain ⟨more, -⟩ := byteAt_of_drop here
    obtain ⟨fuel, rfl⟩ : ∃ n, fuel = n + 1 := ⟨fuel - 1, by omega⟩
    have next : pkt.drop (i + 1) = area := by
      rw [← List.drop_drop, here]
      rfl
    rw [parseOptions_pad fuel found here]
    exact ih found next more (by omega)
  | option o list ih =>
    have total := congrArg List.length here
    simp only [List.length_drop, Opt.bytes, List.length_append, List.length_cons] at total
    obtain ⟨fuel, rfl⟩ : ∃ n, fuel = n + 1 := ⟨fuel - 1, by omega⟩
    rw [parseOptions_option fuel found short o here]
    exact ih _ (drop_after_option here) (by omega) (by omega)

theorem clientPacket_length (f : Fixed) (opts : List Opt) : (clientPacket f opts).length =
    dhcpFixed + ((opts.flatMap Opt.bytes).length + 1) := by
  simp [clientPacket, f.length_eq]

theorem clientPacket_byteAt (f : Fixed) (opts : List Opt) {k : Nat} (inside : k < dhcpFixed) :
    byteAt (clientPacket f opts) k = byteAt f.bytes k :=
  byteAt_append_left (f.length_eq ▸ inside)

theorem clientPacket_bootRequest (f : Fixed) (opts : List Opt) :
    bootRequest (clientPacket f opts) = true := by
  have magic : ((clientPacket f opts).drop 236).take 4 = dhcpMagic := by
    rw [clientPacket, List.drop_append_of_le_length (by rw [f.length_eq]; decide), f.magic]
    rfl
  have op := clientPacket_byteAt f opts (k := 0) (by decide)
  have htype := clientPacket_byteAt f opts (k := 1) (by decide)
  have hlen := clientPacket_byteAt f opts (k := 2) (by decide)
  rw [f.op] at op
  rw [f.htype] at htype
  rw [f.hlen] at hlen
  simp [bootRequest, op, htype, hlen, magic, clientPacket_length]

theorem dhcpdParse_clientPacket {f : Fixed} {opts : List Opt}
    (short : (clientPacket f opts).length ≤ dhcpdPktMax) :
    dhcpdParse (clientPacket f opts) =
      (clientType ((Found.nothing.read opts).msgtype.getD 0#8)).map fun type =>
        ⟨type, get32 f.bytes 4, macAt f.bytes 28, (Found.nothing.read opts).reqIp⟩ := by
  have here : (clientPacket f opts).drop dhcpFixed = opts.flatMap Opt.bytes ++ [optEnd] := by
    rw [← f.length_eq]
    exact List.drop_left ..
  have inside : dhcpFixed ≤ (clientPacket f opts).length := by
    rw [clientPacket_length]
    exact Nat.le_add_right ..
  have walked : parseOptions (clientPacket f opts) ((clientPacket f opts).length + 1) dhcpFixed
      .nothing = .ended (Found.nothing.read opts) :=
    parseOptions_complete short (.encoded opts) .nothing here inside (by omega)
  have xid : get32 (clientPacket f opts) 4 = get32 f.bytes 4 := by
    simp only [get32]
    rw [clientPacket_byteAt f opts (by decide), clientPacket_byteAt f opts (by decide),
      clientPacket_byteAt f opts (by decide), clientPacket_byteAt f opts (by decide)]
  have mac : macAt (clientPacket f opts) 28 = macAt f.bytes 28 := by
    simp only [macAt]
    rw [clientPacket_byteAt f opts (by decide), clientPacket_byteAt f opts (by decide),
      clientPacket_byteAt f opts (by decide), clientPacket_byteAt f opts (by decide),
      clientPacket_byteAt f opts (by decide), clientPacket_byteAt f opts (by decide)]
  rw [dhcpdParse, if_pos (clientPacket_bootRequest f opts), walked, xid, mac]

def opt4 (code : Byte) (v : BitVec 32) : List Byte := code :: 4#8 :: put32 v

def replyOptions (type : MsgType) (serverIp netmask : Ip) (leaseS : BitVec 32) : List Byte :=
  [optMsgtype, 1#8, type.code] ++ opt4 optServerid serverIp ++
    (if type = .ack then
      opt4 optLease leaseS ++ opt4 optSubnet netmask ++ opt4 optRouter serverIp ++
        opt4 optDns serverIp
    else []) ++ [optEnd]

def replyFixed (xid : BitVec 32) (mac : Mac) (yiaddr serverIp : Ip) : Nat → Byte :=
  let buf := Buffer.put (fun _ => 0#8) 0 [dhcpOpReply, 1#8, 6#8, 0#8]
  let buf := Buffer.put buf 4 (put32 xid)
  let buf := Buffer.put buf 16 (put32 yiaddr)
  let buf := Buffer.put buf 20 (put32 serverIp)
  let buf := Buffer.put buf 28 (macBytes mac)
  Buffer.put buf 236 dhcpMagic

def dhcpdBuild (buflen : Nat) (type : MsgType) (xid : BitVec 32) (mac : Mac)
    (yiaddr serverIp netmask : Ip) (leaseS : BitVec 32) : Option (List Byte) :=
  if buflen < dhcpFixed + 40 then none
  else
    let opts := replyOptions type serverIp netmask leaseS
    let buf := Buffer.put (replyFixed xid mac yiaddr serverIp) dhcpFixed opts
    some (Buffer.get buf 0 (dhcpFixed + opts.length))

def yiaddrOf (pkt : List Byte) : List Byte := (pkt.drop 16).take 4

def siaddrOf (pkt : List Byte) : List Byte := (pkt.drop 20).take 4

def readOption (code : Byte) : Nat → List Byte → Option (List Byte)
  | fuel + 1, opt :: olen :: rest =>
    if opt = optEnd then none
    else if opt = code then some (rest.take olen.toNat)
    else readOption code fuel (rest.drop olen.toNat)
  | _, _ => none

def optionOf (pkt : List Byte) (code : Byte) : Option (List Byte) :=
  readOption code pkt.length (pkt.drop dhcpFixed)

section Reply

variable {buflen : Nat} {type : MsgType} {xid : BitVec 32} {mac : Mac}
  {yiaddr serverIp netmask : Ip} {leaseS : BitVec 32} {pkt : List Byte}

theorem dhcpdBuild_isSome (room : dhcpFixed + 40 ≤ buflen) :
    (dhcpdBuild buflen type xid mac yiaddr serverIp netmask leaseS).isSome = true := by
  rw [dhcpdBuild, if_neg (by omega)]
  rfl

variable (built : dhcpdBuild buflen type xid mac yiaddr serverIp netmask leaseS = some pkt)
include built

theorem dhcpdBuild_eq : pkt = Buffer.get (Buffer.put (replyFixed xid mac yiaddr serverIp) dhcpFixed
    (replyOptions type serverIp netmask leaseS)) 0
      (dhcpFixed + (replyOptions type serverIp netmask leaseS).length) := by
  unfold dhcpdBuild at built
  split at built
  next => cases built
  next => exact (Option.some.inj built).symm

theorem dhcpdBuild_fixed {k m : Nat} (inside : k + m ≤ dhcpFixed) :
    (pkt.drop k).take m = Buffer.get (replyFixed xid mac yiaddr serverIp) k m := by
  rw [dhcpdBuild_eq built, Buffer.get_drop_take (by omega), Nat.zero_add,
    Buffer.get_put_away (.inl inside)]

theorem dhcpdBuild_yiaddr : yiaddrOf pkt = put32 yiaddr := by
  rw [yiaddrOf, dhcpdBuild_fixed built (by decide), replyFixed]
  rw [Buffer.get_put_away (.inl (by decide)), Buffer.get_put_away (.inl (by decide)),
    Buffer.get_put_away (.inl (by decide))]
  exact Buffer.get_put _ 16 (put32 yiaddr)

theorem dhcpdBuild_siaddr : siaddrOf pkt = put32 serverIp := by
  rw [siaddrOf, dhcpdBuild_fixed built (by decide), replyFixed]
  rw [Buffer.get_put_away (.inl (by decide)), Buffer.get_put_away (.inl (by decide))]
  exact Buffer.get_put _ 20 (put32 serverIp)

theorem dhcpdBuild_options : pkt.drop dhcpFixed = replyOptions type serverIp netmask leaseS := by
  have whole : (pkt.drop dhcpFixed).take (replyOptions type serverIp netmask leaseS).length =
      replyOptions type serverIp netmask leaseS := by
    rw [dhcpdBuild_eq built, Buffer.get_drop_take (Nat.le_refl _), Nat.zero_add, Buffer.get_put]
  rw [← whole, List.take_of_length_le]
  rw [dhcpdBuild_eq built, List.length_drop, Buffer.get_length]
  omega

theorem dhcpdBuild_option (code : Byte) : optionOf pkt code =
    readOption code ((replyOptions type serverIp netmask leaseS).length + 240)
      (replyOptions type serverIp netmask leaseS) := by
  have long := congrArg List.length (dhcpdBuild_eq built)
  rw [Buffer.get_length] at long
  rw [optionOf, dhcpdBuild_options built, long, dhcpFixed, Nat.add_comm]

theorem dhcpdBuild_serverid : optionOf pkt optServerid = some (put32 serverIp) :=
  (dhcpdBuild_option built _).trans rfl

end Reply

section Ack

variable {buflen : Nat} {xid : BitVec 32} {mac : Mac} {yiaddr serverIp netmask : Ip}
  {leaseS : BitVec 32} {pkt : List Byte}
  (built : dhcpdBuild buflen .ack xid mac yiaddr serverIp netmask leaseS = some pkt)
include built

theorem dhcpdBuild_subnet : optionOf pkt optSubnet = some (put32 netmask) :=
  (dhcpdBuild_option built _).trans rfl

end Ack

end RnodeHalow.Dhcp
