import RnodeHalow.Dhcp.Packets

set_option autoImplicit false

namespace RnodeHalow.Dhcp

def firstMsgtype (opts : List Opt) : Option Byte :=
  (opts.find? Opt.isType).map fun o => byteAt o.value 0

def lastReqIp (opts : List Opt) : Option Ip :=
  (opts.reverse.find? Opt.isReqIp).map fun o => get32 o.value 0

def MsgType.isClient : MsgType → Bool
  | .discover | .request | .decline | .release => true
  | _ => false

structure Accepts (pkt : List Byte) (q : Req) : Prop where
  long : 240 ≤ pkt.length
  op : byteAt pkt 0 = 1#8
  htype : byteAt pkt 1 = 1#8
  hlen : byteAt pkt 2 = 6#8
  magic : (pkt.drop 236).take 4 = [0x63#8, 0x82#8, 0x53#8, 0x63#8]
  options : ∃ opts, OptionList (pkt.drop 240) opts ∧ firstMsgtype opts = some q.msgtype.code ∧
    q.reqIp = (lastReqIp opts).getD 0
  client : q.msgtype.isClient = true
  xid : q.xid = get32 pkt 4
  mac : q.mac = macAt pkt 28

inductive Area : List Byte → Prop
  | nil : Area []
  | ended (rest : List Byte) : Area (optEnd :: rest)
  | pad (rest : List Byte) : Area (0#8 :: rest)
  | option (o : Opt) (rest : List Byte) : Area (o.bytes ++ rest)
  | bare (code : Byte) : code ≠ optEnd → code ≠ 0#8 → Area [code]
  | cut (code olen : Byte) (value : List Byte) : code ≠ optEnd → code ≠ 0#8 →
      value.length < olen.toNat → Area (code :: olen :: value)

theorem area_cases (area : List Byte) : Area area := by
  cases area with
  | nil => exact .nil
  | cons code area =>
    by_cases last : code = optEnd
    · rw [last]
      exact .ended area
    by_cases pad : code = 0#8
    · rw [pad]
      exact .pad area
    cases area with
    | nil => exact .bare code last pad
    | cons olen value =>
      by_cases fits : olen.toNat ≤ value.length
      · have length : (value.take olen.toNat).length = olen.toNat := List.length_take_of_le fits
        have bound : (value.take olen.toNat).length < 256 := by
          rw [length]
          exact olen.isLt
        have whole := Area.option ⟨code, value.take olen.toNat, pad, last, bound⟩
          (value.drop olen.toNat)
        simpa [Opt.bytes, length] using whole
      · exact .cut code olen value last pad (Nat.lt_of_not_le fits)

section Walk

variable {pkt : List Byte} (short : pkt.length ≤ dhcpdPktMax)

include short

theorem parseOptions_bare {code : Byte} {i : Nat} (last : code ≠ optEnd) (pad : code ≠ 0#8)
    (here : pkt.drop i = [code]) (fuel : Nat) (found : Found) :
    parseOptions pkt (fuel + 1) i found = .malformed := by
  unfold dhcpdPktMax at short
  obtain ⟨more, read⟩ := byteAt_of_drop here
  have total := congrArg List.length here
  rw [List.length_drop, List.length_singleton] at total
  have start : (i + 1) % 2 ^ 16 = i + 1 := Nat.mod_eq_of_lt (by omega)
  rw [parseOptions, if_pos more, read, if_neg last, if_neg pad, start, if_pos (by omega)]

theorem parseOptions_cut {code olen : Byte} {value : List Byte} {i : Nat} (last : code ≠ optEnd)
    (pad : code ≠ 0#8) (missing : value.length < olen.toNat)
    (here : pkt.drop i = code :: olen :: value) (fuel : Nat) (found : Found) :
    parseOptions pkt (fuel + 1) i found = .malformed := by
  unfold dhcpdPktMax at short
  obtain ⟨more, read⟩ := byteAt_of_drop here
  have total := congrArg List.length here
  simp only [List.length_drop, List.length_cons] at total
  have length : byteAt pkt (i + 1) = olen := by
    have read := byteAt_drop pkt i 1
    rw [here] at read
    exact read.symm
  have bound := olen.isLt
  have start : (i + 1) % 2 ^ 16 = i + 1 := Nat.mod_eq_of_lt (by omega)
  have unwrapped : (i + 2 + olen.toNat) % 2 ^ 16 = i + 2 + olen.toNat :=
    Nat.mod_eq_of_lt (by omega)
  rw [parseOptions, if_pos more, read, if_neg last, if_neg pad, start, if_neg (by omega)]
  simp only [length, unwrapped]
  rw [if_pos (by omega)]

theorem parseOptions_sound {fuel i : Nat} {found result : Found}
    (walked : parseOptions pkt fuel i found = .ended result) :
    ∃ opts, OptionList (pkt.drop i) opts ∧ result = found.read opts := by
  induction fuel generalizing i found with
  | zero => cases walked
  | succ fuel ih =>
    generalize here : pkt.drop i = area
    cases area_cases area with
    | nil =>
      rw [parseOptions_done fuel found here] at walked
      cases walked
      exact ⟨[], .nil, rfl⟩
    | ended rest =>
      rw [parseOptions_end fuel found here] at walked
      cases walked
      exact ⟨[], .ended rest, rfl⟩
    | pad rest =>
      rw [parseOptions_pad fuel found here] at walked
      obtain ⟨opts, list, eq⟩ := ih walked
      have next : pkt.drop (i + 1) = rest := by
        rw [← List.drop_drop, here]
        rfl
      rw [next] at list
      exact ⟨opts, .pad list, eq⟩
    | option o rest =>
      rw [parseOptions_option fuel found short o here] at walked
      obtain ⟨opts, list, eq⟩ := ih walked
      rw [drop_after_option here] at list
      exact ⟨o :: opts, .option o list, eq⟩
    | bare code last pad =>
      rw [parseOptions_bare short last pad here] at walked
      cases walked
    | cut code olen value last pad missing =>
      rw [parseOptions_cut short last pad missing here] at walked
      cases walked

end Walk

section Checked

open Buffer

def getChecked32 (pkt : List Byte) (k : Nat) : Option (BitVec 32) := do
  let b₃ ← readAt pkt k
  let b₂ ← readAt pkt (k + 1)
  let b₁ ← readAt pkt (k + 2)
  let b₀ ← readAt pkt (k + 3)
  some (b₃.setWidth 32 <<< 24 ||| b₂.setWidth 32 <<< 16 ||| b₁.setWidth 32 <<< 8 ||| b₀.setWidth 32)

def macChecked (pkt : List Byte) (k : Nat) : Option Mac := do
  let b0 ← readAt pkt k
  let b1 ← readAt pkt (k + 1)
  let b2 ← readAt pkt (k + 2)
  let b3 ← readAt pkt (k + 3)
  let b4 ← readAt pkt (k + 4)
  let b5 ← readAt pkt (k + 5)
  some ⟨b0, b1, b2, b3, b4, b5⟩

def noteChecked (pkt : List Byte) (found : Found) (opt : Byte) (olen k : Nat) : Option Found :=
  if opt = optMsgtype ∧ olen = 1 ∧ found.msgtype = none then do
    let type ← readAt pkt k
    some { found with msgtype := some type }
  else if opt = optReqIp ∧ olen = 4 then do
    let ip ← getChecked32 pkt k
    some { found with reqIp := ip }
  else some found

def parseOptionsChecked (pkt : List Byte) : Nat → Nat → Found → Option Walk
  | 0, _, _ => some .unfinished
  | fuel + 1, i, found =>
    if i < pkt.length then do
      let opt ← readAt pkt i
      if opt = optEnd then some (.ended found)
      else if opt = 0#8 then parseOptionsChecked pkt fuel (i + 1) found
      else if pkt.length ≤ (i + 1) % 2 ^ 16 then some .malformed
      else
        let olen ← readAt pkt (i + 1)
        if pkt.length < (i + 2 + olen.toNat) % 2 ^ 16 then some .malformed
        else
          let found ← noteChecked pkt found opt olen.toNat (i + 2)
          parseOptionsChecked pkt fuel ((i + 2 + olen.toNat) % 2 ^ 16) found
    else some (.ended found)

def bootRequestChecked (pkt : List Byte) : Option Bool :=
  if pkt.length < dhcpFixed then some false
  else do
    if (← readAt pkt 0) ≠ dhcpOpRequest then some false
    else if (← readAt pkt 1) ≠ 1#8 then some false
    else if (← readAt pkt 2) ≠ 6#8 then some false
    else if (← readAt pkt 236) ≠ 0x63#8 then some false
    else if (← readAt pkt 237) ≠ 0x82#8 then some false
    else if (← readAt pkt 238) ≠ 0x53#8 then some false
    else if (← readAt pkt 239) ≠ 0x63#8 then some false
    else some true

def dhcpdParseChecked (pkt : List Byte) : Option (Option Req) := do
  let request ← bootRequestChecked pkt
  if request then
    let xid ← getChecked32 pkt 4
    let mac ← macChecked pkt 28
    let walk ← parseOptionsChecked pkt (pkt.length + 1) dhcpFixed .nothing
    match walk with
    | .ended found =>
      some ((clientType (found.msgtype.getD 0#8)).map fun type => ⟨type, xid, mac, found.reqIp⟩)
    | _ => some none
  else some none

variable {pkt : List Byte}

theorem readAt_byteAt {k : Nat} (inside : k < pkt.length) : readAt pkt k = some (byteAt pkt k) :=
  readAt_inside inside 0#8

theorem getChecked32_inside {k : Nat} (inside : k + 4 ≤ pkt.length) :
    getChecked32 pkt k = some (get32 pkt k) := by
  have read (i : Nat) (low : i < 4) : readAt pkt (k + i) = some (byteAt pkt (k + i)) :=
    readAt_byteAt (by omega)
  rw [getChecked32, read 1 (by omega), read 2 (by omega), read 3 (by omega),
    readAt_byteAt (by omega)]
  rfl

theorem macChecked_inside {k : Nat} (inside : k + 6 ≤ pkt.length) :
    macChecked pkt k = some (macAt pkt k) := by
  have read (i : Nat) (low : i < 6) : readAt pkt (k + i) = some (byteAt pkt (k + i)) :=
    readAt_byteAt (by omega)
  rw [macChecked, read 1 (by omega), read 2 (by omega), read 3 (by omega), read 4 (by omega),
    read 5 (by omega), readAt_byteAt (by omega)]
  rfl

theorem noteChecked_inside (found : Found) (opt : Byte) {olen k : Nat}
    (inside : k + olen ≤ pkt.length) :
    noteChecked pkt found opt olen k = some (found.note opt olen (pkt.drop k)) := by
  unfold noteChecked Found.note
  by_cases type : opt = optMsgtype ∧ olen = 1 ∧ found.msgtype = none
  · rw [if_pos type, if_pos type, readAt_byteAt (by omega), byteAt_drop]
    rfl
  rw [if_neg type, if_neg type]
  by_cases addr : opt = optReqIp ∧ olen = 4
  · rw [if_pos addr, if_pos addr, getChecked32_inside (by omega), get32_drop]
    rfl
  · rw [if_neg addr, if_neg addr]

theorem parseOptions_checked (short : pkt.length ≤ dhcpdPktMax) (fuel i : Nat) (found : Found) :
    parseOptionsChecked pkt fuel i found = some (parseOptions pkt fuel i found) := by
  unfold dhcpdPktMax at short
  induction fuel generalizing i found with
  | zero => rfl
  | succ fuel ih =>
    unfold parseOptionsChecked parseOptions
    by_cases more : i < pkt.length
    · rw [if_pos more, if_pos more, readAt_byteAt more, Option.bind_eq_bind, Option.bind_some]
      by_cases last : byteAt pkt i = optEnd
      · rw [if_pos last, if_pos last]
      rw [if_neg last, if_neg last]
      by_cases pad : byteAt pkt i = 0#8
      · rw [if_pos pad, if_pos pad, ih]
      rw [if_neg pad, if_neg pad]
      by_cases bare : pkt.length ≤ (i + 1) % 2 ^ 16
      · rw [if_pos bare, if_pos bare]
      have olen_lt := (byteAt pkt (i + 1)).isLt
      have unwrapped : (i + 2 + (byteAt pkt (i + 1)).toNat) % 2 ^ 16 =
          i + 2 + (byteAt pkt (i + 1)).toNat := Nat.mod_eq_of_lt (by omega)
      rw [if_neg bare, if_neg bare, readAt_byteAt (by omega), Option.bind_some]
      simp only [unwrapped]
      by_cases cut : pkt.length < i + 2 + (byteAt pkt (i + 1)).toNat
      · rw [if_pos cut, if_pos cut]
      · rw [if_neg cut, if_neg cut, noteChecked_inside found (byteAt pkt i) (by omega)]
        exact ih _ _
    · rw [if_neg more, if_neg more]

theorem take_four {k : Nat} (inside : k + 4 ≤ pkt.length) : (pkt.drop k).take 4 =
    [byteAt pkt k, byteAt pkt (k + 1), byteAt pkt (k + 2), byteAt pkt (k + 3)] := by
  have cons (i : Nat) (low : i < pkt.length) : pkt.drop i = byteAt pkt i :: pkt.drop (i + 1) := by
    rw [List.drop_eq_getElem_cons low, byteAt, List.getD_eq_getElem?_getD,
      List.getElem?_eq_getElem low]
    rfl
  rw [cons k (by omega), cons (k + 1) (by omega), cons (k + 2) (by omega), cons (k + 3) (by omega)]
  rfl

theorem bootRequest_checked (pkt : List Byte) :
    bootRequestChecked pkt = some (bootRequest pkt) := by
  unfold bootRequestChecked bootRequest
  by_cases short : pkt.length < dhcpFixed
  · simp [short]
  have long : 240 ≤ pkt.length := Nat.le_of_not_lt short
  have read (k : Nat) (low : k < 240) : readAt pkt k = some (byteAt pkt k) :=
    readAt_byteAt (by omega)
  rw [if_neg short, take_four (by omega)]
  simp only [read, Option.bind_eq_bind, Option.bind_some, Nat.reduceLT, Nat.reduceAdd, dhcpMagic]
  repeat' split
  all_goals simp_all [dhcpFixed]

theorem dhcpdParse_checked (short : pkt.length ≤ dhcpdPktMax) :
    dhcpdParseChecked pkt = some (dhcpdParse pkt) := by
  unfold dhcpdParseChecked dhcpdParse
  rw [bootRequest_checked]
  cases request : bootRequest pkt with
  | false => rfl
  | true =>
    have long : 240 ≤ pkt.length := by
      simp only [bootRequest, Bool.and_eq_true] at request
      exact of_decide_eq_true request.1.1.1.1
    rw [getChecked32_inside (by omega), macChecked_inside (by omega), parseOptions_checked short]
    cases parseOptions pkt (pkt.length + 1) dhcpFixed .nothing <;> rfl

end Checked

theorem clientType_eq_some (b : Byte) (type : MsgType) :
    clientType b = some type ↔ b = type.code ∧ type.isClient = true := by
  constructor
  · intro client
    unfold clientType at client
    repeat' split at client
    all_goals cases client
    all_goals exact ⟨by assumption, rfl⟩
  · rintro ⟨rfl, client⟩
    cases type <;> first | rfl | cases client

theorem bootRequest_iff (pkt : List Byte) : bootRequest pkt = true ↔
    240 ≤ pkt.length ∧ byteAt pkt 0 = 1#8 ∧ byteAt pkt 1 = 1#8 ∧ byteAt pkt 2 = 6#8 ∧
      (pkt.drop 236).take 4 = [0x63#8, 0x82#8, 0x53#8, 0x63#8] := by
  simp only [bootRequest, Bool.and_eq_true, decide_eq_true_eq, beq_iff_eq, and_assoc]
  rfl

theorem dhcpdParse_eq_some (pkt : List Byte) (q : Req) : dhcpdParse pkt = some q ↔
    bootRequest pkt = true ∧ ∃ found,
      parseOptions pkt (pkt.length + 1) dhcpFixed .nothing = .ended found ∧
        found.msgtype = some q.msgtype.code ∧ q.msgtype.isClient = true ∧
        q = ⟨q.msgtype, get32 pkt 4, macAt pkt 28, found.reqIp⟩ := by
  have typed (type : Option Byte) (client : q.msgtype.isClient = true) :
      type.getD 0#8 = q.msgtype.code ↔ type = some q.msgtype.code := by
    cases type with
    | none => cases h : q.msgtype <;> simp_all [MsgType.code]
    | some b => simp
  unfold dhcpdParse
  cases request : bootRequest pkt with
  | false => simp
  | true =>
    rw [if_pos rfl]
    cases walk : parseOptions pkt (pkt.length + 1) dhcpFixed .nothing with
    | malformed => simp
    | unfinished => simp
    | ended found =>
      simp only [Option.map_eq_some_iff, clientType_eq_some, true_and, Walk.ended.injEq]
      constructor
      · rintro ⟨type, ⟨code, client⟩, rfl⟩
        exact ⟨found, rfl, (typed _ client).mp code, client, rfl⟩
      · rintro ⟨_, rfl, code, client, eq⟩
        exact ⟨q.msgtype, ⟨(typed _ client).mpr code, client⟩, eq.symm⟩

theorem dhcpdParse_iff_accepts {pkt : List Byte} (short : pkt.length ≤ dhcpdPktMax) (q : Req) :
    dhcpdParse pkt = some q ↔ Accepts pkt q := by
  rw [dhcpdParse_eq_some, bootRequest_iff]
  constructor
  · rintro ⟨⟨long, op, htype, hlen, magic⟩, found, walk, type, client, eq⟩
    obtain ⟨opts, list, rfl⟩ := parseOptions_sound short walk
    rw [read_msgtype] at type
    have reqIp := congrArg Req.reqIp eq
    rw [read_reqIp] at reqIp
    exact ⟨long, op, htype, hlen, magic, ⟨opts, list, type, reqIp⟩, client, congrArg Req.xid eq,
      congrArg Req.mac eq⟩
  · intro accepts
    obtain ⟨opts, list, type, reqIp⟩ := accepts.options
    have walk := parseOptions_complete short list .nothing rfl accepts.long
      (Nat.lt_add_right 240 (Nat.lt_succ_self _))
    refine ⟨⟨accepts.long, accepts.op, accepts.htype, accepts.hlen, accepts.magic⟩, _, walk, ?_,
      accepts.client, ?_⟩
    · rw [read_msgtype]
      exact type
    · rw [read_reqIp]
      change q = ⟨q.msgtype, get32 pkt 4, macAt pkt 28, (lastReqIp opts).getD 0⟩
      rw [← reqIp, ← accepts.xid, ← accepts.mac]

-- The parser ends, reads below the length only, and accepts exactly the requests of the grammar.
theorem dhcpdParse_exact (pkt : List Byte) (short : pkt.length ≤ dhcpdPktMax) :
    (dhcpFixed ≤ pkt.length →
      parseOptions pkt (pkt.length + 1) dhcpFixed .nothing ≠ .unfinished) ∧
    dhcpdParseChecked pkt = some (dhcpdParse pkt) ∧
    ∀ q, dhcpdParse pkt = some q ↔ Accepts pkt q := by
  refine ⟨fun long => ?_, dhcpdParse_checked short, dhcpdParse_iff_accepts short⟩
  exact parseOptions_finishes short _ _ _ long (Nat.lt_add_right 240 (Nat.lt_succ_self _))

def paddedDiscover : List Byte :=
  [1#8, 1#8, 6#8] ++ List.replicate 233 0#8 ++ dhcpMagic ++ [0#8, 53#8, 1#8, 1#8]

theorem dhcpdParse_exact_paddedDiscover : dhcpFixed ≤ paddedDiscover.length ∧
    Accepts paddedDiscover ⟨.discover, 0, ⟨0#8, 0#8, 0#8, 0#8, 0#8, 0#8⟩, 0⟩ := by
  have parsed : dhcpdParse paddedDiscover =
      some ⟨.discover, 0, ⟨0#8, 0#8, 0#8, 0#8, 0#8, 0#8⟩, 0⟩ := by decide +kernel
  have length : paddedDiscover.length = 244 := by decide +kernel
  have fits : paddedDiscover.length ≤ dhcpdPktMax := by
    rw [length]
    decide
  have long : dhcpFixed ≤ paddedDiscover.length := by
    rw [length]
    decide
  exact ⟨long, ((dhcpdParse_exact paddedDiscover fits).2.2 _).mp parsed⟩

end RnodeHalow.Dhcp
