import RnodeHalow.Config.Api
import RnodeHalow.Config.Routes
import RnodeHalow.Tcp.ClientLoop

set_option autoImplicit false

namespace RnodeHalow.Config

open Tcp (Netbuf)

def httpReqMaxLen : Nat := 16384

def blankLine : List Byte := ascii "\r\n\r\n"

def strnstr (token : List Byte) : List Byte → Option Nat
  | [] => none
  | b :: rest =>
    if b = 0#8 then none
    else if token <+: b :: rest then some 0 else (strnstr token rest).map (· + 1)

def chr (b : Byte) : Char := Char.ofNat b.toNat

-- `atoi` reads on in the data behind the header.
def httpGetContentLength (header behind : List Byte) : Int :=
  match strnstr (ascii "Content-Length:") header with
  | none => 0
  | some k =>
    atoi (((header.drop (k + 15)).dropWhile fun b => b = space || b = 0x09#8) ++ behind |>.map chr)

def fill (cap : Nat) (data chunk : List Byte) : Option (List Byte) :=
  if data.length + chunk.length ≤ cap then some (data ++ chunk) else none

def fillChunks (need : Nat) : List Byte → List (List Byte) → Option (List Byte)
  | data, [] => some data
  | data, chunk :: rest => do
    let data ← fill need data (chunk.take ((need - data.length) % 2 ^ 16))
    if need ≤ data.length then some data else fillChunks need data rest

-- `some none`: the connection has ended.
def recvBody (need : Nat) : List Byte → List Netbuf → Option (Option (List Byte))
  | data, [] => some (if data.length < need then none else some data)
  | data, nb :: later =>
    if data.length < need then (fillChunks need data nb.chunks).bind (recvBody need · later)
    else some (some data)

inductive HttpOut where
  | closed
  | refused (text : String)
  | api (method uri body : List Byte)
  | file (uri : List Byte)

def httpServe (method uri body : List Byte) : HttpOut :=
  if uri.take 5 = ascii "/api/" then .api method uri body else .file uri

def httpAnswer (header : List Byte) (contentLen : Int) (data : List Byte) : HttpOut :=
  let method := httpGetMethod header
  let uri := httpGetUri header
  let bodyLen : Int := data.length - header.length
  if contentLen > 0 then
    let bodyLen := if bodyLen > contentLen then contentLen else bodyLen
    if bodyLen < contentLen then .refused "incomplete body\n"
    else httpServe method uri ((data.drop header.length).take bodyLen.toNat)
  else httpServe method uri []

def httpRequest (mem : Bool) (later : List Netbuf) (header data : List Byte) : Option HttpOut :=
  if httpGetUri header = [] ∨ httpGetMethod header = [] then some (.refused "bad request\n")
  else
    let contentLen := max 0 (httpGetContentLength header (data.drop header.length))
    let totalNeed := ((header.length + contentLen) % 2 ^ 16).toNat
    if totalNeed = 0 ∨ totalNeed > httpReqMaxLen then some (.refused "request too large\n")
    else if totalNeed > data.length then
      if !mem then some .closed
      else do
        let data ← fill totalNeed [] data
        match ← recvBody totalNeed data later with
        | none => some (.refused "incomplete body\n")
        | some data => some (httpAnswer header contentLen data)
    else some (httpAnswer header contentLen data)

-- `mem` says which of the two allocations succeed.
def httpHandleOne (mem : Bool × Bool) : List Netbuf → Option HttpOut
  | [] => some .closed
  | nb :: later =>
    let firstLen := (nb.chunks.map List.length).sum % 2 ^ 16
    if firstLen = 0 ∨ firstLen > httpReqMaxLen ∨ mem.1 = false then some .closed
    else do
      let data ← nb.chunks.foldlM (fill firstLen) []
      match strnstr blankLine data with
      | none => some (.refused "bad request\n")
      | some k => httpRequest mem.2 later (data.take (k + 4)) data

def received (conn : List Netbuf) : List Byte := conn.flatMap (·.chunks.flatten)

structure EndsWith (token l : List Byte) : Prop where
  last : token <:+ l
  first : ¬ token <:+: l.dropLast

inductive Declares (header : List Byte) : Nat → Prop where
  | absent (none : ¬ ascii "Content-Length:" <:+: header) : Declares header 0
  | present {n : Nat} (name blanks number rest : List Byte) (c : Byte)
      (split : header = name ++ blanks ++ number ++ c :: rest)
      (first : EndsWith (ascii "Content-Length:") name)
      (blank : ∀ b ∈ blanks, b = space ∨ b = 0x09#8)
      (some : number ≠ []) (digit : ∀ b ∈ number, (chr b).isDigit = true)
      (after : (chr c).isDigit = false) (value : digits (number.map chr) = n) : Declares header n

structure HeaderBlock (header : List Byte) (n : Nat) : Prop where
  ends : EndsWith blankLine header
  noNul : 0#8 ∉ header
  declares : Declares header n
  small : n ≤ 2 ^ 31 - 1 - httpReqMaxLen

variable {token l behind header data : List Byte} {n : Nat}

theorem strnstr_first (ends : EndsWith token l) (noNul : 0#8 ∉ l) (some : token ≠ []) :
    strnstr token (l ++ behind) = Option.some (l.length - token.length) := by
  induction l with
  | nil => exact absurd (List.suffix_nil.mp ends.last) some
  | cons b rest ih =>
    have bound := ends.last.length_le
    rw [List.cons_append, strnstr, if_neg fun nul : b = 0#8 => noNul (nul ▸ List.mem_cons_self)]
    by_cases here : token <+: b :: (rest ++ behind)
    · have inside : token <+: b :: rest :=
        List.prefix_of_prefix_length_le here (List.prefix_append (b :: rest) behind) bound
      have whole : token.length = (b :: rest).length := by
        by_contra other
        apply ends.first
        apply List.IsPrefix.isInfix
        apply List.prefix_of_prefix_length_le inside (List.dropLast_prefix _)
        rw [List.length_dropLast]
        omega
      rw [if_pos here, whole, Nat.sub_self]
    · have last : token <:+ rest := by
        rcases List.suffix_cons_iff.mp ends.last with rfl | last
        · exact absurd (List.prefix_append _ _) here
        · exact last
      have nonempty : rest ≠ [] := by
        rintro rfl
        exact some (List.suffix_nil.mp last)
      have le := last.length_le
      rw [if_neg here, ih ⟨last, fun again => ends.first ?_⟩ fun nul =>
        noNul (List.mem_cons_of_mem b nul)]
      · rw [Option.map_some, List.length_cons, Nat.sub_add_comm le]
      · rw [List.dropLast_cons_of_ne_nil nonempty]
        exact again.trans (List.suffix_cons b _).isInfix

theorem strnstr_none (absent : ¬ token <:+: l) : strnstr token l = none := by
  induction l with
  | nil => rfl
  | cons b rest ih =>
    have later := ih fun inside => absent (inside.trans (List.suffix_cons b rest).isInfix)
    rw [strnstr, later, if_neg fun here : token <+: b :: rest => absent here.isInfix]
    simp

theorem atoi_number {number : List Char} (rest : List Char) {c : Char} (some : number ≠ [])
    (digit : ∀ d ∈ number, d.isDigit = true) (after : c.isDigit = false) :
    atoi (number ++ c :: rest) = digits number := by
  have value : digits (number ++ c :: rest) = digits number := by
    unfold digits
    rw [List.takeWhile_append_of_pos digit, List.takeWhile_cons_of_neg (by simp [after]),
      List.append_nil, List.takeWhile_eq_self_iff.mpr digit]
  obtain ⟨d, ds, rfl⟩ := List.exists_cons_of_ne_nil some
  have isDigit := digit d List.mem_cons_self
  have low : 48 ≤ d.toNat := by
    simp only [Char.isDigit, Bool.and_eq_true, decide_eq_true_eq] at isDigit
    exact isDigit.1
  rw [← value]
  unfold atoi
  rw [List.cons_append, List.dropWhile_cons_of_neg]
  · split
    · rename_i minus
      cases minus
      cases isDigit
    · rename_i plus
      cases plus
      cases isDigit
    · rfl
  · have blank : d ≠ ' ' := by
      rintro rfl
      cases isDigit
    simp [blank]
    omega

theorem contentLength_eq (declares : Declares header n) (noNul : 0#8 ∉ header) :
    httpGetContentLength header behind = n := by
  unfold httpGetContentLength
  cases declares with
  | absent none =>
    rw [strnstr_none none]
    rfl
  | present name blanks number rest c split first blank some digit after value =>
    have le : 15 ≤ name.length := first.last.length_le
    rw [List.append_assoc, List.append_assoc] at split
    have found : strnstr (ascii "Content-Length:") header = Option.some (name.length - 15) := by
      rw [split]
      refine strnstr_first first (fun nul => noNul ?_) (by decide)
      rw [split]
      exact List.mem_append_left _ nul
    rw [found]
    dsimp only
    rw [Nat.sub_add_cancel le, split, List.drop_left, List.dropWhile_append_of_pos
      (by simpa using blank)]
    obtain ⟨d, ds, rfl⟩ := List.exists_cons_of_ne_nil some
    rw [List.cons_append, List.dropWhile_cons_of_neg, ← value]
    · have digit : ∀ x ∈ (d :: ds).map chr, x.isDigit = true := by simpa using digit
      rw [← atoi_number ((rest ++ behind).map chr) (by simp) digit after]
      simp
    · have isDigit := digit d List.mem_cons_self
      intro blank
      simp only [Bool.or_eq_true, decide_eq_true_eq] at blank
      rcases blank with rfl | rfl <;> cases isDigit

theorem fill_chunks {cap : Nat} {chunks : List (List Byte)}
    (room : data.length + chunks.flatten.length ≤ cap) :
    chunks.foldlM (fill cap) data = some (data ++ chunks.flatten) := by
  induction chunks generalizing data with
  | nil => simp
  | cons chunk rest ih =>
    rw [List.flatten_cons, List.length_append] at room
    have fits : fill cap data chunk = some (data ++ chunk) := if_pos (by omega)
    rw [List.foldlM_cons, fits]
    refine (ih ?_).trans ?_
    · rw [List.length_append]
      omega
    · rw [List.flatten_cons, List.append_assoc]

theorem take_take_append (need : Nat) (l r : List Byte) :
    (l.take need ++ r).take need = (l ++ r).take need := by
  rw [List.take_append, List.take_append, List.take_take, Nat.min_self, List.length_take]
  congr 2
  omega

theorem fillChunks_eq {need : Nat} (small : need < 2 ^ 16) {chunks : List (List Byte)}
    (room : data.length ≤ need) :
    fillChunks need data chunks = some ((data ++ chunks.flatten).take need) := by
  induction chunks generalizing data with
  | nil => simp [fillChunks, List.take_of_length_le room]
  | cons chunk rest ih =>
    have taken : data ++ chunk.take ((need - data.length) % 2 ^ 16) = (data ++ chunk).take need := by
      rw [Nat.mod_eq_of_lt (by omega), List.take_append, List.take_of_length_le room]
    have fits : fill need data (chunk.take ((need - data.length) % 2 ^ 16)) =
        some ((data ++ chunk).take need) := by
      rw [fill, if_pos, taken]
      rw [← List.length_append, taken]
      exact List.length_take_le need _
    rw [fillChunks, fits, List.flatten_cons, ← List.append_assoc,
      ← take_take_append need (data ++ chunk)]
    dsimp only [bind, Option.bind]
    split
    · rename_i full
      rw [List.take_append_of_le_length full, List.take_take, Nat.min_self]
    · exact ih (List.length_take_le need _)

theorem recvBody_eq {need : Nat} (small : need < 2 ^ 16) (later : List Netbuf)
    (room : data.length ≤ need) :
    recvBody need data later = some (if need ≤ (data ++ received later).length then
      some ((data ++ received later).take need) else none) := by
  induction later generalizing data with
  | nil =>
    have all : data ++ received [] = data := List.append_nil data
    unfold recvBody
    rw [all, List.take_of_length_le room]
    split
    · rw [if_neg (by omega)]
    · rw [if_pos (by omega)]
  | cons nb later ih =>
    have stream : data ++ received (nb :: later) = data ++ nb.chunks.flatten ++ received later := by
      rw [received, List.flatMap_cons, List.append_assoc]
      rfl
    unfold recvBody
    split
    · have same : need ≤ ((data ++ nb.chunks.flatten).take need ++ received later).length ↔
          need ≤ (data ++ nb.chunks.flatten ++ received later).length := by
        simp only [List.length_append, List.length_take]
        omega
      rw [fillChunks_eq small room, Option.bind_some, ih (List.length_take_le _ _),
        take_take_append, stream]
      simp only [same]
    · have full : data.length = need := by omega
      rw [if_pos (by rw [List.length_append]; omega), ← full, List.take_left]

def HttpOut.handled : HttpOut → Bool
  | api _ _ _ => true
  | file _ => true
  | _ => false

def Served (header : List Byte) (n : Nat) (stream : List Byte) (out : HttpOut) : Prop :=
  out.handled = true →
    header.length + n ≤ httpReqMaxLen ∧ header.length + n ≤ stream.length ∧
      out = httpServe (httpGetMethod header) (httpGetUri header)
        ((stream.drop header.length).take n)

structure Servable (mem : Bool × Bool) (header behind : List Byte) (n : Nat) (stream : List Byte) :
    Prop where
  first : mem.1 = true ∧ (header ++ behind).length ≤ httpReqMaxLen
  line : httpGetUri header ≠ [] ∧ httpGetMethod header ≠ []
  fits : header.length + n ≤ httpReqMaxLen
  arrived : header.length + n ≤ stream.length
  room : header.length + n ≤ (header ++ behind).length ∨ mem.2 = true

theorem httpServe_handled (method uri body : List Byte) :
    (httpServe method uri body).handled = true := by
  unfold httpServe
  split <;> rfl

theorem httpAnswer_eq {stream : List Byte} (start : data = stream.take data.length)
    (whole : header.length ≤ data.length) :
    httpAnswer header n data =
      if header.length + n ≤ data.length then
        httpServe (httpGetMethod header) (httpGetUri header) ((stream.drop header.length).take n)
      else .refused "incomplete body\n" := by
  unfold httpAnswer
  dsimp only
  by_cases some : (n : Int) > 0
  · rw [if_pos some]
    by_cases short : (data.length : Int) - header.length < n
    · have under : ¬ (data.length : Int) - header.length > n := by omega
      rw [if_neg under, if_pos short, if_neg (by omega)]
    · have declared : (if (data.length : Int) - header.length > n then (n : Int)
          else data.length - header.length) = n := by
        split <;> omega
      rw [declared, if_neg (Int.lt_irrefl _), Int.toNat_natCast, if_pos (by omega), start,
        List.drop_take, List.take_take, Nat.min_eq_left (by omega)]
  · obtain rfl : n = 0 := by omega
    rw [if_neg some, if_pos (by omega), List.take_zero]

def Answered (ready : Prop) (header : List Byte) (n : Nat) (stream : List Byte) (out : HttpOut) :
    Prop :=
  (out.handled = true ↔ ready) ∧ (ready → out =
    httpServe (httpGetMethod header) (httpGetUri header) ((stream.drop header.length).take n))

theorem answered_not {ready : Prop} {stream : List Byte} {out : HttpOut} (no : ¬ ready)
    (unhandled : out.handled = false) : Answered ready header n stream out :=
  ⟨by simp [no, unhandled], fun yes => absurd yes no⟩

theorem httpAnswer_answered {ready : Prop} {stream : List Byte}
    (start : data = stream.take data.length) (whole : header.length ≤ data.length)
    (when : ready ↔ header.length + n ≤ data.length) :
    Answered ready header n stream (httpAnswer header n data) := by
  rw [httpAnswer_eq start whole]
  split
  · rename_i enough
    exact ⟨by simp [httpServe_handled, when, enough], fun _ => rfl⟩
  · rename_i short
    exact answered_not (mt when.mp short) rfl

theorem httpRequest_answered (block : HeaderBlock header n) (later : List Netbuf)
    (mem : Bool × Bool) (first : mem.1 = true ∧ (header ++ behind).length ≤ httpReqMaxLen) :
    ∃ out, httpRequest mem.2 later header (header ++ behind) = some out ∧
      Answered (Servable mem header behind n (header ++ behind ++ received later)) header n
        (header ++ behind ++ received later) out := by
  have long : header.length ≤ (header ++ behind).length := by simp
  have reach : (header ++ behind).length ≤ (header ++ behind ++ received later).length := by simp
  have declared : max 0 (httpGetContentLength header behind) = n := by
    rw [contentLength_eq block.declares block.noNul]
    omega
  have small := block.small
  unfold httpReqMaxLen at first small
  unfold httpRequest
  rw [List.drop_left, declared]
  dsimp only
  -- 16 bits of the sum are kept; a body of 64 KiB and more never counts as arrived
  generalize needed : (((header.length : Int) + n) % 2 ^ 16).toNat = need
  by_cases line : httpGetUri header = [] ∨ httpGetMethod header = []
  · rw [if_pos line]
    exact ⟨_, rfl, answered_not (fun s => line.elim s.line.1 s.line.2) rfl⟩
  rw [if_neg line]
  rw [not_or] at line
  by_cases large : need = 0 ∨ need > httpReqMaxLen
  · rw [if_pos large]
    refine ⟨_, rfl, answered_not (fun s => ?_) rfl⟩
    have fits := s.fits
    have four : 4 ≤ header.length := block.ends.last.length_le
    unfold httpReqMaxLen at large fits
    omega
  rw [if_neg large]
  rw [not_or, Nat.not_lt] at large
  have bound := large.2
  unfold httpReqMaxLen at bound
  by_cases more : need > (header ++ behind).length
  · rw [if_pos more]
    have exact_need (s : header.length + n < 2 ^ 16) : need = header.length + n := by omega
    cases second : mem.2 with
    | false =>
      refine ⟨_, rfl, answered_not (fun s => ?_) rfl⟩
      have fits := s.fits
      unfold httpReqMaxLen at fits
      rcases s.room with early | room
      · have := exact_need (by omega)
        omega
      · rw [second] at room
        cases room
    | true =>
      have room : fill need [] (header ++ behind) = some (header ++ behind) := by
        rw [fill, if_pos (by rw [List.length_nil]; omega), List.nil_append]
      rw [Bool.not_true, if_neg Bool.false_ne_true, room, Option.bind_eq_bind, Option.bind_some,
        recvBody_eq (by omega) later (Nat.le_of_lt more), Option.bind_eq_bind, Option.bind_some]
      by_cases arrived : need ≤ (header ++ behind ++ received later).length
      · rw [if_pos arrived]
        refine ⟨_, rfl, httpAnswer_answered ?_ ?_ ?_⟩
        · rw [List.length_take, Nat.min_eq_left arrived]
        · rw [List.length_take]
          omega
        · rw [List.length_take, Nat.min_eq_left arrived]
          constructor
          · intro s
            have fits := s.fits
            unfold httpReqMaxLen at fits
            rw [exact_need (by omega)]
          · intro enough
            exact ⟨first, line, by unfold httpReqMaxLen; omega, by omega, .inr second⟩
      · rw [if_neg arrived]
        refine ⟨_, rfl, answered_not (fun s => ?_) rfl⟩
        have fits := s.fits
        have all := s.arrived
        unfold httpReqMaxLen at fits
        have := exact_need (by omega)
        omega
  · rw [if_neg more]
    refine ⟨_, rfl, httpAnswer_answered (List.take_left).symm long ?_⟩
    constructor
    · intro s
      have fits := s.fits
      unfold httpReqMaxLen at fits
      omega
    · intro enough
      exact ⟨first, line, by unfold httpReqMaxLen; omega, by omega, .inl enough⟩

theorem http_body_exact (header : List Byte) (n : Nat) (block : HeaderBlock header n)
    (behind : List Byte) (nb : Netbuf) (first : nb.chunks.flatten = header ++ behind)
    (later : List Netbuf) (mem : Bool × Bool) :
    ∃ out, httpHandleOne mem (nb :: later) = some out ∧
      Served header n (received (nb :: later)) out ∧
      (out.handled = true ↔ Servable mem header behind n (received (nb :: later))) := by
  have size : (nb.chunks.map List.length).sum % 2 ^ 16 = (header ++ behind).length := by
    rw [← List.length_flatten, Nat.mod_eq_of_lt nb.short, first]
  have stream : received (nb :: later) = header ++ behind ++ received later := by
    rw [received, List.flatMap_cons, first]
    rfl
  have four : 4 ≤ header.length := block.ends.last.length_le
  suffices answered : ∃ out, httpHandleOne mem (nb :: later) = some out ∧ Answered
      (Servable mem header behind n (header ++ behind ++ received later)) header n
        (header ++ behind ++ received later) out by
    obtain ⟨out, ran, handled, given⟩ := answered
    rw [stream]
    refine ⟨out, ran, fun yes => ?_, handled⟩
    have ready := handled.mp yes
    exact ⟨ready.fits, ready.arrived, given ready⟩
  rw [httpHandleOne]
  simp only [size]
  split
  · rename_i unfit
    refine ⟨_, rfl, answered_not (fun s => ?_) rfl⟩
    obtain ⟨alloc, bound⟩ := s.first
    rw [List.length_append] at unfit bound
    rcases unfit with none | large | full
    · omega
    · omega
    · rw [alloc] at full
      cases full
  · rename_i limit
    simp only [not_or, Nat.not_lt, Bool.not_eq_false] at limit
    have data : nb.chunks.foldlM (fill (header ++ behind).length) [] = some (header ++ behind) := by
      rw [fill_chunks (by rw [first, List.length_nil]; omega), first, List.nil_append]
    have found : strnstr blankLine (header ++ behind) = some (header.length - 4) :=
      strnstr_first block.ends block.noNul (by decide)
    rw [data, Option.bind_eq_bind, Option.bind_some, found]
    dsimp only
    rw [Nat.sub_add_cancel four, List.take_left]
    exact httpRequest_answered block later mem ⟨limit.2.2, limit.2.1⟩

def postHeader : List Byte := ascii "POST /api/x \r\nContent-Length: 2\r\n\r\n"

theorem postHeader_block : HeaderBlock postHeader 2 where
  ends := ⟨by decide, by decide⟩
  noNul := by decide
  declares := .present (ascii "POST /api/x \r\nContent-Length:") (ascii " ") (ascii "2")
    (ascii "\n\r\n") 0x0D (by decide) ⟨by decide, by decide⟩ (by decide) (by decide) (by decide)
    (by decide) (by decide)
  small := by decide

def headerOnly : Netbuf := ⟨[postHeader], by decide, by decide, by decide⟩

def bodyAndMore : Netbuf := ⟨[[0x7B], [0x7D, 0x0A]], by decide, by decide, by decide⟩

theorem http_body_exact_post : httpHandleOne (true, true) [headerOnly, bodyAndMore] =
    some (.api (ascii "POST") (ascii "/api/x") [0x7B, 0x7D]) := by
  obtain ⟨out, ran, served, handled⟩ := http_body_exact postHeader 2 postHeader_block [] headerOnly
    (by decide) [bodyAndMore] (true, true)
  have ready : Servable (true, true) postHeader [] 2 (received [headerOnly, bodyAndMore]) :=
    ⟨by decide, by decide, by decide, by decide, .inr rfl⟩
  rw [ran, (served (handled.mpr ready)).2.2]
  exact congrArg some (if_pos (by decide))

end RnodeHalow.Config
