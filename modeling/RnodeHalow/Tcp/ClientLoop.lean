import RnodeHalow.Stream.Chunking

set_option autoImplicit false

namespace RnodeHalow.Tcp

open Ack (txThrottle)
open RnodeHalow.Stream

structure Netbuf where
  chunks : List (List Byte)
  some : chunks ≠ []
  short : chunks.flatten.length < 2 ^ 16
  few : chunks.length < 2 ^ 16

structure Cursor where
  chunk : Nat
  ofs : Nat
  deriving DecidableEq

variable {cap : Nat} {σ : Type}

def tcpToHalowSend (cb : FrameCb σ) (d : Decoder cap) (data : List Byte) (s : σ) :
    Decoder.Processed cap σ :=
  if data.length = 0 then ⟨-200, 0, d, s⟩ else d.process cb data s

def rnsTcpRetryHeld (cb : FrameCb σ) (d : Decoder cap) (s : σ) : Int × Decoder cap × σ :=
  d.retryHeld cb s

structure Feed (cap : Nat) (σ : Type) where
  status : Int
  cursor : Cursor
  decoder : Decoder cap
  user : σ

def feedFrom (cb : FrameCb σ) :
    List (List Byte) → Nat → Cursor → Decoder cap → σ → Feed cap σ
  | [], _, cur, d, s => ⟨0, cur, d, s⟩
  | data :: later, ci, cur, d, s =>
    if ci > cur.chunk ∨ (ci = cur.chunk ∧ cur.ofs < data.length) then
      let r := tcpToHalowSend cb d (data.drop cur.ofs) s
      if r.status = txThrottle then
        let left := data.length - cur.ofs
        let adv := if r.consumed > left then left else r.consumed
        let ofs := cur.ofs + adv
        ⟨r.status, if ofs ≥ data.length then ⟨ci + 1, 0⟩ else ⟨cur.chunk, ofs⟩, r.decoder, r.user⟩
      else feedFrom cb later (ci + 1) ⟨ci + 1, 0⟩ r.decoder r.user
    else feedFrom cb later (ci + 1) cur d s

def tcpServerFeedNetbuf (cb : FrameCb σ) (nb : Netbuf) (cur : Cursor) (d : Decoder cap) (s : σ) :
    Feed cap σ :=
  feedFrom cb nb.chunks 0 cur d s

inductive Recv where
  | wouldBlock
  | failed
  | ok (nb : Netbuf)

structure Poll where
  enabled : Bool
  ready : Bool
  recv : Recv

def unread (chunks : List (List Byte)) (cur : Cursor) : List Byte :=
  (chunks.drop cur.chunk).flatten.drop cur.ofs

inductive LoopEvent where
  | fed (bytes rest : List Byte) (status : Int)
  | retried (status : Int)
  | recv (held : Bool)
  deriving DecidableEq

structure Client (cap : Nat) (σ : Type) where
  decoder : Decoder cap
  user : σ
  txThrottleMs : Nat
  heldNb : Option (Netbuf × Cursor)
  closed : Bool
  log : List LoopEvent

namespace Client

def tcpServerTxThrottleMs : Nat := 5

def start (d : Decoder cap) (user : σ) : Client cap σ := ⟨d.reset, user, 0, none, false, []⟩

def feed (cb : FrameCb σ) (nb : Netbuf) (cur : Cursor) (s : Client cap σ) : Client cap σ :=
  let r := tcpServerFeedNetbuf cb nb cur s.decoder s.user
  let s := { s with
    decoder := r.decoder
    user := r.user
    log := .fed (unread nb.chunks cur) (unread nb.chunks r.cursor) r.status :: s.log }
  if r.status = txThrottle then { s with heldNb := some (nb, r.cursor) }
  else
    { s with
      heldNb := none
      txThrottleMs := if r.status < 0 then tcpServerTxThrottleMs else s.txThrottleMs }

def retry (cb : FrameCb σ) (s : Client cap σ) : Client cap σ :=
  let r := rnsTcpRetryHeld cb s.decoder s.user
  { s with decoder := r.2.1, user := r.2.2, log := .retried r.1 :: s.log }

def iterate (cb : FrameCb σ) (s : Client cap σ) (poll : Poll) : Client cap σ :=
  if s.closed then s
  else if !poll.enabled then { s with closed := true }
  else if s.txThrottleMs > 0 then { s with txThrottleMs := s.txThrottleMs - 1 }
  else
    match s.heldNb with
    | some (nb, cur) => s.feed cb nb cur
    | none =>
      if !poll.ready then s.retry cb
      else
        let s := { s with log := .recv s.decoder.held :: s.log }
        match poll.recv with
        | .wouldBlock => s
        | .failed => { s with closed := true }
        | .ok nb => s.feed cb nb ⟨0, 0⟩

def run (cb : FrameCb σ) (s : Client cap σ) (polls : List Poll) : Client cap σ :=
  polls.foldl (iterate cb) s

end Client

theorem txThrottle_ne : txThrottle ≠ 0 ∧ txThrottle ≠ -200 := by decide

variable (cb : FrameCb σ)

theorem processFresh_held {d : Decoder cap} (data : List Byte) (s : σ) (free : d.held = false) :
    (d.processFresh cb data s).decoder.held = true ↔
      (d.processFresh cb data s).status = txThrottle := by
  have held := byteLoop_held cb data s free
  simp only [Decoder.processFresh, Decoder.processLoop_eq _ _ _ _ _ (Nat.le_refl data.length)]
  rw [held]
  split
  · simp_all
  · simp_all [txThrottle_ne.1.symm]

variable {data : List Byte} {chunks : List (List Byte)} {ci : Nat} {cur : Cursor}

theorem process_held (d : Decoder cap) (s : σ) (more : data ≠ []) :
    (d.process cb data s).decoder.held = true ↔ (d.process cb data s).status = txThrottle := by
  rw [Decoder.process, if_neg (by simpa using more)]
  cases held : d.held with
  | false => exact processFresh_held cb data s held
  | true =>
    simp only [if_true]
    split
    · simp_all
    · exact processFresh_held cb data _ rfl

def Cursor.Ok (chunks : List (List Byte)) (cur : Cursor) : Prop :=
  cur.ofs = 0 ∨ (∃ data, chunks[cur.chunk]? = some data ∧ cur.ofs < data.length) ∨
    chunks[cur.chunk]? = some [] ∧ ∃ data, chunks[cur.chunk + 1]? = some data ∧
      cur.ofs < data.length

def Cursor.Ahead (chunks : List (List Byte)) (ci : Nat) (cur : Cursor) : Prop :=
  ci ≤ cur.chunk ∨ ci = cur.chunk + 1 ∧ chunks[cur.chunk]? = some []

theorem drop_eq_cons {k : Nat} (here : chunks[k]? = some data) :
    chunks.drop k = data :: chunks.drop (k + 1) := by
  obtain ⟨bound, eq⟩ := List.getElem?_eq_some_iff.mp here
  rw [List.drop_eq_getElem_cons bound, eq]

theorem unread_skip {k ofs : Nat} (empty : chunks[k]? = some []) :
    unread chunks ⟨k, ofs⟩ = unread chunks ⟨k + 1, ofs⟩ := by
  simp [unread, drop_eq_cons empty]

theorem Cursor.Ok.inside (ok : cur.Ok chunks) (here : chunks[ci]? = some data)
    (ahead : cur.Ahead chunks ci)
    (takes : ci > cur.chunk ∨ ci = cur.chunk ∧ cur.ofs < data.length) : cur.ofs ≤ data.length := by
  rcases takes with past | ⟨-, inside⟩
  · rcases ahead with le | ⟨rfl, empty⟩
    · omega
    · rcases ok with zero | ⟨x, hit, lt⟩ | ⟨-, x, hit, lt⟩
      · omega
      · rw [empty, Option.some.injEq] at hit
        subst hit
        cases lt
      · rw [here, Option.some.injEq] at hit
        subst hit
        exact Nat.le_of_lt lt
  · exact Nat.le_of_lt inside

theorem unread_here (here : chunks[ci]? = some data) (ok : cur.Ok chunks)
    (ahead : cur.Ahead chunks ci)
    (takes : ci > cur.chunk ∨ ci = cur.chunk ∧ cur.ofs < data.length) :
    unread chunks cur = data.drop cur.ofs ++ unread chunks ⟨ci + 1, 0⟩ := by
  have inside : cur.ofs ≤ data.length := ok.inside here ahead takes
  have at_ci : unread chunks ⟨ci, cur.ofs⟩ =
      data.drop cur.ofs ++ unread chunks ⟨ci + 1, 0⟩ := by
    simp [unread, drop_eq_cons here, List.drop_append, Nat.sub_eq_zero_of_le inside]
  rw [← at_ci]
  rcases takes with past | ⟨rfl, -⟩
  · rcases ahead with le | ⟨rfl, empty⟩
    · omega
    · exact unread_skip empty
  · rfl

theorem Cursor.Ok.skip (here : chunks[ci]? = some data) (ok : cur.Ok chunks)
    (ahead : cur.Ahead chunks ci)
    (passes : ¬(ci > cur.chunk ∨ ci = cur.chunk ∧ cur.ofs < data.length)) :
    cur.Ahead chunks (ci + 1) := by
  rcases ahead with le | ⟨next, _⟩
  · rcases Nat.lt_or_eq_of_le le with before | same
    · exact .inl before
    · subst same
      refine .inr ⟨rfl, ?_⟩
      have out : data.length ≤ cur.ofs := by
        rw [← Nat.not_lt]
        exact fun inside => passes (.inr ⟨rfl, inside⟩)
      rcases ok with zero | ⟨x, hit, lt⟩ | ⟨empty, _⟩
      · have nil : data = [] := List.length_eq_zero_iff.mp (by omega)
        rw [here, nil]
      · rw [here, Option.some.injEq] at hit
        subst hit
        omega
      · exact empty
  · exact absurd (.inl (by omega)) passes

theorem Cursor.Ok.advance {ci adv : Nat} (here : chunks[ci]? = some data)
    (ahead : cur.Ahead chunks ci)
    (takes : ci > cur.chunk ∨ ci = cur.chunk ∧ cur.ofs < data.length) :
    Cursor.Ok chunks (if cur.ofs + adv ≥ data.length then ⟨ci + 1, 0⟩
      else ⟨cur.chunk, cur.ofs + adv⟩) := by
  split
  · exact .inl rfl
  · rename_i inside
    rw [Nat.not_le] at inside
    rcases takes with past | ⟨rfl, _⟩
    · rcases ahead with le | ⟨rfl, empty⟩
      · omega
      · exact .inr (.inr ⟨empty, data, here, inside⟩)
    · exact .inr (.inl ⟨data, here, inside⟩)

section Places

variable {chunks later : List (List Byte)} {ci : Nat} {cur : Cursor} {data : List Byte}

theorem unread_end (left : chunks.drop ci = []) (ahead : cur.Ahead chunks ci) :
    unread chunks cur = [] := by
  rcases ahead with le | ⟨rfl, empty⟩
  · have past : chunks.length ≤ cur.chunk := Nat.le_trans (List.drop_eq_nil_iff.mp left) le
    simp [unread, List.drop_of_length_le past]
  · simp [unread, drop_eq_cons empty, left]

theorem scan_here (left : chunks.drop ci = data :: later) :
    chunks[ci]? = some data ∧ chunks.drop (ci + 1) = later := by
  constructor
  · rw [← List.head?_drop, left]
    rfl
  · rw [← List.tail_drop, left]
    rfl

end Places

structure FeedOk (chunks : List (List Byte)) (cur : Cursor) (held : Bool) (r : Feed cap σ) :
    Prop where
  answer : r.status = txThrottle ∨ r.status = 0
  refused : r.status = txThrottle →
    r.decoder.held = true ∧ r.cursor.Ok chunks ∧ unread chunks cur ≠ []
  through : r.status = 0 → (r.decoder.held = true ↔ held = true ∧ unread chunks cur = [])

theorem feedFrom_ok (chunks rest : List (List Byte)) (ci : Nat) (cur : Cursor) (d : Decoder cap)
    (s : σ) (left : chunks.drop ci = rest) (ok : cur.Ok chunks) (ahead : cur.Ahead chunks ci) :
    FeedOk chunks cur d.held (feedFrom cb rest ci cur d s) := by
  induction rest generalizing ci cur d s with
  | nil =>
    have done : unread chunks cur = [] := unread_end left ahead
    exact ⟨.inr rfl, fun no => absurd no.symm txThrottle_ne.1, fun _ => by simp [feedFrom, done]⟩
  | cons data later ih =>
    obtain ⟨here, next⟩ := scan_here left
    rw [feedFrom]
    split
    · rename_i takes
      have bytes := unread_here here ok ahead takes
      have go (d' : Decoder cap) (s' : σ) := ih (ci + 1) ⟨ci + 1, 0⟩ d' s' next (.inl rfl)
        (.inl (Nat.le_refl _))
      by_cases none : data.drop cur.ofs = []
      · -- an empty chunk: the call does nothing
        have same : unread chunks cur = unread chunks ⟨ci + 1, 0⟩ := by rw [bytes, none]; rfl
        have idle : tcpToHalowSend cb d (data.drop cur.ofs) s = ⟨-200, 0, d, s⟩ := by
          rw [none]
          rfl
        simp only [idle, txThrottle_ne.2.symm, if_false]
        obtain ⟨answer, refused, through⟩ := go d s
        exact ⟨answer, same ▸ refused, same ▸ through⟩
      · have some : unread chunks cur ≠ [] := by
          rw [bytes]
          exact fun nil => none (List.append_eq_nil_iff.mp nil).1
        have fed : tcpToHalowSend cb d (data.drop cur.ofs) s = d.process cb (data.drop cur.ofs) s :=
          if_neg (fun zero => none (List.length_eq_zero_iff.mp zero))
        have held := process_held cb d s none
        rw [fed]
        dsimp only
        split
        · rename_i no
          exact ⟨.inl no, fun _ => ⟨held.mpr no, .advance here ahead takes, some⟩,
            fun zero => absurd (no.symm.trans zero) txThrottle_ne.1⟩
        · rename_i yes
          have free : (d.process cb (data.drop cur.ofs) s).decoder.held = false := by
            rw [← Bool.not_eq_true, held]
            exact yes
          obtain ⟨answer, refused, through⟩ := go (d.process cb (data.drop cur.ofs) s).decoder
            (d.process cb (data.drop cur.ofs) s).user
          refine ⟨answer, fun no => ⟨(refused no).1, (refused no).2.1, some⟩, fun zero => ?_⟩
          rw [through zero, free]
          simp [some]
    · rename_i passes
      exact ih (ci + 1) cur d s next ok (ok.skip here ahead passes)

theorem tcpServerFeedNetbuf_ok (nb : Netbuf) (d : Decoder cap) (s : σ) (ok : cur.Ok nb.chunks) :
    FeedOk nb.chunks cur d.held (tcpServerFeedNetbuf cb nb cur d s) :=
  feedFrom_ok cb nb.chunks nb.chunks 0 cur d s rfl ok (.inl (Nat.zero_le _))

-- A frame was refused at the last byte of its buffer and not taken since.
def stranded : List LoopEvent → Bool
  | [] => false
  | .fed bytes rest status :: older =>
    if bytes = [] then stranded older else status = txThrottle && rest = []
  | .retried status :: older => status = txThrottle && stranded older
  | .recv _ :: older => stranded older

structure Client.Settled (s : Client cap σ) : Prop where
  free : s.heldNb = none → (s.decoder.held = true ↔ stranded s.log = true)
  kept : ∀ nb cur, s.heldNb = some (nb, cur) → s.decoder.held = true ∧ cur.Ok nb.chunks ∧
    (unread nb.chunks cur = [] ↔ stranded s.log = true)

def Told (log : List LoopEvent) : Prop :=
  ∀ newer held older, log = newer ++ .recv held :: older → held = stranded older

theorem Told.cons {log : List LoopEvent} (told : Told log) {e : LoopEvent}
    (here : ∀ held, e = .recv held → held = stranded log) : Told (e :: log) := by
  rintro (_ | ⟨x, newer⟩) held older eq
  · obtain ⟨rfl, rfl⟩ := List.cons.inj eq
    exact here held rfl
  · exact told newer held older (List.cons.inj eq).2

namespace Client

variable (cb : FrameCb σ)

theorem feed_settled (nb : Netbuf) {cur : Cursor} {s : Client cap σ} (ok : cur.Ok nb.chunks)
    (told : Told s.log)
    (held : unread nb.chunks cur = [] → (s.decoder.held = true ↔ stranded s.log = true)) :
    (s.feed cb nb cur).Settled ∧ Told (s.feed cb nb cur).log := by
  obtain ⟨answer, refused, through⟩ := tcpServerFeedNetbuf_ok cb nb s.decoder s.user ok
  unfold feed
  dsimp only
  split
  · rename_i no
    obtain ⟨holds, next, some⟩ := refused no
    refine ⟨⟨by simp, ?_⟩, told.cons (by simp)⟩
    rintro nb' cur' ⟨⟩
    exact ⟨holds, next, by simp [stranded, some, no]⟩
  · rename_i yes
    have zero := answer.resolve_left yes
    refine ⟨⟨fun _ => ?_, by simp⟩, told.cons (by simp)⟩
    rw [through zero]
    by_cases none : unread nb.chunks cur = []
    · simp [stranded, none, held none]
    · simp [stranded, none, yes]

theorem retry_settled {s : Client cap σ} (settled : s.Settled) (told : Told s.log)
    (none : s.heldNb = none) : (s.retry cb).Settled ∧ Told (s.retry cb).log := by
  have free := settled.free none
  refine ⟨⟨fun _ => ?_, fun nb cur kept => ?_⟩, told.cons (by simp)⟩
  · unfold retry rnsTcpRetryHeld Decoder.retryHeld
    cases held : s.decoder.held with
    | false => simp [held, stranded, txThrottle_ne.1.symm]
    | true =>
      have before : stranded s.log = true := free.mp held
      simp only [Bool.not_true, Bool.false_eq_true, if_false]
      split
      · rename_i no
        simp [held, stranded, before, no]
      · rename_i yes
        simp [Decoder.released, stranded, yes]
  · rw [show (s.retry cb).heldNb = s.heldNb from rfl, none] at kept
    cases kept

theorem start_settled (d : Decoder cap) (user : σ) : (start d user).Settled where
  free := by simp [start, Decoder.reset, stranded]
  kept := nofun

theorem iterate_settled {s : Client cap σ} (poll : Poll) (settled : s.Settled) (told : Told s.log) :
    (s.iterate cb poll).Settled ∧ Told (s.iterate cb poll).log := by
  unfold iterate
  split
  · exact ⟨settled, told⟩
  split
  · exact ⟨⟨settled.free, settled.kept⟩, told⟩
  split
  · exact ⟨⟨settled.free, settled.kept⟩, told⟩
  split
  · rename_i nb cur kept
    obtain ⟨held, ok, rest⟩ := settled.kept nb cur kept
    exact feed_settled cb nb ok told fun none => iff_of_true held (rest.mp none)
  · rename_i none
    split
    · exact retry_settled cb settled told none
    · have free := settled.free none
      have asked : Told (.recv s.decoder.held :: s.log) := by
        refine told.cons ?_
        rintro held ⟨⟩
        rw [Bool.eq_iff_iff]
        exact free
      dsimp only
      split
      · exact ⟨⟨fun _ => free, settled.kept⟩, asked⟩
      · exact ⟨⟨fun _ => free, settled.kept⟩, asked⟩
      · rename_i nb _
        exact feed_settled cb nb (.inl rfl) asked fun _ => free

theorem run_settled {s : Client cap σ} (polls : List Poll) (settled : s.Settled)
    (told : Told s.log) : (s.run cb polls).Settled ∧ Told (s.run cb polls).log := by
  induction polls generalizing s with
  | nil => exact ⟨settled, told⟩
  | cons poll later ih =>
    have step := iterate_settled cb poll settled told
    exact ih step.1 step.2

theorem recv_unheld_iff (cb : FrameCb σ) (d : Decoder cap) (user : σ) (polls : List Poll) :
    (∀ held, .recv held ∈ ((start d user).run cb polls).log → held = false) ↔
      ∀ newer held older, ((start d user).run cb polls).log = newer ++ .recv held :: older →
        stranded older = false := by
  have told : Told ((start d user).run cb polls).log :=
    (run_settled cb polls (start_settled d user) (by simp [Told, start])).2
  constructor
  · intro unheld newer held older eq
    rw [← told newer held older eq]
    exact unheld held (by rw [eq]; simp)
  · intro ready held member
    obtain ⟨newer, older, eq⟩ := List.append_of_mem member
    rw [told newer held older eq]
    exact ready newer held older eq

def quiet : Poll := ⟨true, true, .wouldBlock⟩

theorem run_quiet (n : Nat) {s : Client cap σ} (running : s.closed = false)
    (awake : s.txThrottleMs = 0) (none : s.heldNb = none) :
    (s.run cb (List.replicate n quiet)).user = s.user := by
  induction n generalizing s with
  | zero => rfl
  | succ n ih =>
    have step : s.iterate cb quiet = { s with log := .recv s.decoder.held :: s.log } := by
      simp [iterate, quiet, running, awake, none]
    rw [List.replicate_succ, run, List.foldl_cons, step]
    exact ih running awake none

def burst : Netbuf := ⟨[[0x7E, 0x41, 0x7E]], by decide, by decide, by decide⟩

def refusing : FrameCb Nat := fun _ asked => (txThrottle, asked + 1)

def burstRun : Client rnsStreamMaxFrameSize Nat :=
  (start Decoder.init 0).run refusing [⟨true, true, .ok burst⟩, quiet, quiet]

theorem recv_held_burst :
    .recv true ∈ burstRun.log ∧
      ∀ n, (burstRun.run refusing (List.replicate n quiet)).user = 1 := by
  refine ⟨by decide, fun n => ?_⟩
  have idle : burstRun.closed = false ∧ burstRun.txThrottleMs = 0 ∧
      burstRun.heldNb.isNone = true ∧ burstRun.user = 1 := by decide
  rw [run_quiet refusing n idle.1 idle.2.1 (Option.isNone_iff_eq_none.mp idle.2.2.1)]
  exact idle.2.2.2

end Client

end RnodeHalow.Tcp
