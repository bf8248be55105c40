import RnodeHalow.Shared.Holding
import RnodeHalow.Stream.Decoder

set_option autoImplicit false

namespace RnodeHalow.Stream

open Ack (txThrottle)

variable {cap : Nat} {σ : Type}

namespace Decoder

def emits (d : Decoder cap) (byte : Byte) : Option (List Byte) :=
  if byte = rnsStreamFlag ∧ d.state ≠ .waitFrameStart ∧ d.frame ≠ [] then some d.frame else none

def next (d : Decoder cap) (byte : Byte) : Decoder cap :=
  if byte = rnsStreamFlag then d.restart .readFrame else d.plainByte byte

def Whole (d : Decoder cap) : Prop := d.held = true → d.frame ≠ []

theorem ends_iff (d : Decoder cap) :
    ((d.state = .readFrame ∨ d.state = .readEscapedByte) ∧ d.frame.length > 0) ↔
      d.state ≠ .waitFrameStart ∧ d.frame ≠ [] := by
  cases d.state <;> simp [List.length_pos_iff]

variable (cb : FrameCb σ)

theorem emitFrame_eq (d : Decoder cap) (s : σ) (full : d.frame ≠ []) :
    d.emitFrame cb s = cb d.frame s := by
  rw [emitFrame, if_neg (by simpa using full)]

theorem takeByte_quiet {d : Decoder cap} {byte : Byte} (s : σ) (quiet : d.emits byte = none) :
    d.takeByte cb byte s = (false, d.next byte, s) := by
  by_cases flag : byte = rnsStreamFlag
  · have closed : ¬(d.state ≠ .waitFrameStart ∧ d.frame ≠ []) := by
      intro ends
      simp [emits, flag, ends] at quiet
    rw [takeByte, if_pos flag, if_neg (by rwa [ends_iff]), next, if_pos flag]
  · rw [takeByte, if_neg flag, next, if_neg flag]

theorem emits_some {d : Decoder cap} {byte : Byte} {frame : List Byte}
    (emit : d.emits byte = some frame) :
    byte = rnsStreamFlag ∧ d.state ≠ .waitFrameStart ∧ d.frame ≠ [] ∧ frame = d.frame := by
  rw [emits] at emit
  split at emit
  · rename_i ends
    exact ⟨ends.1, ends.2.1, ends.2.2, (Option.some.inj emit).symm⟩
  · exact nomatch emit

theorem takeByte_emit {d : Decoder cap} {byte : Byte} (s : σ) {frame : List Byte}
    (emit : d.emits byte = some frame) :
    d.takeByte cb byte s =
      if (cb frame s).1 = txThrottle then (true, { d with held := true }, (cb frame s).2)
      else (false, d.next byte, (cb frame s).2) := by
  obtain ⟨flag, opened, full, rfl⟩ := emits_some emit
  rw [takeByte, if_pos flag, if_pos (d.ends_iff.mpr ⟨opened, full⟩), next, if_pos flag]
  simp only [emitFrame_eq cb d s full]

def byteLoop (cb : FrameCb σ) :
    Decoder cap → List Byte → σ → (Bool × List Byte) × Decoder cap × σ
  | d, [], s => ((false, []), d, s)
  | d, byte :: rest, s =>
    let taken := d.takeByte cb byte s
    if taken.1 then ((true, rest), taken.2.1, taken.2.2)
    else byteLoop cb taken.2.1 rest taken.2.2

theorem byteLoop_plain (d : Decoder cap) {byte : Byte} (rest : List Byte) (s : σ)
    (plain : byte ≠ rnsStreamFlag) :
    byteLoop cb d (byte :: rest) s = byteLoop cb (d.plainByte byte) rest s := by
  rw [byteLoop, takeByte, if_neg plain]
  rfl

theorem copyRun_byteLoop (d : Decoder cap) (data : List Byte) (s : σ)
    (reading : d.state = .readFrame) :
    byteLoop cb (d.copyRun data).1 (d.copyRun data).2 s = byteLoop cb d data s := by
  induction data generalizing d with
  | nil => rfl
  | cons byte rest ih =>
    rw [copyRun]
    split
    · rfl
    · rename_i plain
      rw [not_or] at plain
      have stored : d.plainByte byte = d.store byte := by
        simp [plainByte, reading, plain.2]
      rw [byteLoop_plain cb d rest s plain.1, stored, store]
      split
      · exact ih _ reading
      · -- the byte that did not fit is skipped once the decoder waits for a FLAG
        rw [byteLoop_plain cb _ rest s plain.1]
        rfl

theorem fastPath_byteLoop (d : Decoder cap) (data : List Byte) (s : σ) :
    byteLoop cb (d.fastPath data).1 (d.fastPath data).2 s = byteLoop cb d data s := by
  cases data with
  | nil => rfl
  | cons byte rest =>
    rw [fastPath]
    split
    · rename_i fast
      exact copyRun_byteLoop cb d (byte :: rest) s fast.1
    · rfl

theorem copyRun_length (d : Decoder cap) (data : List Byte) :
    (d.copyRun data).2.length ≤ data.length := by
  induction data generalizing d with
  | nil => exact Nat.le_refl _
  | cons byte rest ih =>
    rw [copyRun]
    split
    · exact Nat.le_refl _
    · split
      · exact Nat.le_succ_of_le (ih _)
      · exact Nat.le_refl _

theorem fastPath_length (d : Decoder cap) (data : List Byte) :
    (d.fastPath data).2.length ≤ data.length := by
  cases data with
  | nil => exact Nat.le_refl _
  | cons byte rest =>
    rw [fastPath]
    split
    · exact copyRun_length d _
    · exact Nat.le_refl _

theorem processLoop_eq (fuel : Nat) (d : Decoder cap) (data : List Byte) (s : σ)
    (enough : data.length ≤ fuel) : processLoop cb fuel d data s = byteLoop cb d data s := by
  induction fuel generalizing d data s with
  | zero =>
    obtain rfl := List.length_eq_zero_iff.mp (Nat.le_zero.mp enough)
    rfl
  | succ fuel ih =>
    have shorter := (fastPath_length d data).trans enough
    rw [processLoop, ← fastPath_byteLoop cb d data s]
    generalize d.fastPath data = run at shorter ⊢
    obtain ⟨d, data⟩ := run
    cases data with
    | nil => rfl
    | cons byte rest =>
      simp only [byteLoop]
      split
      · rfl
      · exact ih _ _ _ (Nat.le_of_succ_le_succ shorter)

end Decoder

open Decoder

def machine : Mealy (Decoder cap) Byte (List Byte) := ⟨init, next, emits⟩

def throttled (answer : Int) : Bool := answer == txThrottle

abbrev FrameOffers := Offers (List Byte) Int

def watched (cb : FrameCb σ) : FrameCb (σ × FrameOffers) := fun frame s =>
  let r := cb frame s.1
  (r.1, r.2, (frame, r.1) :: s.2)

def Decoder.holding (d : Decoder cap) (offers : FrameOffers) :
    Holding (Decoder cap) (List Byte) Int :=
  if d.held then ⟨released, some d.frame, offers⟩ else ⟨d, none, offers⟩

abbrev Follows (h : Holding (Decoder cap) (List Byte) Int) (bytes : List Byte)
    (h' : Holding (Decoder cap) (List Byte) Int) : Prop :=
  Holding.Run throttled machine h bytes h'

variable {d : Decoder cap} {data : List Byte}

variable (cb : FrameCb σ) (offers : FrameOffers)

theorem holding_free (free : d.held = false) : d.holding offers = ⟨d, none, offers⟩ := by
  rw [holding, free]
  rfl

theorem plainByte_held (d : Decoder cap) (byte : Byte) : (d.plainByte byte).held = d.held := by
  unfold plainByte store
  repeat' split
  all_goals rfl

theorem next_held (d : Decoder cap) (byte : Byte) : (d.next byte).held = d.held := by
  rw [next]
  split
  · rfl
  · exact plainByte_held d byte

theorem next_flag {byte : Byte} (free : d.held = false) (flag : byte = rnsStreamFlag) :
    d.next byte = released := by
  rw [next, if_pos flag, restart, free]
  rfl

theorem takeByte_held (byte : Byte) (s : σ) (free : d.held = false) :
    (d.takeByte cb byte s).2.1.held = (d.takeByte cb byte s).1 := by
  cases emit : d.emits byte with
  | none => rw [takeByte_quiet cb s emit, next_held, free]
  | some frame =>
    rw [takeByte_emit cb s emit]
    split
    · rfl
    · rw [next_held, free]

theorem byteLoop_held (data : List Byte) (s : σ) (free : d.held = false) :
    (byteLoop cb d data s).2.1.held = (byteLoop cb d data s).1.1 := by
  induction data generalizing d s with
  | nil => exact free
  | cons byte rest ih =>
    have held := takeByte_held cb byte s free
    rw [byteLoop]
    cases refused : (d.takeByte cb byte s).1 with
    | true => simpa [refused] using held
    | false =>
      rw [if_neg (by simp)]
      exact ih _ (held.trans refused)

theorem refusals_mono {h h' : Holding (Decoder cap) (List Byte) Int} {bytes : List Byte}
    (run : Follows h bytes h') :
    Offers.refusals throttled h.log ≤ Offers.refusals throttled h'.log :=
  run.log_suffix.sublist.countP_le

theorem refusals_cons {frame : List Byte} {answer : Int} (no : answer = txThrottle) :
    Offers.refusals throttled offers < Offers.refusals throttled ((frame, answer) :: offers) := by
  rw [Offers.refusals, Offers.refusals, List.countP_cons_of_pos (by simp [throttled, no])]
  exact Nat.lt_succ_self _

structure Fed (d : Decoder cap) (offers : FrameOffers) (bytes : List Byte) (d' : Decoder cap)
    (offers' : FrameOffers) : Prop where
  follows : Follows (d.holding offers) bytes (d'.holding offers')
  whole : d'.Whole
  refused : d'.held = true →
    Offers.refusals throttled offers < Offers.refusals throttled offers'

theorem Fed.refl (free : d.held = false) : Fed d offers [] d offers where
  follows := .refl _
  whole held := by simp [free] at held
  refused held := by simp [free] at held

theorem holding_log (d : Decoder cap) (offers : FrameOffers) : (d.holding offers).log = offers := by
  rw [holding]
  split <;> rfl

theorem Fed.refusals_le {d d' : Decoder cap} {offers offers' : FrameOffers} {bytes : List Byte}
    (fed : Fed d offers bytes d' offers') :
    Offers.refusals throttled offers ≤ Offers.refusals throttled offers' := by
  simpa [holding_log] using refusals_mono fed.follows

theorem Fed.trans {d d' d'' : Decoder cap} {offers offers' offers'' : FrameOffers}
    {bytes more : List Byte} (first : Fed d offers bytes d' offers')
    (second : Fed d' offers' more d'' offers'') : Fed d offers (bytes ++ more) d'' offers'' where
  follows := first.follows.trans second.follows
  whole := second.whole
  refused held := Nat.lt_of_le_of_lt first.refusals_le (second.refused held)

theorem takeByte_fed (byte : Byte) (s : σ × FrameOffers) (free : d.held = false) :
    Fed d s.2 [byte] (d.takeByte (watched cb) byte s).2.1
      (d.takeByte (watched cb) byte s).2.2.2 := by
  have here := holding_free s.2 free
  have free' : (d.next byte).held = false := (next_held d byte).trans free
  cases emit : d.emits byte with
  | none =>
    rw [takeByte_quiet _ s emit]
    refine ⟨?_, by simp [Whole, free'], by simp [free']⟩
    rw [here, holding_free s.2 free']
    have step : Holding.Step throttled machine ⟨d, none, s.2⟩ [byte] _ := .quiet rfl emit
    exact step.run
  | some frame =>
    have step : Holding.Step throttled machine ⟨d, none, s.2⟩ [byte] _ :=
      .emit (cb frame s.1).1 rfl emit
    rw [takeByte_emit _ s emit]
    by_cases no : (cb frame s.1).1 = txThrottle
    · obtain ⟨flag, -, full, rfl⟩ := emits_some emit
      rw [if_pos (show (watched cb d.frame s).1 = txThrottle from no)]
      refine ⟨?_, fun _ => full, fun _ => refusals_cons s.2 no⟩
      rw [here]
      convert step.run using 1
      simp [holding, Holding.offer, Holding.move, watched, throttled, no, machine,
        next_flag free flag]
    · rw [if_neg (show ¬(watched cb frame s).1 = txThrottle from no)]
      refine ⟨?_, by simp [Whole, free'], by simp [free']⟩
      rw [here, holding_free _ free']
      convert step.run using 1
      simp [Holding.offer, Holding.move, watched, throttled, no, machine]

theorem byteLoop_fed (data : List Byte) (s : σ × FrameOffers) (free : d.held = false) :
    ∃ bytes, data = bytes ++ (byteLoop (watched cb) d data s).1.2 ∧
      Fed d s.2 bytes (byteLoop (watched cb) d data s).2.1
        (byteLoop (watched cb) d data s).2.2.2 := by
  induction data generalizing d s with
  | nil => exact ⟨[], rfl, Fed.refl s.2 free⟩
  | cons byte rest ih =>
    have fed := takeByte_fed cb byte s free
    have held := takeByte_held (watched cb) byte s free
    rw [byteLoop]
    cases refused : (d.takeByte (watched cb) byte s).1 with
    | true => exact ⟨[byte], rfl, fed⟩
    | false =>
      obtain ⟨bytes, cut, later⟩ := ih (d.takeByte (watched cb) byte s).2.2 (held.trans refused)
      exact ⟨byte :: bytes, congrArg (byte :: ·) cut, fed.trans later⟩

theorem take_consumed {data bytes rest : List Byte} (short : data.length ≤ 65535)
    (cut : data = bytes ++ rest) : data.take ((data.length - rest.length) % 2 ^ 16) = bytes := by
  subst cut
  rw [List.length_append] at short ⊢
  rw [Nat.add_sub_cancel, Nat.mod_eq_of_lt (by omega), List.take_left]

theorem byteLoop_rest (data : List Byte) (s : σ) (through : (byteLoop cb d data s).1.1 = false) :
    (byteLoop cb d data s).1.2 = [] := by
  induction data generalizing d s with
  | nil => rfl
  | cons byte rest ih =>
    rw [byteLoop] at through ⊢
    cases refused : (d.takeByte cb byte s).1 with
    | true => simp [refused] at through
    | false =>
      rw [refused, if_neg (by simp)] at through
      exact ih _ through

theorem processFresh_fed (cb : FrameCb σ) (short : data.length ≤ 65535) (s : σ × FrameOffers)
    (free : d.held = false) : let r := d.processFresh (watched cb) data s
    Fed d s.2 (data.take r.consumed) r.decoder r.user.2 := by
  obtain ⟨bytes, cut, fed⟩ := byteLoop_fed cb data s free
  simp only [processFresh, processLoop_eq _ _ _ _ _ (Nat.le_refl data.length)]
  rwa [take_consumed short cut]

theorem processFresh_through (short : data.length ≤ 65535) (s : σ) (free : d.held = false)
    (through : (d.processFresh cb data s).decoder.held = false) :
    (d.processFresh cb data s).consumed = data.length := by
  simp only [processFresh, processLoop_eq _ _ _ _ _ (Nat.le_refl data.length)] at through ⊢
  rw [byteLoop_held cb data s free] at through
  rw [byteLoop_rest cb data s through, List.length_nil, Nat.sub_zero]
  exact Nat.mod_eq_of_lt (by omega)

theorem holding_held (held : d.held = true) :
    d.holding offers = ⟨released, some d.frame, offers⟩ := by
  rw [holding, held]
  rfl

theorem reoffer_fed (cb : FrameCb σ) (s : σ × FrameOffers) (whole : d.Whole)
    (held : d.held = true) : let r := d.emitFrame (watched cb) s
    Fed d s.2 [] (if r.1 = txThrottle then d else released) r.2.2 := by
  have full := whole held
  have step : Holding.Step throttled machine ⟨(released : Decoder cap), some d.frame, s.2⟩ [] _ :=
    .retry (cb d.frame s.1).1 rfl
  simp only [emitFrame_eq _ d s full]
  by_cases no : (cb d.frame s.1).1 = txThrottle
  · rw [if_pos (show (watched cb d.frame s).1 = txThrottle from no)]
    refine ⟨?_, whole, fun _ => refusals_cons s.2 no⟩
    rw [holding_held s.2 held, holding_held _ held]
    convert step.run using 1
    simp [Holding.offer, watched, throttled, no]
  · rw [if_neg (show ¬(watched cb d.frame s).1 = txThrottle from no)]
    have free : (released : Decoder cap).held ≠ true := by simp [released]
    refine ⟨?_, fun again => absurd again free, fun again => absurd again free⟩
    rw [holding_held s.2 held, holding_free _ rfl]
    convert step.run using 1
    simp [Holding.offer, watched, throttled, no]

theorem process_fed (cb : FrameCb σ) (short : data.length ≤ 65535) (s : σ × FrameOffers)
    (whole : d.Whole) (more : data ≠ []) : let r := d.process (watched cb) data s
    Fed d s.2 (data.take r.consumed) r.decoder r.user.2 := by
  rw [process, if_neg (by simpa using more)]
  cases held : d.held with
  | false => exact processFresh_fed cb short s held
  | true =>
    have again := reoffer_fed cb s whole held
    dsimp only at again ⊢
    rw [if_pos rfl]
    split
    · rename_i no
      rw [if_pos no] at again
      exact again
    · rename_i yes
      rw [if_neg yes] at again
      exact again.trans (processFresh_fed cb short _ rfl)

theorem process_through (short : data.length ≤ 65535) (s : σ) (more : data ≠ [])
    (through : (d.process cb data s).decoder.held = false) :
    (d.process cb data s).consumed = data.length := by
  rw [process, if_neg (by simpa using more)] at through ⊢
  cases held : d.held with
  | false =>
    rw [held] at through
    exact processFresh_through cb short s held through
  | true =>
    rw [held, if_pos rfl] at through
    rw [if_pos rfl]
    dsimp only at through ⊢
    split at through
    · exact nomatch held.symm.trans through
    · rename_i yes
      rw [if_neg yes]
      exact processFresh_through cb short _ rfl through

theorem retryHeld_fed (s : σ × FrameOffers) (whole : d.Whole) :
    Fed d s.2 [] (d.retryHeld (watched cb) s).2.1 (d.retryHeld (watched cb) s).2.2.2 := by
  cases held : d.held with
  | false => simpa [retryHeld, held] using Fed.refl s.2 held
  | true =>
    have again := reoffer_fed cb s whole held
    dsimp only at again
    rw [retryHeld, held]
    simp only [Bool.not_true, Bool.false_eq_true, if_false]
    split
    · rename_i no
      rwa [if_pos no] at again
    · rename_i yes
      rwa [if_neg yes] at again

-- A caller that feeds chunks and feeds again what a call left over.
structure Session (cap : Nat) (σ : Type) where
  decoder : Decoder cap
  user : σ
  pending : List (List Byte)
  offers : FrameOffers

inductive Action where
  | feed
  | retry
  deriving DecidableEq

namespace Session

def start (user : σ) (chunks : List (List Byte)) : Session cap σ := ⟨init, user, chunks, []⟩

def act (cb : FrameCb σ) (s : Session cap σ) : Action → Session cap σ
  | .feed =>
    match s.pending with
    | [] => s
    | chunk :: later =>
      let r := s.decoder.process (watched cb) chunk (s.user, s.offers)
      ⟨r.decoder, r.user.1,
        if r.consumed < chunk.length then chunk.drop r.consumed :: later else later, r.user.2⟩
  | .retry =>
    let r := s.decoder.retryHeld (watched cb) (s.user, s.offers)
    ⟨r.2.1, r.2.2.1, s.pending, r.2.2.2⟩

def run (cb : FrameCb σ) (s : Session cap σ) (actions : List Action) : Session cap σ :=
  actions.foldl (act cb) s

def accepted (s : Session cap σ) : List (List Byte) := Offers.taken throttled s.offers

def heldFrame (s : Session cap σ) : List (List Byte) :=
  if s.decoder.held then [s.decoder.frame] else []

def Short (s : Session cap σ) : Prop := ∀ chunk ∈ s.pending, chunk.length ≤ 65535

structure Reads (stream bytes : List Byte) (s : Session cap σ) : Prop where
  faithful : Holding.Faithful throttled machine bytes (s.decoder.holding s.offers)
  whole : s.decoder.Whole
  short : s.Short
  cut : stream = bytes ++ s.pending.flatten

theorem reads_start (user : σ) {chunks : List (List Byte)}
    (short : ∀ chunk ∈ chunks, chunk.length ≤ 65535) :
    Reads chunks.flatten [] (start user chunks : Session cap σ) where
  faithful := .start
  whole := nofun
  short := short
  cut := rfl

theorem drop_flatten (chunk : List Byte) (later : List (List Byte)) (n : Nat) :
    chunk.take n ++ (if n < chunk.length then chunk.drop n :: later else later).flatten =
      chunk ++ later.flatten := by
  split
  · rw [List.flatten_cons, ← List.append_assoc, List.take_append_drop]
  · rename_i full
    rw [List.take_of_length_le (Nat.le_of_not_lt full)]

variable {stream bytes : List Byte} {s : Session cap σ}

variable (cb : FrameCb σ)

theorem feed_reads (reads : Reads stream bytes s) :
    ∃ bytes', Reads stream bytes' (s.act cb .feed) := by
  obtain ⟨faithful, whole, short, cut⟩ := reads
  obtain ⟨d, user, pending, offers⟩ := s
  cases pending with
  | nil => exact ⟨bytes, faithful, whole, short, cut⟩
  | cons chunk later =>
    have now : chunk.length ≤ 65535 := short chunk List.mem_cons_self
    have rest : ∀ c ∈ later, c.length ≤ 65535 := fun c mem => short c (List.mem_cons_of_mem _ mem)
    by_cases more : chunk = []
    · subst more
      exact ⟨bytes, faithful, whole, rest, cut⟩
    · have fed := process_fed cb now (user, offers) whole more
      dsimp only at fed
      refine ⟨bytes ++ chunk.take _, fed.follows.faithful faithful, fed.whole, ?_, ?_⟩
      · intro c mem
        simp only [act] at mem
        split at mem
        · rcases List.mem_cons.mp mem with rfl | mem
          · exact (List.drop_sublist _ _).length_le.trans now
          · exact rest c mem
        · exact rest c mem
      · rw [List.append_assoc, cut]
        exact congrArg (bytes ++ ·) (drop_flatten chunk later _).symm

theorem act_reads (reads : Reads stream bytes s) (action : Action) :
    ∃ bytes', Reads stream bytes' (s.act cb action) := by
  cases action with
  | feed => exact feed_reads cb reads
  | retry =>
    obtain ⟨faithful, whole, short, cut⟩ := reads
    have fed := retryHeld_fed cb (s.user, s.offers) whole
    have faithful' := fed.follows.faithful faithful
    rw [List.append_nil] at faithful'
    exact ⟨bytes, faithful', fed.whole, short, cut⟩

theorem run_reads (reads : Reads stream bytes s) (actions : List Action) :
    ∃ bytes', Reads stream bytes' (s.run cb actions) := by
  induction actions generalizing s bytes with
  | nil => exact ⟨bytes, reads⟩
  | cons action rest ih =>
    obtain ⟨_, reads'⟩ := act_reads cb reads action
    exact ih reads'

theorem holding_held_toList (s : Session cap σ) :
    (s.decoder.holding s.offers).held.toList = s.heldFrame := by
  rw [heldFrame, holding]
  split <;> rfl

def refusals (s : Session cap σ) : Nat := Offers.refusals throttled s.offers

def load (s : Session cap σ) : Nat := s.pending.length + s.heldFrame.length

theorem heldFrame_length_le (s : Session cap σ) : s.heldFrame.length ≤ 1 := by
  rw [heldFrame]
  split <;> simp

theorem heldFrame_free (free : s.decoder.held = false) : s.heldFrame = [] := by
  simp [heldFrame, free]

theorem feed_progress (reads : Reads stream bytes s) {chunk : List Byte} {later : List (List Byte)}
    (cons : s.pending = chunk :: later) :
    (s.act cb .feed).pending = later ∨
      s.refusals < (s.act cb .feed).refusals ∧
        (s.act cb .feed).pending.length ≤ s.pending.length := by
  obtain ⟨-, whole, short, -⟩ := reads
  obtain ⟨d, user, pending, offers⟩ := s
  subst cons
  have now : chunk.length ≤ 65535 := short chunk List.mem_cons_self
  by_cases more : chunk = []
  · subst more
    exact .inl rfl
  · have fed := process_fed cb now (user, offers) whole more
    cases held : (d.process (watched cb) chunk (user, offers)).decoder.held with
    | false =>
      have all := process_through (watched cb) now (user, offers) more held
      refine .inl ?_
      simp only [act, all, Nat.lt_irrefl, if_false]
    | true =>
      refine .inr ⟨fed.refused held, ?_⟩
      simp only [act]
      split <;> simp

theorem retry_progress (whole : s.decoder.Whole) :
    (s.act cb .retry).heldFrame = [] ∨ s.refusals < (s.act cb .retry).refusals := by
  have fed := retryHeld_fed cb (s.user, s.offers) whole
  cases held : (s.act cb .retry).decoder.held with
  | false => exact .inl (heldFrame_free held)
  | true => exact .inr (fed.refused held)

theorem retry_refusals (whole : s.decoder.Whole) : s.refusals ≤ (s.act cb .retry).refusals :=
  (retryHeld_fed cb (s.user, s.offers) whole).refusals_le

theorem retry_pending (s : Session cap σ) : (s.act cb .retry).pending = s.pending := rfl

theorem feed_refusals (reads : Reads stream bytes s) : s.refusals ≤ (s.act cb .feed).refusals := by
  obtain ⟨-, whole, short, -⟩ := reads
  obtain ⟨d, user, pending, offers⟩ := s
  cases pending with
  | nil => exact Nat.le_refl _
  | cons chunk later =>
    by_cases more : chunk = []
    · subst more
      exact Nat.le_refl _
    · exact (process_fed cb (short chunk List.mem_cons_self) (user, offers) whole more).refusals_le

def round (cb : FrameCb σ) (s : Session cap σ) : Session cap σ := (s.act cb .feed).act cb .retry

theorem round_progress (reads : Reads stream bytes s) (work : s.load ≠ 0) :
    s.refusals ≤ (s.round cb).refusals ∧ (s.round cb).load < s.load ∨
      s.refusals < (s.round cb).refusals ∧ (s.round cb).load ≤ s.load + 1 := by
  obtain ⟨_, fed⟩ := feed_reads cb reads
  have retried := retry_progress cb fed.whole
  have kept := retry_refusals cb fed.whole
  have before := feed_refusals cb reads
  have one := heldFrame_length_le (s.round cb)
  have pending : (s.round cb).pending = (s.act cb .feed).pending := retry_pending cb _
  simp only [load] at work ⊢
  rw [pending]
  cases now : s.pending with
  | nil =>
    have same : s.act cb .feed = s := by simp only [act, now]
    rw [now] at work
    rw [same, now]
    rw [same] at retried
    rcases retried with free | refused
    · left
      refine ⟨before.trans kept, ?_⟩
      rw [round, same, free]
      simpa using Nat.pos_of_ne_zero work
    · right
      rw [round, same]
      rw [round, same] at one
      exact ⟨refused, by omega⟩
  | cons chunk later =>
    rcases feed_progress cb reads now with through | ⟨refused, shorter⟩
    · rw [through]
      rcases retried with free | refused
      · left
        refine ⟨before.trans kept, ?_⟩
        rw [round, free, List.length_cons]
        simp only [List.length_nil]
        omega
      · right
        rw [List.length_cons]
        exact ⟨Nat.lt_of_le_of_lt before refused, by omega⟩
    · right
      rw [now] at shorter
      exact ⟨Nat.lt_of_lt_of_le refused kept, by omega⟩

theorem round_idle (idle : s.load = 0) : s.round cb = s := by
  obtain ⟨none, free⟩ := Nat.add_eq_zero_iff.mp idle
  obtain ⟨d, user, pending, offers⟩ := s
  obtain rfl := List.length_eq_zero_iff.mp none
  have free' : d.held = false := by
    cases held : d.held with
    | false => rfl
    | true => simp [heldFrame, held] at free
  simp [round, act, retryHeld, free']

def rounds (k : Nat) : List Action := (List.replicate k [Action.feed, Action.retry]).flatten

theorem run_rounds_succ (s : Session cap σ) (k : Nat) :
    s.run cb (rounds (k + 1)) = (s.round cb).run cb (rounds k) := by
  simp [run, rounds, round, List.replicate_succ]

theorem run_rounds_idle (k : Nat) (idle : s.load = 0) : s.run cb (rounds k) = s := by
  induction k with
  | zero => rfl
  | succ k ih => rw [run_rounds_succ, round_idle cb idle, ih]

theorem drained (limit k : Nat) (reads : Reads stream bytes s)
    (enough : s.load + 2 * limit ≤ k + 2 * s.refusals)
    (bounded : (s.run cb (rounds k)).refusals ≤ limit) : (s.run cb (rounds k)).load = 0 := by
  induction k generalizing s bytes with
  | zero =>
    have small : s.refusals ≤ limit := bounded
    change s.load = 0
    omega
  | succ k ih =>
    rw [run_rounds_succ] at bounded ⊢
    obtain ⟨_, fed⟩ := feed_reads cb reads
    obtain ⟨_, reads'⟩ := act_reads cb fed .retry
    by_cases idle : s.load = 0
    · rw [round_idle cb idle, run_rounds_idle cb k idle]
      exact idle
    · refine ih reads' ?_ bounded
      rcases round_progress cb reads idle with ⟨kept, less⟩ | ⟨refused, load⟩ <;> omega

end Session

def accept : FrameCb (List (List Byte)) := fun frame got => (0, got ++ [frame])

def decodeByte (s : Decoder cap × List (List Byte)) (byte : Byte) :
    Decoder cap × List (List Byte) :=
  let r := s.1.process accept [byte] s.2
  (r.decoder, r.user)

def decodeBytewise (cap : Nat) (stream : List Byte) : List (List Byte) :=
  (stream.foldl decodeByte ((init : Decoder cap), [])).2

theorem takeByte_accept (d : Decoder cap) (byte : Byte) (got : List (List Byte)) :
    d.takeByte accept byte got = (false, d.next byte, got ++ (d.emits byte).toList) := by
  cases emit : d.emits byte with
  | none => simp [takeByte_quiet accept got emit]
  | some frame =>
    have yes : ¬(accept frame got).1 = txThrottle := by
      change ¬(0 : Int) = txThrottle
      decide
    rw [takeByte_emit accept got emit, if_neg yes]
    rfl

theorem byteLoop_accept (d : Decoder cap) (data : List Byte) (got : List (List Byte)) :
    byteLoop accept d data got =
      ((false, []), machine.after d data, got ++ machine.outputs d data) := by
  induction data generalizing d got with
  | nil => simp [byteLoop]
  | cons byte rest ih =>
    rw [byteLoop, takeByte_accept]
    simp only [Bool.false_eq_true, if_false]
    rw [ih, List.append_assoc]
    rfl

theorem process_accept (data : List Byte) (got : List (List Byte)) (free : d.held = false) :
    (d.process accept data got).decoder = machine.after d data ∧
      (d.process accept data got).user = got ++ machine.outputs d data := by
  by_cases some : data = []
  · subst some
    simp [process]
  · have fresh : d.process accept data got = d.processFresh accept data got := by
      rw [process, if_neg (by simpa using some), free]
      rfl
    rw [fresh, processFresh, processLoop_eq _ _ _ _ _ (Nat.le_refl _), byteLoop_accept]
    exact ⟨rfl, rfl⟩

theorem decodeByte_eq (got : List (List Byte)) (byte : Byte) (free : d.held = false) :
    decodeByte (d, got) byte = (d.next byte, got ++ (d.emits byte).toList) := by
  obtain ⟨decoder, user⟩ := process_accept [byte] got free
  have one : machine.outputs d [byte] = (d.emits byte).toList := List.append_nil _
  rw [decodeByte, decoder, user, one]
  rfl

theorem decodeBytes_eq (got : List (List Byte)) (stream : List Byte) (free : d.held = false) :
    (stream.foldl decodeByte (d, got)).2 = got ++ machine.outputs d stream := by
  induction stream generalizing d got with
  | nil => simp
  | cons byte rest ih =>
    rw [List.foldl_cons, decodeByte_eq got byte free, ih _ ((next_held d byte).trans free),
      List.append_assoc]
    rfl

theorem decodeBytewise_eq (stream : List Byte) :
    decodeBytewise cap stream = (machine : Mealy (Decoder cap) _ _).outputs machine.start stream := by
  rw [decodeBytewise, decodeBytes_eq [] stream rfl, List.nil_append]
  rfl

namespace Session

theorem Reads.decodes {stream bytes : List Byte} {s : Session cap σ} (reads : Reads stream bytes s) :
    s.accepted ++ s.heldFrame = decodeBytewise cap bytes := by
  rw [decodeBytewise_eq, ← holding_held_toList, accepted]
  simpa only [holding_log] using reads.faithful.outputs

theorem Reads.patient {stream bytes : List Byte} {s : Session cap σ} (reads : Reads stream bytes s) :
    Offers.Patient throttled s.offers := by
  simpa only [holding_log] using reads.faithful.patient

theorem Reads.complete {stream bytes : List Byte} {s : Session cap σ} (reads : Reads stream bytes s)
    (idle : s.load = 0) : s.accepted = decodeBytewise cap stream := by
  obtain ⟨none, free⟩ := Nat.add_eq_zero_iff.mp idle
  rw [List.length_eq_zero_iff] at none free
  have decodes := reads.decodes
  rw [free, List.append_nil] at decodes
  rw [decodes, reads.cut, none, List.flatten_nil, List.append_nil]

end Session

theorem decoding_independent_of_chunks (cb : FrameCb σ) (user : σ) (chunks : List (List Byte))
    (short : ∀ chunk ∈ chunks, chunk.length ≤ 65535) :
    (∀ actions : List Action,
      let s := (Session.start user chunks : Session cap σ).run cb actions
      (∃ bytes, chunks.flatten = bytes ++ s.pending.flatten ∧
        s.accepted ++ s.heldFrame = decodeBytewise cap bytes) ∧
      Offers.Patient throttled s.offers) ∧
    ∀ limit : Nat,
      let s := (Session.start user chunks : Session cap σ).run cb
        (Session.rounds (chunks.length + 2 * limit))
      s.refusals ≤ limit → s.accepted = decodeBytewise cap chunks.flatten := by
  have start : Session.Reads _ [] (Session.start user chunks : Session cap σ) :=
    Session.reads_start user short
  refine ⟨?_, ?_⟩
  · intro actions s
    obtain ⟨bytes, reads⟩ := Session.run_reads cb start actions
    exact ⟨⟨bytes, reads.cut, reads.decodes⟩, reads.patient⟩
  · intro limit s bounded
    obtain ⟨_, reads⟩ := Session.run_reads cb start
      (Session.rounds (chunks.length + 2 * limit))
    exact reads.complete (Session.drained cb limit _ start (Nat.le_add_right _ _) bounded)

def refuseFirst : FrameCb Nat := fun _ n =>
  match n with
  | 0 => (0, 0)
  | n + 1 => (txThrottle, n)

def oneFrame : List Byte := [rnsStreamFlag, 0x41#8, rnsStreamFlag]

theorem decoding_independent_of_chunks_oneFrame :
    ((Session.start 1 [oneFrame] : Session rnsStreamMaxFrameSize Nat).run refuseFirst
      (Session.rounds 3)).accepted = decodeBytewise rnsStreamMaxFrameSize [oneFrame].flatten :=
  (decoding_independent_of_chunks refuseFirst 1 [oneFrame] (by decide)).2 1 (by decide +kernel)

-- The last FLAG is consumed with the refused frame, so there is nothing left to feed.
theorem last_frame_missing_unretried :
    let s := (Session.start 1 [oneFrame] : Session rnsStreamMaxFrameSize Nat).run refuseFirst
      [.feed, .feed]
    s.pending = [] ∧ s.refusals = 1 ∧ s.accepted = [] ∧
      decodeBytewise rnsStreamMaxFrameSize oneFrame = [[0x41#8]] := by
  decide +kernel

open Decoder


section Keeps

variable {cb : FrameCb σ} {P : σ → Prop} (keeps : ∀ frame s, P s → P (cb frame s).2)

include keeps

variable (d : Decoder cap)

theorem emitFrame_keeps {s : σ} (start : P s) : P (d.emitFrame cb s).2 := by
  rw [emitFrame]
  split
  · exact start
  · exact keeps d.frame s start

theorem takeByte_keeps (byte : Byte) {s : σ} (start : P s) : P (d.takeByte cb byte s).2.2 := by
  have emitted := emitFrame_keeps keeps d start
  unfold takeByte
  dsimp only
  repeat' split
  all_goals first | exact emitted | exact start

theorem processLoop_keeps (fuel : Nat) (d : Decoder cap) (data : List Byte) {s : σ}
    (start : P s) : P (processLoop cb fuel d data s).2.2 := by
  induction fuel generalizing d data s with
  | zero => exact start
  | succ fuel ih =>
    rw [processLoop]
    cases (d.fastPath data).2 with
    | nil => exact start
    | cons byte rest =>
      have taken := takeByte_keeps keeps (d.fastPath data).1 byte start
      dsimp only
      split
      · exact taken
      · exact ih _ rest taken

theorem processFresh_keeps (data : List Byte) {s : σ} (start : P s) :
    P (d.processFresh cb data s).user := processLoop_keeps keeps data.length d data start

theorem process_keeps (data : List Byte) {s : σ} (start : P s) : P (d.process cb data s).user := by
  have emitted := emitFrame_keeps keeps d start
  rw [process]
  split
  · exact start
  · split
    · dsimp only
      split
      · exact emitted
      · exact processFresh_keeps keeps released data emitted
    · exact processFresh_keeps keeps d data start

theorem retryHeld_keeps {s : σ} (start : P s) : P (d.retryHeld cb s).2.2 := by
  have emitted := emitFrame_keeps keeps d start
  rw [retryHeld]
  split
  · exact start
  · dsimp only
    split <;> exact emitted

end Keeps

def replay (cb : FrameCb σ) (user : σ) : FrameOffers → σ
  | [] => user
  | offer :: old => (cb offer.1 (replay cb user old)).2

def Told (cb : FrameCb σ) (user : σ) : FrameOffers → Prop
  | [] => True
  | offer :: old => offer.2 = (cb offer.1 (replay cb user old)).1 ∧ Told cb user old

def Replays (cb : FrameCb σ) (user : σ) (s : σ × FrameOffers) : Prop :=
  s.1 = replay cb user s.2 ∧ Told cb user s.2

theorem watched_replays (cb : FrameCb σ) (user : σ) (frame : List Byte) (s : σ × FrameOffers)
    (replays : Replays cb user s) : Replays cb user (watched cb frame s).2 := by
  obtain ⟨same, told⟩ := replays
  have now : watched cb frame s =
      ((cb frame s.1).1, (cb frame s.1).2, (frame, (cb frame s.1).1) :: s.2) := rfl
  rw [now, same]
  exact ⟨rfl, rfl, told⟩

namespace Session

theorem act_replays (cb : FrameCb σ) (user : σ) {s : Session cap σ}
    (replays : Replays cb user (s.user, s.offers)) (action : Action) :
    Replays cb user ((s.act cb action).user, (s.act cb action).offers) := by
  have keeps := watched_replays cb user
  cases action with
  | feed =>
    rw [act]
    cases s.pending with
    | nil => exact replays
    | cons chunk later => exact process_keeps keeps s.decoder chunk replays
  | retry => exact retryHeld_keeps keeps s.decoder replays

theorem run_replays (cb : FrameCb σ) (user : σ) {s : Session cap σ}
    (replays : Replays cb user (s.user, s.offers)) (actions : List Action) :
    Replays cb user ((s.run cb actions).user, (s.run cb actions).offers) := by
  induction actions generalizing s with
  | nil => exact replays
  | cons action rest ih => exact ih (act_replays cb user replays action)

end Session

end RnodeHalow.Stream
