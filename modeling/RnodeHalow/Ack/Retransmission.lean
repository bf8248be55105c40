import RnodeHalow.Ack.Acceptance
import RnodeHalow.Ack.Accounting
import RnodeHalow.Ack.Conduct
import RnodeHalow.Ack.Obligation
import RnodeHalow.Ack.Eviction
import RnodeHalow.Ack.StrokeRuns

set_option autoImplicit false

namespace RnodeHalow.Ack

open Resumption
open Function (update update_idem update_of_ne update_self)

variable {ρ : Type} [Platform ρ] {α β : Type}

def countSince (j : BufIx) (p : Event → Bool) : History → Nat
  | [] => 0
  | (_, e) :: older => if e = .born j then 0 else (if p e then 1 else 0) + countSince j p older

def Event.sends (j : BufIx) : Event → Bool
  | .sent k => k = j
  | _ => false

def Event.tries (j : BufIx) : Event → Bool
  | .txSampled _ k => k = j
  | _ => false

def sends (j : BufIx) : History → Nat := countSince j (Event.sends j)

def tries (j : BufIx) : History → Nat := countSince j (Event.tries j)

def Claimed (j : BufIx) (news : History) : Prop := ∃ τ, (τ, .born j) ∈ news

section Counting

variable {j : BufIx} {p : Event → Bool} {news older : History}

theorem countSince_append (unclaimed : ¬ Claimed j news) :
    countSince j p (news ++ older) = news.countP (fun e => p e.2) + countSince j p older := by
  induction news with
  | nil => simp
  | cons e rest ih =>
    obtain ⟨τ, e⟩ := e
    have other : e ≠ .born j := by
      rintro rfl
      exact unclaimed ⟨τ, List.mem_cons_self ..⟩
    have tail := ih (by
      rintro ⟨σ, member⟩
      exact unclaimed ⟨σ, List.mem_cons_of_mem _ member⟩)
    simp only [List.cons_append, countSince, if_neg other, List.countP_cons, tail]
    omega

theorem countSince_claimed (claimed : Claimed j news) (none : ∀ e ∈ news, p e.2 = false) :
    countSince j p (news ++ older) = 0 := by
  induction news with
  | nil =>
    obtain ⟨τ, member⟩ := claimed
    cases member
  | cons e rest ih =>
    obtain ⟨τ, e⟩ := e
    by_cases here : e = .born j
    · simp [countSince, here]
    · have tail : Claimed j rest := by
        obtain ⟨σ, member⟩ := claimed
        rcases List.mem_cons.mp member with same | later
        · exact absurd (congrArg Prod.snd same).symm here
        · exact ⟨σ, later⟩
      have head : p e = false := none (τ, e) (List.mem_cons_self ..)
      simp only [List.cons_append, countSince, if_neg here, head, Bool.false_eq_true, if_false]
      rw [ih tail fun x member => none x (List.mem_cons_of_mem _ member)]

theorem countSince_none (unclaimed : ¬ Claimed j news) (none : ∀ e ∈ news, p e.2 = false) :
    countSince j p (news ++ older) = countSince j p older := by
  rw [countSince_append unclaimed, List.countP_eq_zero.mpr, Nat.zero_add]
  intro e member
  rw [none e member]
  exact Bool.false_ne_true

theorem countSince_le (unclaimed : ¬ Claimed j news) :
    countSince j p older ≤ countSince j p (news ++ older) := by
  rw [countSince_append unclaimed]
  exact Nat.le_add_left ..

theorem countSince_lt (unclaimed : ¬ Claimed j news) {e : Nat × Event} (member : e ∈ news)
    (hit : p e.2 = true) : countSince j p older < countSince j p (news ++ older) := by
  rw [countSince_append unclaimed]
  have pos : 0 < news.countP fun e => p e.2 := List.countP_pos_iff.mpr ⟨e, member, hit⟩
  omega

end Counting

structure SameFrame (old new : AckBuf) : Prop where
  staged : new.state = .staging ↔ old.state = .staging
  wire : old.state ≠ .staging → new.wire = old.wire
  seq : old.state ≠ .staging → new.seq = old.seq
  dest : old.state ≠ .staging → new.destMac = old.destMac

theorem SameFrame.refl (buf : AckBuf) : SameFrame buf buf :=
  ⟨.rfl, fun _ => rfl, fun _ => rfl, fun _ => rfl⟩

theorem SameFrame.trans {a b c : AckBuf} (first : SameFrame a b) (second : SameFrame b c) :
    SameFrame a c := by
  have later (out : a.state ≠ .staging) : b.state ≠ .staging := fun h => out (first.staged.mp h)
  refine ⟨second.staged.trans first.staged, fun out => ?_, fun out => ?_, fun out => ?_⟩
  · exact (second.wire (later out)).trans (first.wire out)
  · exact (second.seq (later out)).trans (first.seq out)
  · exact (second.dest (later out)).trans (first.dest out)

def Event.slot : Event → Option BufIx
  | .born j => some j
  | .txSampled _ j => some j
  | _ => none

def Descended (c : Core) (news : History) (j : BufIx) (buf : AckBuf) : Prop :=
  (Claimed j news ∧ buf.retriesUsed = 0 ∧ ∀ e ∈ news, e.2.tries j = false) ∨
  (¬ Claimed j news ∧ ∃ old, c.bufs j = some old ∧ SameFrame old buf ∧
    buf.retriesUsed = old.retriesUsed + news.countP fun e => e.2.tries j)

def Bears (c c' : Core) : Prop :=
  ∃ news, c'.trace = news ++ c.trace ∧ ∀ j buf, c'.bufs j = some buf → Descended c news j buf

variable {j k : BufIx} {news new : History} {c c' : Core} {buf : AckBuf} {t : Nat}
    {b' b : Body ρ}

theorem unclaimed_of_slot (other : ∀ e ∈ news, e.2.slot ≠ some j) : ¬ Claimed j news := by
  rintro ⟨τ, member⟩
  exact other _ member rfl

theorem untried_of_slot (other : ∀ e ∈ news, e.2.slot ≠ some j) :
    ∀ e ∈ news, e.2.tries j = false := by
  rintro ⟨τ, e⟩ member
  have ne := other _ member
  cases e with
  | txSampled t k => simpa [Event.tries, Event.slot] using ne
  | _ => rfl

theorem Descended.of_same {buf old : AckBuf} (other : ∀ e ∈ news, e.2.slot ≠ some j)
    (held : c.bufs j = some old) (same : SameFrame old buf)
    (retries : buf.retriesUsed = old.retriesUsed) : Descended c news j buf := by
  refine .inr ⟨unclaimed_of_slot other, old, held, same, ?_⟩
  have none : (news.countP fun e => e.2.tries j) = 0 := List.countP_eq_zero.mpr fun e member => by
    rw [untried_of_slot other e member]
    exact Bool.false_ne_true
  rw [none, retries, Nat.add_zero]

theorem bears_same (news : History) (trace : c'.trace = news ++ c.trace)
    (bufs : c'.bufs = c.bufs) (plain : ∀ e ∈ news, e.2.slot = none) : Bears c c' := by
  refine ⟨news, trace, fun j buf held => ?_⟩
  rw [bufs] at held
  refine .of_same (fun e member => ?_) held (.refl buf) rfl
  rw [plain e member]
  exact nofun

theorem bears_update {x : Option AckBuf} (news : History)
    (trace : c'.trace = news ++ c.trace) (bufs : c'.bufs = update c.bufs k x)
    (plain : ∀ e ∈ news, e.2.slot = none ∨ e.2.slot = some k)
    (own : ∀ buf, x = some buf → Descended c news k buf) : Bears c c' := by
  refine ⟨news, trace, fun j buf held => ?_⟩
  rw [bufs] at held
  by_cases here : j = k
  · subst here
    rw [update_self] at held
    exact own buf held
  · rw [update_of_ne here] at held
    refine .of_same (fun e member same => ?_) held (.refl buf) rfl
    rcases plain e member with none | other
    · rw [none] at same
      cases same
    · exact here (Option.some.inj (same.symm.trans other))

theorem bears_free (news : History) (trace : c'.trace = news ++ c.trace)
    (bufs : c'.bufs = update c.bufs k none) (plain : ∀ e ∈ news, e.2.slot = none) :
    Bears c c' := by
  refine bears_update news trace bufs (fun e member => .inl (plain e member)) ?_
  rintro buf ⟨⟩

theorem bears_kept {old buf : AckBuf} (news : History)
    (trace : c'.trace = news ++ c.trace) (bufs : c'.bufs = update c.bufs k (some buf))
    (plain : ∀ e ∈ news, e.2.slot = none) (held : c.bufs k = some old) (same : SameFrame old buf)
    (retries : buf.retriesUsed = old.retriesUsed) : Bears c c' := by
  refine bears_update news trace bufs (fun e member => .inl (plain e member)) ?_
  rintro _ ⟨⟩
  refine .of_same (fun e member => ?_) held same retries
  rw [plain e member]
  exact nofun

theorem bears_claimed (news : History) (trace : c'.trace = news ++ c.trace)
    (bufs : c'.bufs = update c.bufs k (some buf)) (claimed : Claimed k news)
    (plain : ∀ e ∈ news, e.2.slot = none ∨ e.2 = .born k) (retries : buf.retriesUsed = 0) :
    Bears c c' := by
  have slots (e : Nat × Event) (member : e ∈ news) : e.2.slot = none ∨ e.2.slot = some k :=
    (plain e member).imp id fun born => by rw [born]; rfl
  refine bears_update news trace bufs slots ?_
  rintro _ ⟨⟩
  refine .inl ⟨claimed, retries, fun e member => ?_⟩
  obtain ⟨τ, e⟩ := e
  rcases plain _ member with none | born
  · cases e with
    | txSampled t j => cases none
    | _ => rfl
  · obtain rfl : e = .born k := born
    rfl

theorem Calm.bears (move : Calm c c') : Bears c c' := by
  cases move with
  | elapse | peer | governor | measured => exact bears_same [] rfl rfl (by simp)
  | air | opened | forget => exact bears_same [_] rfl rfl (by simp [Event.slot])
  | kick j buf due held state =>
    have same : SameFrame buf { buf with txJiff := due } :=
      ⟨.rfl, fun _ => rfl, fun _ => rfl, fun _ => rfl⟩
    exact bears_kept [_] rfl rfl (by simp [Event.slot]) held same rfl

theorem Micro.bears (inv : Inv c) (move : Micro t c c') : Bears c c' := by
  have moved {buf : AckBuf} {state : BufState} (out : buf.state ≠ .staging)
      (out' : state ≠ .staging) : SameFrame buf { buf with state := state } :=
    ⟨⟨fun h => absurd h out', fun h => absurd h out⟩, fun _ => rfl, fun _ => rfl, fun _ => rfl⟩
  have inflight {buf : AckBuf} (state : buf.state = .inflight) : buf.state ≠ .staging := by
    rw [state]
    decide
  cases move with
  | calm move => exact move.bears
  | sample | accept | due | handOff | reconfig | reject | hear | meet | deliver =>
    exact bears_same [_] rfl rfl (by simp [Event.slot])
  | expire j buf life τ => exact bears_free [_, _] rfl rfl (by simp [Event.slot])
  | stage i j blk cap n1 n2 payload =>
    refine bears_claimed [_, _, _] rfl (update_idem ..) ⟨n1, ?_⟩ ?_ rfl
    · simp
    · simp [Event.slot]
  | append i j buf payload inUse agg held =>
    have staging : buf.state = .staging := (inv.rep.named inUse agg held).1
    have same : SameFrame buf (buf.writeSub (c.peers i).aggLen payload) :=
      ⟨.rfl, fun out => absurd staging out, fun out => absurd staging out,
        fun out => absurd staging out⟩
    exact bears_kept [_] rfl rfl (by simp [Event.slot]) held same rfl
  | launch i j buf p n1 n2 n3 =>
    exact bears_claimed [_, _, _] rfl rfl ⟨n2, by simp⟩ (by simp [Event.slot]) rfl
  | plain i j blk payload n1 n2 =>
    exact bears_claimed [_, _] rfl rfl ⟨n1, by simp⟩ (by simp [Event.slot]) rfl
  | touch j buf τ held state =>
    refine bears_update [_] rfl rfl (by simp [Event.slot]) ?_
    rintro _ ⟨⟩
    refine .inr ⟨?_, buf, held, ⟨.rfl, fun _ => rfl, fun _ => rfl, fun _ => rfl⟩, ?_⟩
    · rintro ⟨σ, member⟩
      simp at member
    · simp [Event.tries]
  | mark j buf τ held state =>
    exact bears_kept [] rfl rfl (by simp) held (moved (inflight state) (by decide)) rfl
  | sentOff j buf held state =>
    exact bears_kept [] rfl rfl (by simp) held
      (moved (not_staging state) (by decide)) rfl
  | release | hold => exact bears_free [_] rfl rfl (by simp [Event.slot])

theorem Reachable.retriesUsed_eq {c : Threads ρ} (h : Reachable c)
    (held : c.body.bufs j = some buf) : buf.retriesUsed = tries j c.body.trace := by
  refine h.moves (J := fun c => ∀ j buf, c.bufs j = some buf → buf.retriesUsed = tries j c.trace)
    ?_ ?_ j buf held
  · rintro cfg n _ j buf ⟨⟩
  · intro t a b inv move counted j buf held
    obtain ⟨news, grown, all⟩ := move.bears inv
    rw [tries, grown]
    rcases all j buf held with ⟨claimed, zero, none⟩ | ⟨unclaimed, old, there, -, retries⟩
    · rw [zero, countSince_claimed claimed none]
    · rw [retries, countSince_append unclaimed, counted j old there, tries]
      omega

def Conveyed (c c' : Core) : Prop :=
  ∃ news, c'.trace = news ++ c.trace ∧ ∀ j buf, c'.bufs j = some buf → Claimed j news ∨
    ∃ old, c.bufs j = some old ∧ SameFrame old buf

theorem Conveyed.refl (c : Core) : Conveyed c c :=
  ⟨[], rfl, fun _ buf held => .inr ⟨buf, held, .refl buf⟩⟩

theorem Conveyed.trans {a b c : Core} (first : Conveyed a b) (second : Conveyed b c) :
    Conveyed a c := by
  obtain ⟨early, grown, all⟩ := first
  obtain ⟨late, further, rest⟩ := second
  refine ⟨late ++ early, by rw [further, grown, List.append_assoc], fun j buf held => ?_⟩
  rcases rest j buf held with ⟨τ, member⟩ | ⟨mid, there, same⟩
  · exact .inl ⟨τ, List.mem_append_left _ member⟩
  · rcases all j mid there with ⟨τ, member⟩ | ⟨old, before, same'⟩
    · exact .inl ⟨τ, List.mem_append_right _ member⟩
    · exact .inr ⟨old, before, same'.trans same⟩

theorem Bears.conveyed (bears : Bears c c') : Conveyed c c' := by
  obtain ⟨news, grown, all⟩ := bears
  refine ⟨news, grown, fun j buf held => ?_⟩
  rcases all j buf held with fresh | ⟨-, old, there, same, -⟩
  · exact .inl fresh.1
  · exact .inr ⟨old, there, same⟩

theorem Chain.conveyed (chain : Chain t c c') (inv : Inv c) : Conveyed c c' := by
  induction chain with
  | refl => exact .refl _
  | tail before move ih => exact ih.trans (move.bears (Chain.inv before inv)).conveyed

abbrev unfired : Frame (Body ρ) := growth (·.fires = false)

theorem hushed_unfired {m : Code ρ α} (around : hushes.Around m) : unfired.Around m :=
  fun t b => (around t b).silent

theorem calm_fires_none (e : Event) (calm : e.calm = true) : e.fires = false := by
  cases e <;> first | rfl | cases calm

theorem plain_fires_none (e : Event) (plain : e.plain = true) : e.fires = false := by
  cases e <;> first | rfl | cases plain

def Faulty (b : Body ρ) : Prop := ∃ e ∈ b.trace, e.2 = .nullDeref

def Allowed (b : Body ρ) (j : BufIx) : Prop :=
  ∃ buf, b.bufs j = some buf ∧ buf.retriesUsed ≤ b.cfg.maxRetries

structure Volley (t : Nat) (q : Option BufIx) (b' : Body ρ) (new : History) : Prop where
  holds : ∀ e ∈ new, ∀ j, e.2 ≠ .sent j
  counts : ∀ e ∈ new, ∀ j, e.2.tries j = true → q = some j ∧ Allowed b' j
  aims : ∀ j, q = some j → (Faulty b' ∨ ∃ buf, Flight t j buf (core b')) ∧
    ∃ e ∈ new, e.2.slot = some j

theorem fires_false {e : Event} (silent : e.fires = false) :
    (∀ j, e ≠ .sent j) ∧ ∀ j, e.tries j = false := by
  cases e with
  | sent j => cases silent
  | txSampled t j => cases silent
  | _ => exact ⟨nofun, fun _ => rfl⟩

theorem Volley.of_unfired (silent : ∀ e ∈ new, e.2.fires = false) : Volley t none b' new where
  holds e member := (fires_false (silent e member)).1
  counts e member j try' := by
    rw [(fires_false (silent e member)).2 j] at try'
    cases try'
  aims := nofun

theorem Volley.append {q : Option BufIx} {early late : History}
    (first : Volley t none b early) (second : Volley t q b' late) :
    Volley t q b' (late ++ early) where
  holds e member := (List.mem_append.mp member).elim (second.holds e) (first.holds e)
  counts e member j try' := by
    rcases List.mem_append.mp member with new | old
    · exact second.counts e new j try'
    · cases (first.counts e old j try').1
  aims j aimed := by
    obtain ⟨flight, e, member, slot⟩ := second.aims j aimed
    exact ⟨flight, e, List.mem_append_left _ member, slot⟩

def volley (t : Nat) : Option BufIx → Body ρ → Option BufIx → Body ρ → Prop
  | none, b, q, b' => ∃ new, b'.trace = new ++ b.trace ∧ Volley t q b' new
  | some j, b, q, b' => q = none ∧ ∃ pmcs, b' = (sendOut j pmcs t b).2

def volleys : Phases (Option BufIx) (Body ρ) where
  idle := none
  rel := volley
  refl _ _ := ⟨[], rfl, .of_unfired (by simp)⟩
  trans := by
    rintro t a b c q ⟨early, grown, first⟩ ⟨late, further, second⟩
    exact ⟨late ++ early, by rw [further, grown, List.append_assoc], first.append second⟩

theorem unfired_quiet {m : Code ρ α} (around : unfired.Around m) (t : Nat) :
    (volleys.quiet t).Around m := by
  intro u b
  obtain ⟨new, grown, silent⟩ := around u b
  exact ⟨new, grown, .of_unfired silent⟩

theorem markSending_volley (grown : b'.trace = new ++ b.trace)
    (holds : ∀ e ∈ new, ∀ k, e.2 ≠ .sent k)
    (counts : ∀ e ∈ new, ∀ k, e.2.tries k = true → k = j ∧ Allowed b' j)
    (claimed : ∃ e ∈ new, e.2.slot = some j) :
    volleys.rel t none b (some j) (markSending j t b').2 := by
  cases held : b'.bufs j with
  | none =>
    have ran : (markSending j t b').2 = (emit .nullDeref t b').2 := by simp [markSending, held]
    rw [ran]
    refine ⟨(Platform.jiffies b'.plat, .nullDeref) :: new, congrArg (List.cons _) grown, ?_, ?_, ?_⟩
    · simpa using fun a b => holds (a, b)
    · intro e member k try'
      rcases List.mem_cons.mp member with rfl | old
      · cases try'
      · obtain ⟨-, buf, here, -⟩ := counts e old k try'
        rw [held] at here
        cases here
    · rintro _ ⟨⟩
      refine ⟨.inl ⟨_, List.mem_cons_self .., rfl⟩, ?_⟩
      obtain ⟨e, member, slot⟩ := claimed
      exact ⟨e, List.mem_cons_of_mem _ member, slot⟩
  | some buf =>
    have ran : (markSending j t b').2 = { b' with
        inflightN := if buf.state = .staging then b'.inflightN + 1 else b'.inflightN
        bufs := update b'.bufs j (some { buf with state := .sending })
        sender := update b'.sender j t } := by
      simp [markSending, held]
    rw [ran]
    refine ⟨new, grown, holds, fun e member k try' => ?_, ?_⟩
    · obtain ⟨rfl, old, there, allowed⟩ := counts e member k try'
      rw [held] at there
      cases there
      exact ⟨rfl, _, update_self .., allowed⟩
    · rintro _ ⟨⟩
      exact ⟨.inr ⟨_, update_self .., rfl, update_self ..⟩, claimed⟩

def Claims (slot : α → Option BufIx) (m : Code ρ α) : Prop :=
  ∀ t b, ∃ new, (m t b).2.trace = new ++ b.trace ∧ (∀ e ∈ new, e.2.fires = false) ∧
    ∀ j, slot (m t b).1 = some j → Claimed j new

namespace Claims

variable {slot : α → Option BufIx} {slot' : β → Option BufIx} {m : Code ρ α}
  {f : α → Code ρ β}

omit [Platform ρ] in
theorem pure {a : α} (none : slot a = none) : Claims slot (Pure.pure a : Code ρ α) := by
  refine fun t b => ⟨[], rfl, by simp, fun j named => ?_⟩
  cases none.symm.trans named

theorem emit (j : BufIx) : Claims (fun _ => some j) (Ack.emit (.born j) : Code ρ Unit) := by
  refine fun t b => ⟨[_], rfl, by simp [Event.fires], ?_⟩
  rintro k ⟨⟩
  exact ⟨_, List.mem_singleton_self _⟩

omit [Platform ρ] in
theorem before (first : unfired.Around m) (rest : ∀ a, Claims slot' (f a)) :
    Claims slot' (m >>= f) := by
  intro t b
  obtain ⟨early, grown, silent⟩ := first t b
  obtain ⟨late, further, silent', claims⟩ := rest (m t b).1 t (m t b).2
  refine ⟨late ++ early, ?_, fun e new => ?_, fun j named => ?_⟩
  · exact further.trans (by rw [grown, List.append_assoc])
  · exact (List.mem_append.mp new).elim (silent' e) (silent e)
  · obtain ⟨τ, member⟩ := claims j named
    exact ⟨τ, List.mem_append_left _ member⟩

omit [Platform ρ] in
theorem after (first : Claims slot m) (rest : ∀ a, unfired.Around (f a))
    (same : ∀ a t b j, slot' (f a t b).1 = some j → slot a = some j) : Claims slot' (m >>= f) := by
  intro t b
  obtain ⟨early, grown, silent, claims⟩ := first t b
  obtain ⟨late, further, silent'⟩ := rest (m t b).1 t (m t b).2
  refine ⟨late ++ early, ?_, fun e new => ?_, fun j named => ?_⟩
  · exact further.trans (by rw [grown, List.append_assoc])
  · exact (List.mem_append.mp new).elim (silent' e) (silent e)
  · obtain ⟨τ, member⟩ := claims j (same _ _ _ j named)
    exact ⟨τ, List.mem_append_right _ member⟩

omit [Platform ρ] in
theorem ite {c : Prop} [Decidable c] {n : Code ρ α} (yes : Claims slot m)
    (no : Claims slot n) : Claims slot (if c then m else n) := by
  split
  · exact yes
  · exact no

theorem aims (claims : Claims slot m) {t : Nat} {b : Body ρ} {j : BufIx}
    (named : slot (m t b).1 = some j) :
    volleys.rel t none b (some j) (markSending j t (m t b).2).2 := by
  obtain ⟨new, grown, silent, claimed⟩ := claims t b
  obtain ⟨τ, member⟩ := claimed j named
  refine markSending_volley grown (fun e new => (fires_false (silent e new)).1) ?_ ⟨_, member, rfl⟩
  intro e new k try'
  rw [(fires_false (silent e new)).2 k] at try'
  cases try'

end Claims

def FlushStart.claimed : FlushStart → Option BufIx
  | .sealed j _ => some j
  | _ => none

theorem aggSeal_claims (i : PeerIx) :
    Claims FlushStart.claimed (aggSeal i : Code ρ FlushStart) := by
  have clock : unfired.Around (nowJ : Code ρ Jiffy) := hushed_unfired nowJ_hushed
  refine .before (.read _) fun agg => ?_
  cases agg with
  | none => exact .pure rfl
  | some j =>
    refine .before (hushed_unfired hushes_lax.vacancy) fun vacancy => .ite (.pure rfl) ?_
    refine .before (.read _) fun inflight => .before (.read _) fun window => .ite (.pure rfl) ?_
    refine .before (.read _) fun p => .before (growth_modifyPeer i _) fun _ => ?_
    refine .before clock fun now => .before (growth_emit rfl) fun _ => .before clock fun born => ?_
    refine .after (.emit j) (fun _ => hushed_unfired ?_) fun _ _ _ k named => named
    refine .bind (modifyPeer_hushed i fun _ => rfl) fun _ => ?_
    refine .bind (hushes_lax.bufWrite j _ _) fun _ => .bind (hushes_lax.modifyBuf j _) fun _ => ?_
    refine .bind (hushes_lax.peerNoteTx i _) fun _ => ?_
    refine .bind (modifyStats_hushed _) fun _ => .bind (.read _) fun data => ?_
    exact .bind (emit_hushed _ rfl rfl) fun _ => .pure _

theorem bufAlloc_claims (state : BufState) (mac : Mac) (cap : Nat) :
    Claims id (bufAlloc state mac cap : Code ρ (Option BufIx)) := by
  refine .before (.read _) fun free => ?_
  cases free with
  | none => exact .pure rfl
  | some j =>
    refine .before (hushed_unfired (platform_hushed (Platform.osMalloc_le _))) fun block => ?_
    cases block with
    | none => exact .before (hushed_unfired (modifyStats_hushed _)) fun _ => .pure rfl
    | some blk =>
      refine .before (hushed_unfired nowJ_hushed) fun now => ?_
      refine .before (growth_modify fun _ => rfl) fun _ => ?_
      exact .after (.emit j) (fun _ => .pure _) fun _ _ _ k named => named

theorem plainClaim_claims (i : PeerIx) (payload : List Byte) (dest : Mac) :
    Claims id (plainClaim i payload dest : Code ρ (Option BufIx)) := by
  refine .before (hushed_unfired hushes_lax.vacancy) fun vacancy => .ite (.pure rfl) ?_
  have claim : Claims id (bufClaimInflight dest payload.length : Code ρ (Option BufIx)) := by
    refine .before (.read _) fun inflight => .before (.read _) fun window => .ite (.pure rfl) ?_
    exact bufAlloc_claims _ _ _
  refine .after claim (fun slot => ?_) fun slot t b j named => ?_
  · cases slot with
    | none => exact .pure _
    | some j =>
      refine .bind (hushed_unfired nowJ_hushed) fun now => .bind (growth_emit rfl) fun _ => ?_
      refine hushed_unfired (.bind (hushes_lax.bufWrite j 0 payload) fun _ => ?_)
      exact .bind (hushes_lax.modifyBuf j _) fun _ => .bind (hushes_lax.peerNoteTx i _) fun _ => .pure _
  · cases slot with
    | none => cases named
    | some k => exact named

def tabled : Frame (Body ρ) where
  rel b b' := b'.bufs = b.bufs ∧ b'.cfg = b.cfg ∧ unfired.rel b b'
  refl b := ⟨rfl, rfl, unfired.refl b⟩
  trans first second := ⟨second.1.trans first.1, second.2.1.trans first.2.1,
    unfired.trans first.2.2 second.2.2⟩

theorem retransmitted_tabled (i : PeerIx) (first : Prop) [Decidable first] : tabled.Around (do
    modifyStats fun st => { st with retransmitted := st.retransmitted + 1 }
    modifyPeer i fun p => { p with retransmitted := p.retransmitted + 1 }
    Sec.when first cwndOnRetransTimeout
    raOnRetrans i
    let mcs ← Sec.read fun b => (b.peers i).txMcs
    pure (some mcs) : Code ρ (Option Byte)) := by
  have kept {f : Body ρ → Body ρ} (same : ∀ b, (f b).bufs = b.bufs ∧ (f b).cfg = b.cfg ∧
      (f b).trace = b.trace) : tabled.Around (Sec.modify f) :=
    fun _ b => ⟨(same b).1, (same b).2.1, [], (same b).2.2, by simp⟩
  have clock : tabled.Around (nowJ : Code ρ Jiffy) := fun _ _ => ⟨rfl, rfl, [], rfl, by simp⟩
  refine .bind (kept fun _ => ⟨rfl, rfl, rfl⟩) fun _ => .bind (kept fun _ => ⟨rfl, rfl, rfl⟩) fun _ => ?_
  refine .bind (.when (kept fun _ => ⟨rfl, rfl, rfl⟩)) fun _ => .bind ?_ fun _ => ?_
  · refine .bind (.bind (.read _) fun _ => .ite (.pure _) (.bind clock fun _ => .pure _)) fun _ => ?_
    exact .when (kept fun _ => ⟨rfl, rfl, rfl⟩)
  · exact .bind (.read _) fun mcs => .pure _

theorem retransmitPrep_cases (j : BufIx) (now : Jiffy) (t : Nat) (b : Body ρ) :
    ((retransmitPrep j now t b).1 = none ∧ unfired.rel b (retransmitPrep j now t b).2) ∨
    ((retransmitPrep j now t b).1 ≠ none ∧ Allowed (retransmitPrep j now t b).2 j ∧
      ∃ τ late, (retransmitPrep j now t b).2.trace = late ++ (τ, .txSampled t j) :: b.trace ∧
        ∀ e ∈ late, e.2.fires = false) := by
  have free : unfired.Around (bufRelease j : Code ρ Unit) :=
    hushed_unfired (bufRelease_hushed j)
  cases held : b.bufs j with
  | none =>
    have ran : retransmitPrep j now t b = (none, (emit .nullDeref t b).2) := by
      simp [retransmitPrep, held]
    rw [ran]
    exact .inl ⟨rfl, growth_emit (P := (·.fires = false)) rfl t b⟩
  | some buf =>
    cases found : peerFind b buf.destMac with
    | none =>
      obtain ⟨m, ran, none, silent⟩ : ∃ m : Code ρ (Option Byte),
          retransmitPrep j now t b = m t b ∧ (m t b).1 = none ∧ unfired.Around m :=
        ⟨do
          emit (.landed j)
          bufRelease j
          pure none, by simp [retransmitPrep, held, found], rfl,
          .bind (growth_emit rfl) fun _ => .bind free fun _ => .pure _⟩
      rw [ran]
      exact .inl ⟨none, silent t b⟩
    | some i =>
      by_cases spent : buf.retriesUsed ≥ b.cfg.maxRetries
      · obtain ⟨m, ran, none, silent⟩ : ∃ m : Code ρ (Option Byte),
            retransmitPrep j now t b = m t b ∧ (m t b).1 = none ∧ unfired.Around m := by
          refine ⟨do
            emit (.landed j)
            bufRelease j
            modifyStats fun st =>
              { st with dropped := st.dropped + 1, dropExhaust := st.dropExhaust + 1 }
            modifyPeer i fun p => { p with dropped := p.dropped + 1 }
            raOnDrop i
            pure none, by simp [retransmitPrep, held, found, spent], rfl, ?_⟩
          refine .bind (growth_emit rfl) fun _ => .bind free fun _ => ?_
          refine .bind (hushed_unfired (modifyStats_hushed _)) fun _ => ?_
          refine .bind (growth_modifyPeer i _) fun _ => ?_
          exact .bind ((raOnDrop_calm i).growth calm_fires_none) fun _ => .pure _
        rw [ran]
        exact .inl ⟨none, silent t b⟩
      · let noted : Body ρ := (emit (.txSampled t j) t (modifyBuf j (fun buf =>
          { buf with retriesUsed := buf.retriesUsed + 1, txJiff := now }) t b).2).2
        have rest := retransmitted_tabled i (buf.retriesUsed = 0) t noted
        have ran : retransmitPrep j now t b = ((do
            modifyStats fun st => { st with retransmitted := st.retransmitted + 1 }
            modifyPeer i fun p => { p with retransmitted := p.retransmitted + 1 }
            Sec.when (buf.retriesUsed = 0) cwndOnRetransTimeout
            raOnRetrans i
            let mcs ← Sec.read fun b => (b.peers i).txMcs
            pure (some mcs) : Code ρ (Option Byte)) t noted) := by
          simp [retransmitPrep, held, found, spent, noted]
        rw [← ran] at rest
        obtain ⟨bufs, cfg, late, grown, silent⟩ := rest
        refine .inr ⟨by rw [ran]; exact Option.some_ne_none _, ?_, _, late, grown, silent⟩
        refine ⟨{ buf with retriesUsed := buf.retriesUsed + 1, txJiff := now }, ?_, ?_⟩
        · rw [bufs]
          simp [noted, emit, modifyBuf, held]
        · rw [cfg]
          exact Nat.lt_of_not_le spent

theorem volley_conduct : Conduct (volleys : Phases (Option BufIx) (Body ρ)) some where
  hushed moved := by
    obtain ⟨new, grown, silent⟩ := moved.silent
    exact ⟨new, grown, .of_unfired silent⟩
  handlers _ := (growth_handlers calm_fires_none plain_fires_none).mono
    fun ⟨new, grown, silent⟩ => ⟨new, grown, .of_unfired silent⟩
  install t c := unfired_quiet (growth_install calm_fires_none plain_fires_none c) t
  launch t i b j pmcs start := (aggSeal_claims i).aims (congrArg FlushStart.claimed start)
  claim t i payload dest b j slot := (plainClaim_claims i payload dest).aims slot
  again t j now b mcs again := by
    rcases retransmitPrep_cases j now t b with ⟨none, -⟩ | ⟨-, allowed, τ, late, grown, silent⟩
    · cases none.symm.trans again
    · have grown' : (retransmitPrep j now t b).2.trace =
          (late ++ [(τ, .txSampled t j)]) ++ b.trace := by
        rw [grown, List.append_assoc]
        rfl
      refine markSending_volley grown' ?_ ?_ ?_
      · intro e member k
        rcases List.mem_append.mp member with late | first
        · exact (fires_false (silent e late)).1 k
        · obtain rfl := List.mem_singleton.mp first
          exact nofun
      · intro e member k try'
        rcases List.mem_append.mp member with late | first
        · rw [(fires_false (silent e late)).2 k] at try'
          cases try'
        · obtain rfl := List.mem_singleton.mp first
          exact ⟨(of_decide_eq_true try').symm, allowed⟩
      · exact ⟨_, List.mem_append_right _ (List.mem_singleton_self _), rfl⟩
  spent t j now b none := by
    rcases retransmitPrep_cases j now t b with ⟨-, new, grown, silent⟩ | ⟨some, -⟩
    · exact ⟨new, grown, .of_unfired silent⟩
    · exact absurd none some
  fire t j pmcs b := ⟨rfl, pmcs, rfl⟩

theorem sendOut_sent (held : b.bufs j = some buf) (pmcs : Byte) (t : Nat) :
    ∃ τ, (sendOut j pmcs t b).2.trace =
      (τ, .txP buf.wire buf.destMac pmcs 0) :: (τ, .sent j) :: b.trace ∧
    (sendOut j pmcs t b).2.bufs = b.bufs ∧ (sendOut j pmcs t b).2.sender = b.sender ∧
    (sendOut j pmcs t b).2.cfg = b.cfg := by
  refine ⟨Platform.jiffies b.plat, ?_⟩
  simp [sendOut, held, halowTx, halowTxP, emit, nowJ, platform, AckBuf.wire]

structure Poised (aim : Nat → Option BufIx) (b : Body ρ) : Prop where
  flights : ∀ t j, aim t = some j → ∃ buf, Flight t j buf (core b)
  bound : ∀ j, sends j b.trace ≤ 1 + tries j b.trace
  aimed : ∀ t j, aim t = some j → sends j b.trace ≤ tries j b.trace
  staged : ∀ j buf, b.bufs j = some buf → buf.state = .staging → sends j b.trace = 0

theorem Poised.fired {aim : Nat → Option BufIx} (poised : Poised aim b) (own : aim t = some j)
    (pmcs : Byte) : Poised (update aim t none) (sendOut j pmcs t b).2 := by
  obtain ⟨buf, held, sending, sender⟩ := poised.flights t j own
  obtain ⟨τ, grown, bufs, senders, -⟩ := sendOut_sent held pmcs t
  have sent (k : BufIx) : sends k (sendOut j pmcs t b).2.trace =
      (if j = k then 1 else 0) + sends k b.trace := by
    simp [grown, sends, countSince, Event.sends]
  have tried (k : BufIx) : tries k (sendOut j pmcs t b).2.trace = tries k b.trace := by
    simp [grown, tries, countSince, Event.tries]
  have other {u : Nat} {k : BufIx} (aimed : update aim t none u = some k) :
      aim u = some k ∧ j ≠ k := by
    by_cases same : u = t
    · rw [same, update_self] at aimed
      cases aimed
    · rw [update_of_ne same] at aimed
      obtain ⟨_, _, _, theirs⟩ := poised.flights u k aimed
      refine ⟨aimed, ?_⟩
      rintro rfl
      exact same (theirs.symm.trans sender)
  refine ⟨fun u k aimed => ?_, fun k => ?_, fun u k aimed => ?_, fun k x there staging => ?_⟩
  · obtain ⟨x, flight⟩ := poised.flights u k (other aimed).1
    refine ⟨x, ?_⟩
    simpa only [Flight, core, bufs, senders] using flight
  · rw [sent, tried]
    split
    next same =>
      have left := poised.aimed t j own
      subst same
      omega
    next => simpa using poised.bound k
  · rw [sent, tried, if_neg (other aimed).2, Nat.zero_add]
    exact poised.aimed u k (other aimed).1
  · rw [bufs] at there
    rw [sent, if_neg, poised.staged k x there staging]
    rintro rfl
    obtain rfl : x = buf := Option.some.inj (there.symm.trans held)
    exact not_staging sending staging

theorem Volley.unsent {q : Option BufIx} (volley : Volley t q b new) (j : BufIx) :
    ∀ e ∈ new, e.2.sends j = false := by
  rintro ⟨τ, e⟩ member
  have never := volley.holds _ member
  cases e with
  | sent k => exact absurd rfl (never k)
  | _ => rfl

theorem Poised.volleyed {aim : Nat → Option BufIx} (poised : Poised aim b) {q : Option BufIx}
    (inv : Inv (core b)) (chain : Chain t (core b) (core b')) (grown : b'.trace = new ++ b.trace)
    (volley : Volley t q b' new) : Poised (update aim t q) b' := by
  have inv' : Inv (core b') := chain.inv inv
  have zero {j : BufIx} (claimed : Claimed j new) : sends j b'.trace = 0 := by
    rw [grown]
    exact countSince_claimed claimed (volley.unsent j)
  have same {j : BufIx} (unclaimed : ¬ Claimed j new) : sends j b'.trace = sends j b.trace := by
    rw [grown]
    exact countSince_none unclaimed (volley.unsent j)
  have more {j : BufIx} (unclaimed : ¬ Claimed j new) : tries j b.trace ≤ tries j b'.trace := by
    rw [grown]
    exact countSince_le unclaimed
  refine ⟨fun u j aimed => ?_, fun j => ?_, fun u j aimed => ?_, fun j buf held staging => ?_⟩
  · by_cases own : u = t
    · subst own
      rw [update_self] at aimed
      rcases (volley.aims j aimed).1 with ⟨e, member, fault⟩ | flight
      · exact absurd fault (inv'.faultless e member).1
      · exact flight
    · rw [update_of_ne own] at aimed
      obtain ⟨buf, flight⟩ := poised.flights u j aimed
      exact ⟨buf, Chain.kept (flight_keeps u j buf) (Ne.symm own) inv chain flight⟩
  · by_cases claimed : Claimed j new
    · rw [zero claimed]
      exact Nat.zero_le _
    · have before := poised.bound j
      have less := more claimed
      rw [same claimed]
      omega
  · by_cases claimed : Claimed j new
    · rw [zero claimed]
      exact Nat.zero_le _
    rw [same claimed]
    by_cases own : u = t
    · subst own
      rw [update_self] at aimed
      obtain ⟨-, ⟨τ, e⟩, member, slot⟩ := volley.aims j aimed
      have counted : e.tries j = true := by
        cases e with
        | born k =>
          cases slot
          exact absurd ⟨τ, member⟩ claimed
        | txSampled v k =>
          cases slot
          exact decide_eq_true rfl
        | _ => cases slot
      have before := poised.bound j
      have further : tries j b.trace < tries j b'.trace := by
        rw [grown]
        exact countSince_lt claimed member counted
      omega
    · rw [update_of_ne own] at aimed
      exact Nat.le_trans (poised.aimed u j aimed) (more claimed)
  · obtain ⟨news, grown', all⟩ := chain.conveyed inv
    obtain rfl : news = new := List.append_cancel_right (grown'.symm.trans grown)
    rcases all j buf held with claimed | ⟨old, there, frame⟩
    · exact zero claimed
    · by_cases claimed : Claimed j news
      · exact zero claimed
      · rw [same claimed]
        exact poised.staged j old there (frame.staged.mp staging)

theorem Reachable.block_chain {c : Threads ρ} (h : Reachable c) {w : Pending (Node ρ) Result}
    (waiting : c.threads t = some w)
    (ok : w.ready ((lockedMachine drift).enter t c.shared) = true) : Chain t (core c.body)
      (core (c.resumed t (w.resume ((lockedMachine drift).enter t c.shared))).shared.body) := by
  have own : Pool.Local (ackDiscipline (ρ := ρ)).locked c.shared t (some w) := waiting ▸ h.good.2 t
  have safe := (own c.shared .refl h.good.1 ok).prepend
    ((ackDiscipline (ρ := ρ)).locked.act_enter t c.shared)
  exact (h.good.resumed safe).2

theorem Reachable.poised {c : Threads ρ} (h : Reachable c) :
    ∃ aim, Pool.Attends volleys c aim ∧ Poised aim c.body := by
  refine Pool.Reachable.phased ?_ ?_ ?_ ?_ h
  · rintro t p ⟨call, rfl, -⟩
    exact volley_conduct.call call
  · rintro _ ⟨stored, r, rfl⟩
    obtain ⟨n, eq⟩ := boot_core stored r
    have trace : (boot stored r).body.trace = [(n, .windowed (configClamp stored).window)] :=
      congrArg Core.trace eq
    have bufs : (boot stored r).body.bufs = fun _ => none := congrArg Core.bufs eq
    refine ⟨nofun, fun j => ?_, nofun, fun j buf held => ?_⟩
    · rw [trace]
      exact Nat.zero_le _
    · rw [bufs] at held
      cases held
  · intro c t w aim q b reach waiting ok eq moved poised
    have reach : Reachable c := reach
    have chain := reach.block_chain waiting ok
    rw [eq] at chain
    change volley t (aim t) c.shared.body q b at moved
    cases own : aim t with
    | none =>
      rw [own] at moved
      obtain ⟨new, grown, volley⟩ := moved
      exact poised.volleyed reach.inv chain grown volley
    | some j =>
      rw [own] at moved
      obtain ⟨rfl, pmcs, rfl⟩ := moved
      exact poised.fired own pmcs
  · rintro aim b _ ⟨r, later, rfl⟩ poised
    exact ⟨poised.flights, poised.bound, poised.aimed, poised.staged⟩

inductive Turn (c c' : Threads ρ) : Prop
  | still : c'.body.bufs = c.body.bufs →
      c'.body.trace = c.body.trace → Turn c c'
  | fires (t : Nat) (j : BufIx) (out : AckBuf) (pmcs : Byte) :
      Flight t j out (core c.body) →
      c'.body = (sendOut j pmcs t c.body).2 → Turn c c'
  | volleys (t : Nat) (q : Option BufIx) (new : History) :
      c'.body.trace = new ++ c.body.trace → Volley t q c'.body new →
      Conveyed (core c.body) (core c'.body) → Turn c c'

theorem Reachable.turn {c c' : Threads ρ} (h : Reachable c)
    (step : Pool.Step (lockedMachine drift) allowed c c') : Turn c c' := by
  cases step with
  | call t p may idle => exact .still rfl rfl
  | drift s drifted =>
    obtain ⟨_, ⟨r, later, rfl⟩, rfl⟩ := drifted
    exact .still rfl rfl
  | resume t w waiting ok =>
    obtain ⟨aim, attends, poised⟩ := h.poised
    obtain ⟨q, moved, -⟩ := attends.resumed waiting ok
    change volley t (aim t) _ q _ at moved
    cases own : aim t with
    | none =>
      rw [own] at moved
      obtain ⟨new, grown, volley⟩ := moved
      exact .volleys t q new grown volley ((h.block_chain waiting ok).conveyed h.inv)
    | some j =>
      rw [own] at moved
      obtain ⟨-, pmcs, eq⟩ := moved
      obtain ⟨out, flight⟩ := poised.flights t j own
      exact .fires t j out pmcs flight eq

inductive Tenure (j : BufIx) (M : Nat) : Threads ρ → Prop
  | free {c : Threads ρ} : Reachable c → c.body.bufs j = none →
      c.body.cfg.maxRetries ≤ M → Tenure j M c
  | step {c c' : Threads ρ} : Tenure j M c → Pool.Step (lockedMachine drift) allowed c c' →
      c'.body.cfg.maxRetries ≤ M → Tenure j M c'

structure Transmits (j : BufIx) (out : AckBuf) (c c' : Threads ρ) : Prop where
  before : c.body.bufs j = some out
  sending : out.state = .sending
  after : c'.body.bufs j = some out
  passed : ∃ τ mcs, c'.body.trace =
    (τ, .txP out.wire out.destMac mcs 0) :: (τ, .sent j) :: c.body.trace

namespace Tenure

variable {j : BufIx} {M : Nat} {c : Threads ρ}

theorem reachable (tenure : Tenure j M c) : Reachable c := by
  induction tenure with
  | free reach => exact reach
  | step _ move _ ih => exact Pool.Reachable.step ih move

theorem clamped (tenure : Tenure j M c) : Tenure j (min M 8) c := by
  have clamp {c : Threads ρ} (reach : Reachable c) : c.body.cfg.maxRetries ≤ 8 :=
    reach.inv.clamped.maxRetries_le
  induction tenure with
  | free reach free most => exact .free reach free (Nat.le_min.mpr ⟨most, clamp reach⟩)
  | step before move most ih =>
    exact ih.step move (Nat.le_min.mpr ⟨most, clamp (before.step move most).reachable⟩)

theorem tries_le (tenure : Tenure j M c) {buf : AckBuf} (held : c.body.bufs j = some buf) :
    tries j c.body.trace ≤ M := by
  induction tenure generalizing buf with
  | free reach free most => cases free.symm.trans held
  | step before move most ih =>
    have reach' : Reachable _ := Pool.Reachable.step before.reachable move
    have counted := reach'.retriesUsed_eq held
    cases before.reachable.turn move with
    | still bufs trace =>
      rw [bufs] at held
      rw [trace]
      exact ih held
    | fires t k out pmcs flight eq =>
      obtain ⟨τ, grown, bufs, -⟩ := sendOut_sent flight.1 pmcs t
      rw [eq, bufs] at held
      have same := ih held
      simpa [eq, grown, tries, countSince, Event.tries] using same
    | volleys t q new grown volley conveyed =>
      by_cases tried : ∃ e ∈ new, e.2.tries j = true
      · obtain ⟨e, member, hit⟩ := tried
        obtain ⟨-, buf', there, allowed⟩ := volley.counts e member j hit
        obtain rfl : buf' = buf := Option.some.inj (there.symm.trans held)
        rw [← counted]
        exact Nat.le_trans allowed most
      have untried (e : Nat × Event) (member : e ∈ new) : e.2.tries j = false :=
        Bool.eq_false_iff.mpr fun hit => tried ⟨e, member, hit⟩
      rw [tries, grown]
      by_cases claimed : Claimed j new
      · rw [countSince_claimed claimed untried]
        exact Nat.zero_le _
      · obtain ⟨news, grown', all⟩ := conveyed
        obtain rfl : news = new := List.append_cancel_right (grown'.symm.trans grown)
        rw [countSince_none claimed untried]
        rcases all j buf held with again | ⟨old, there, -⟩
        · exact absurd again claimed
        · exact ih there

end Tenure

theorem ReachableBy.tenure {ok : Call → Prop} {M : Nat} {c : Threads ρ}
    (each : ∀ cfg, ok (.configApply cfg) → (configClamp cfg).maxRetries ≤ M) (h : ReachableBy ok c)
    (j : BufIx) : Tenure j M c := by
  have most {c : Threads ρ} (h : ReachableBy ok c) : c.body.cfg.maxRetries ≤ M := by
    refine h.keeps (J := fun b => b.cfg.maxRetries ≤ M) (fun stored r => each stored) ?_
    intro b b' stroke before
    rcases stroke.cfg with same | ⟨cfg, allowed, new⟩
    · exact same ▸ before
    · exact new ▸ each cfg allowed
  induction h with
  | start s first =>
    have reach : ReachableBy ok ⟨s, fun _ => none⟩ := .start s first
    refine .free reach.reachable ?_ (most reach)
    obtain ⟨stored, r, -, rfl⟩ := first
    exact boot_bufs stored r j
  | step before move ih =>
    exact ih.step (move.mono fun _ _ => allowedBy.allowed) (most (Pool.Reachable.step before move))

theorem Reachable.transmits {c c' : Threads ρ} (h : Reachable c)
    (step : Pool.Step (lockedMachine drift) allowed c c') {τ : Nat}
    (grown : c'.body.trace = news ++ c.body.trace) (sent : (τ, .sent j) ∈ news) :
    ∃ out, Transmits j out c c' := by
  cases h.turn step with
  | still bufs trace =>
    obtain rfl : news = [] := List.append_left_eq_self.mp (grown.symm.trans trace)
    cases sent
  | volleys t q new grown' volley conveyed =>
    obtain rfl : news = new := List.append_cancel_right (grown.symm.trans grown')
    exact absurd rfl (volley.holds _ sent j)
  | fires t k out pmcs flight eq =>
    obtain ⟨there, sending, -⟩ := flight
    obtain ⟨σ, grown', bufs, -⟩ := sendOut_sent there pmcs t
    rw [← eq] at grown' bufs
    have both : news = [(σ, .txP out.wire out.destMac pmcs 0), (σ, .sent k)] :=
      List.append_cancel_right (grown.symm.trans grown')
    have named : τ = σ ∧ j = k := by
      rw [both] at sent
      simpa using sent
    obtain ⟨-, rfl⟩ := named
    exact ⟨out, there, sending, (congrFun bufs j).trans there, σ, pmcs, grown'⟩

theorem Reachable.run_conveyed {c d : Threads ρ} (h : Reachable c)
    (run : Relation.ReflTransGen (Pool.Step (lockedMachine drift) allowed) c d) :
    Reachable d ∧ Conveyed (core c.body) (core d.body) := by
  induction run with
  | refl => exact ⟨h, .refl _⟩
  | tail _ move ih =>
    obtain ⟨reach, conveyed⟩ := ih
    obtain ⟨t, chain⟩ := Reachable.step_chain reach move
    exact ⟨Pool.Reachable.step reach move, conveyed.trans (chain.conveyed reach.inv)⟩

-- The first transmission, and then one for each retry that was allowed since.
theorem retransmission_bounded (j : BufIx) (M : Nat) (c : Threads ρ) (tenure : Tenure j M c)
    (buf : AckBuf) (held : c.body.bufs j = some buf) :
    sends j c.body.trace ≤ 1 + min M 8 ∧
    (buf.state = .staging → sends j c.body.trace = 0) ∧
    ∀ d d' : Threads ρ, Relation.ReflTransGen (Pool.Step (lockedMachine drift) allowed) c d →
      Pool.Step (lockedMachine drift) allowed d d' → ∀ news τ,
      d'.body.trace = news ++ d.body.trace → (τ, .sent j) ∈ news →
      ∃ out, Transmits j out d d' ∧ ∀ since, d.body.trace = since ++ c.body.trace →
        ¬ Claimed j since → buf.state ≠ .staging →
        out.wire = buf.wire ∧ out.seq = buf.seq ∧ out.destMac = buf.destMac := by
  have reach := tenure.reachable
  obtain ⟨aim, -, poised⟩ := reach.poised
  refine ⟨?_, poised.staged j buf held, fun d d' run step news τ grown sent => ?_⟩
  · have bound := poised.bound j
    have most := tenure.clamped.tries_le held
    omega
  · obtain ⟨reach', since', grown', all⟩ := reach.run_conveyed run
    obtain ⟨out, transmits⟩ := reach'.transmits step grown sent
    refine ⟨out, transmits, fun since eq unclaimed launched => ?_⟩
    obtain rfl : since' = since := List.append_cancel_right (grown'.symm.trans eq)
    rcases all j out transmits.before with claimed | ⟨old, there, frame⟩
    · exact absurd claimed unclaimed
    · obtain rfl : old = buf := Option.some.inj (there.symm.trans held)
      exact ⟨frame.wire launched, frame.seq launched, frame.dest launched⟩

def neverAnswered : List (Move Board) :=
  .start 1 (.tx [7] remoteMac) :: List.replicate 3 (.resume 1) ++
    .start 1 .flush :: List.replicate 5 (.resume 1) ++
    ([260, 510, 1010].map fun ms => pause ms :: .start 0 .tick :: List.replicate 5 (.resume 0)).flatten

theorem retransmission_bounded_neverAnswered : ∃ (c : Threads Board) (buf : AckBuf),
    playAll neverAnswered quietNode = some c ∧
      c.body.bufs 0 = some buf ∧ Tenure 0 3 c ∧
      sends 0 c.body.trace = 4 ∧ sends 0 c.body.trace ≤ 1 + min 3 8 := by
  have run : ∃ c ∈ playAll neverAnswered quietNode,
      (c.body.bufs 0).isSome ∧ sends 0 c.body.trace = 4 := by
    decide +kernel
  obtain ⟨c, eq, some, four⟩ := run
  obtain ⟨buf, held⟩ := Option.isSome_iff_exists.mp some
  let ok (call : Call) : Prop := ∀ cfg, call = .configApply cfg → cfg = halowAckConfigSetDefault
  have begun : ReachableBy ok quietNode :=
    .start _ ⟨halowAckConfigSetDefault, .quiet 7 8, fun _ eq => by cases eq; rfl, rfl⟩
  have reach : ReachableBy ok c := by
    refine playAll_steps (fun m mem => ?_) begun eq
    cases m with
    | start t call =>
      refine fun ticks => ⟨call, fun cfg eq => ?_, rfl, ticks⟩
      subst eq
      simp [neverAnswered, pause] at mem
    | resume t | wait f => trivial
  have tenure : Tenure 0 3 c := reach.tenure (fun cfg allowed => by rw [allowed cfg rfl]; decide) 0
  exact ⟨c, buf, eq, held, tenure, four, (retransmission_bounded 0 3 c tenure buf held).1⟩

end RnodeHalow.Ack
