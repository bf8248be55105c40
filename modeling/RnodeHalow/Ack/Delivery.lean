import RnodeHalow.Ack.Hearing
import RnodeHalow.Ack.Obligation

set_option autoImplicit false

namespace RnodeHalow.Ack

open Resumption Serial
open Function (update update_of_ne update_self)

variable {ρ : Type} [Platform ρ]

def Copied (mac : Mac) (q : List Byte) (trace : History) : Prop :=
  ∃ τ t found retrans, (τ, .heard t mac found q retrans) ∈ trace

def newest (number : Numbering) (mac : Mac) : History → Option Int
  | [] => none
  | (_, .heard _ src _ payload _) :: older =>
    if src = mac then
      some ((newest number mac older).elim (number payload older) (max · (number payload older)))
    else newest number mac older
  | _ :: older => newest number mac older

def Within (number : Numbering) (mac : Mac) : History → Prop
  | [] => True
  | (_, .heard _ src _ payload _) :: older =>
    Within number mac older ∧
      (src = mac → le16 payload 3 = BitVec.ofInt 16 (number payload older) ∧
        ∀ m, newest number mac older = some m →
          m < number payload older + 64 ∧ number payload older < m + 64)
  | _ :: older => Within number mac older

-- A copy was let pass unrecorded (no entry, or 32 and more behind), or the window was given up.
def Lost (number : Numbering) (mac : Mac) (q : List Byte) : History → Prop
  | [] => False
  | (_, .heard _ src found payload retrans) :: older =>
    Lost number mac q older ∨
      (src = mac ∧ payload = q ∧ retrans = false ∧
        (found = none ∨
          ∃ last, windowLast number mac older = some last ∧ number q older + 32 ≤ last))
  | (_, .opened i _) :: older =>
    Lost number mac q older ∨ (holder i older = some mac ∧ Copied mac q older)
  | (_, .forgot _ who) :: older => Lost number mac q older ∨ (who = mac ∧ Copied mac q older)
  | _ :: older => Lost number mac q older

def Remembered (number : Numbering) (mac : Mac) (q : List Byte) : History → Prop
  | [] => True
  | (_, .heard _ src _ payload _) :: older =>
    Remembered number mac q older ∧ (src = mac → payload = q → ¬ Lost number mac q older)
  | _ :: older => Remembered number mac q older

def passed (mac : Mac) (q : List Byte) : History → Nat
  | [] => 0
  | (_, .heard _ src _ payload retrans) :: older =>
    (if src = mac ∧ payload = q ∧ retrans = false then 1 else 0) + passed mac q older
  | _ :: older => passed mac q older

def deliveries (mac : Mac) (q : List Byte) : History → Nat
  | [] => 0
  | (_, .delivered _ src payload) :: older =>
    (if src = mac ∧ payload = q then 1 else 0) + deliveries mac q older
  | _ :: older => deliveries mac q older

section History

variable {number : Numbering} {mac : Mac} {q : List Byte}

theorem within_newest {trace : History} (within : Within number mac trace) {last : Int}
    (stands : windowLast number mac trace = some last) :
    ∃ m, newest number mac trace = some m ∧ last ≤ m ∧ m < last + 64 := by
  induction trace generalizing last with
  | nil => cases stands
  | cons e older ih =>
    obtain ⟨τ, e⟩ := e
    cases e with
    | heard t src found payload retrans =>
      by_cases mine : src = mac
      · rw [windowLast, if_pos mine] at stands
        rw [newest, if_pos mine]
        refine ⟨_, rfl, ?_⟩
        obtain ⟨_, _, rfl⟩ := Option.map_eq_some_iff.mp stands
        have near := (within.2 mine).2
        cases before : windowLast number mac older with
        | none =>
          cases top : newest number mac older with
          | none => simp [nextLast]
          | some m =>
            have := near m top
            simp only [nextLast, Option.elim_some]
            omega
        | some old =>
          obtain ⟨m, top, le, lt⟩ := ih within.1 before
          have := near m top
          simp only [nextLast, top, Option.elim_some]
          split <;> omega
      · rw [windowLast, if_neg mine] at stands
        rw [newest, if_neg mine]
        exact ih within.1 stands
    | opened | forgot =>
      rw [windowLast] at stands
      split at stands
      · cases stands
      · exact ih within stands
    | _ => exact ih within stands

theorem within_last {older : History} (payload : List Byte) (within : Within number mac older)
    (near : ∀ m, newest number mac older = some m →
      m < number payload older + 64 ∧ number payload older < m + 64) {last : Int}
    (stands : windowLast number mac older = some last) :
    last < number payload older + 64 ∧ Close last (number payload older) := by
  obtain ⟨m, top, le, lt⟩ := within_newest within stands
  have := near m top
  refine ⟨by omega, ?_⟩
  unfold Close
  omega

theorem Within.legible {trace : History} (within : Within number mac trace) :
    Legible number mac trace := by
  induction trace with
  | nil => trivial
  | cons e older ih =>
    obtain ⟨τ, e⟩ := e
    cases e with
    | heard t src found payload retrans =>
      refine ⟨ih within.1, fun mine => ⟨(within.2 mine).1, fun last stands => ?_⟩⟩
      exact (within_last _ within.1 (within.2 mine).2 stands).2
    | _ => exact ih within

theorem Copied.cons {trace : History} (copied : Copied mac q trace) (e : Nat × Event) :
    Copied mac q (e :: trace) := by
  obtain ⟨τ, t, found, retrans, member⟩ := copied
  exact ⟨τ, t, found, retrans, List.mem_cons_of_mem _ member⟩

theorem copied_of_passed {trace : History} (pos : passed mac q trace ≠ 0) : Copied mac q trace := by
  induction trace with
  | nil => exact absurd rfl pos
  | cons e older ih =>
    obtain ⟨τ, e⟩ := e
    cases e with
    | heard t src found payload retrans =>
      by_cases hit : src = mac ∧ payload = q ∧ retrans = false
      · obtain ⟨rfl, rfl, rfl⟩ := hit
        exact ⟨τ, t, found, false, List.mem_cons_self ..⟩
      · rw [passed, if_neg hit, Nat.zero_add] at pos
        exact (ih pos).cons _
    | _ => exact (ih pos).cons _

def Vouched (mac : Mac) (q : List Byte) : History → Prop
  | [] => True
  | (_, .delivered t src payload) :: older =>
    Vouched mac q older ∧ (src = mac → payload = q → cleared t mac q older = true)
  | _ :: older => Vouched mac q older

theorem vouched_traffic (mac : Mac) (env : isEnvFrame q = true) :
    Traffic fun _ trace => Vouched mac q trace where
  same _ h := h
  aside := by
    intro _ _ _ e aside h
    cases e <;> first | exact h | cases aside
  opened _ _ _ _ _ _ _ h := h
  forgot _ _ _ _ h := h
  flushed _ _ _ _ _ _ h := h
  heard _ _ _ _ _ _ _ h := h
  met _ _ _ _ _ h := h
  delivered := by
    rintro _ trace τ t src payload vouched h
    refine ⟨h, ?_⟩
    rintro rfl rfl
    exact vouched env

structure Spent (mac : Mac) (q : List Byte) (trace : History) : Prop where
  le : deliveries mac q trace ≤ passed mac q trace
  lt : ∀ t, cleared t mac q trace = true → deliveries mac q trace < passed mac q trace
  sole : ∀ t u, cleared t mac q trace = true → cleared u mac q trace = true → t = u

theorem Spent.heard {older : History} (before : Spent mac q older) {τ t : Nat} {src : Mac}
    {found : Option PeerIx} {payload : List Byte} {retrans : Bool}
    (once : passed mac q ((τ, .heard t src found payload retrans) :: older) ≤ 1) :
    Spent mac q ((τ, .heard t src found payload retrans) :: older) := by
  have keeps (u : Nat)
      (now : cleared u mac q ((τ, .heard t src found payload retrans) :: older) = true) :
      (src = mac ∧ payload = q ∧ retrans = false ∧ u = t) ∨ cleared u mac q older = true := by
    rw [cleared] at now
    split at now
    · rename_i hit
      exact .inl ⟨hit.2.1, hit.2.2, by simpa using now, hit.1.symm⟩
    · exact .inr now
  by_cases pass : src = mac ∧ payload = q ∧ retrans = false
  · -- the only time that it passes: nothing was delivered yet, and nobody had it cleared
    simp only [passed, if_pos pass] at once
    have none (u : Nat) : cleared u mac q older ≠ true := fun yes => by
      have := before.lt u yes
      omega
    have le := before.le
    refine ⟨?_, fun u _ => ?_, fun u v now now' => ?_⟩
    · simp only [deliveries, passed, if_pos pass]
      omega
    · simp only [deliveries, passed, if_pos pass]
      omega
    · have first := (keeps u now).resolve_right (none u)
      have second := (keeps v now').resolve_right (none v)
      exact first.2.2.2.trans second.2.2.2.symm
  · have old (u : Nat) (now) : cleared u mac q older = true :=
      (keeps u now).resolve_left fun hit => pass ⟨hit.1, hit.2.1, hit.2.2.1⟩
    refine ⟨?_, fun u now => ?_, fun u v now now' => before.sole u v (old u now) (old v now')⟩
    · simpa only [deliveries, passed, if_neg pass, Nat.zero_add] using before.le
    · simpa only [deliveries, passed, if_neg pass, Nat.zero_add] using before.lt u (old u now)

theorem Spent.delivered {older : History} (before : Spent mac q older) {τ t : Nat} {src : Mac}
    {payload : List Byte} (vouched : src = mac → payload = q → cleared t mac q older = true) :
    Spent mac q ((τ, .delivered t src payload) :: older) := by
  by_cases hit : src = mac ∧ payload = q
  · have had := vouched hit.1 hit.2
    have none (u : Nat) : cleared u mac q ((τ, .delivered t src payload) :: older) ≠ true := by
      rw [cleared]
      split
      · simp
      · rename_i other
        intro yes
        exact other ⟨before.sole t u had yes, hit⟩
    refine ⟨?_, fun u now => absurd now (none u), fun u _ now => absurd now (none u)⟩
    have less := before.lt t had
    simp only [deliveries, passed, if_pos hit]
    omega
  · have old (u : Nat) (now : cleared u mac q ((τ, .delivered t src payload) :: older) = true) :
        cleared u mac q older = true := by
      rw [cleared, if_neg fun both => hit both.2] at now
      exact now
    refine ⟨?_, fun u now => ?_, fun u v now now' => before.sole u v (old u now) (old v now')⟩
    · simpa only [deliveries, passed, if_neg hit, Nat.zero_add] using before.le
    · simpa only [deliveries, passed, if_neg hit, Nat.zero_add] using before.lt u (old u now)

theorem spent_of_once {trace : History} (vouched : Vouched mac q trace)
    (once : passed mac q trace ≤ 1) : Spent mac q trace := by
  induction trace with
  | nil => exact ⟨Nat.le_refl 0, by rintro t ⟨⟩, by rintro t u ⟨⟩⟩
  | cons e older ih =>
    obtain ⟨τ, e⟩ := e
    cases e with
    | heard t src found payload retrans =>
      exact (ih vouched (Nat.le_trans (Nat.le_add_left ..) once)).heard once
    | delivered t src payload => exact (ih vouched.1 once).delivered vouched.2
    | _ => exact ⟨(ih vouched once).le, (ih vouched once).lt, (ih vouched once).sole⟩

end History

structure Guard (num : List Byte → Int) (mac : Mac) (q : List Byte) (ps : PeerIx → AckPeer)
    (trace : History) : Prop where
  marked : Copied mac q trace → ¬ Lost (fun p _ => num p) mac q trace →
    ∃ last, windowLast (fun p _ => num p) mac trace = some last ∧
      ∀ i, (ps i).inUse = true → (ps i).mac = mac → Marks (ps i) last (num q)
  once : passed mac q trace ≤ 1

section Guard

variable {num : List Byte → Int} {mac : Mac} {q : List Byte} {ps qs : PeerIx → AckPeer}
  {trace trace' : History}

theorem Marks.congr {p p' : AckPeer} (same : p'.rxWindow = p.rxWindow) {last m : Int}
    (marks : Marks p last m) : Marks p' last m := by
  have win : p'.rxSeqWin = p.rxSeqWin := congrArg RxWindow.rxSeqWin same
  exact ⟨marks.1, by rw [win]; exact marks.2⟩

theorem Guard.keep (guard : Guard num mac q ps trace)
    (copied : Copied mac q trace' → Copied mac q trace)
    (lost : Lost (fun p _ => num p) mac q trace → Lost (fun p _ => num p) mac q trace')
    (window : windowLast (fun p _ => num p) mac trace' = windowLast (fun p _ => num p) mac trace)
    (same : passed mac q trace' = passed mac q trace)
    (entries : ∀ i, (qs i).inUse = true → (qs i).mac = mac →
      (ps i).inUse = true ∧ (ps i).mac = mac ∧ (qs i).rxWindow = (ps i).rxWindow) :
    Guard num mac q qs trace' where
  marked copies found := by
    obtain ⟨last, stands, marks⟩ := guard.marked (copied copies) fun gone => found (lost gone)
    refine ⟨last, window.trans stands, fun i used named => ?_⟩
    obtain ⟨was, mine, rx⟩ := entries i used named
    exact (marks i was mine).congr rx
  once := by rw [same]; exact guard.once

theorem Guard.recognised (guard : Guard num mac q ps trace)
    (mirror : Mirror (fun p _ => num p) mac ps trace) (within : Within (fun p _ => num p) mac trace)
    (near : ∀ m, newest (fun p _ => num p) mac trace = some m → m < num q + 64 ∧ num q < m + 64)
    (copied : Copied mac q trace) (found : ¬ Lost (fun p _ => num p) mac q trace) :
    ∃ last, windowLast (fun p _ => num p) mac trace = some last ∧
      ∀ i, (ps i).inUse = true → (ps i).mac = mac →
        seqRetrans (ps i) (BitVec.ofInt 16 (num q)) = true := by
  obtain ⟨last, stands, marks⟩ := guard.marked copied found
  refine ⟨last, stands, fun i used named => ?_⟩
  obtain ⟨recent, close⟩ := within_last q within near stands
  have follows := mirror.follows i used named
  rw [stands] at follows
  have marked := marks i used named
  exact (seqRetrans_iff follows.1 follows.2.1 close).mpr ⟨marked.1, recent, marked.2 recent⟩

theorem copied_heard_iff {τ t : Nat} {src : Mac} {found : Option PeerIx} {payload : List Byte}
    {retrans : Bool} :
    Copied mac q ((τ, .heard t src found payload retrans) :: trace) ↔
      (src = mac ∧ payload = q) ∨ Copied mac q trace := by
  constructor
  · rintro ⟨τ', t', found', retrans', member⟩
    rcases List.mem_cons.mp member with new | old
    · cases new
      exact .inl ⟨rfl, rfl⟩
    · exact .inr ⟨τ', t', found', retrans', old⟩
  · rintro (⟨rfl, rfl⟩ | copied)
    · exact ⟨τ, t, found, retrans, List.mem_cons_self ..⟩
    · exact copied.cons _

theorem copied_other {τ : Nat} {e : Event}
    (other : ∀ t found retrans, e ≠ .heard t mac found q retrans)
    (copied : Copied mac q ((τ, e) :: trace)) : Copied mac q trace := by
  obtain ⟨τ', t, found, retrans, member⟩ := copied
  rcases List.mem_cons.mp member with new | old
  · cases new
    exact absurd rfl (other t found retrans)
  · exact ⟨τ', t, found, retrans, old⟩

theorem Guard.heard (guard : Guard num mac q ps trace)
    (mirror : Mirror (fun p _ => num p) mac ps trace) (distinct : Distinct ps) {i : PeerIx}
    (inUse : (ps i).inUse = true) (mine : (ps i).mac = mac) {payload : List Byte} {τ t : Nat}
    {undefinedShl : Nat → BitVec 32}
    (within : Within (fun p _ => num p) mac trace)
    (carries : le16 payload 3 = BitVec.ofInt 16 (num payload))
    (near : ∀ m, newest (fun p _ => num p) mac trace = some m →
      m < num payload + 64 ∧ num payload < m + 64)
    (kept : payload = q → ¬ Lost (fun p _ => num p) mac q trace) :
    Guard num mac q
      (update ps i (peerRxSeq undefinedShl (ps i) (le16 payload 3)))
      ((τ, .heard t (ps i).mac (some i) payload (seqRetrans (ps i) (le16 payload 3))) ::
        trace) where
  marked copies found := by
    have place := peerRxSeq_place undefinedShl (ps i) (le16 payload 3)
    refine ⟨_, by rw [windowLast, if_pos mine]; rfl, fun k used named => ?_⟩
    have here : k = i := by
      by_contra other
      rw [update_of_ne other] at used named
      exact other (distinct k i used inUse (named.trans mine.symm))
    subst here
    rw [update_self, carries]
    have follows := mirror.follows k inUse mine
    have place {last : Int} (stands : windowLast (fun p _ => num p) mac trace = some last) :=
      within_last payload within near stands
    by_cases same : payload = q
    · subst same
      refine Marks.own follows (fun last stands => (place stands).2)
        (fun last stands => (place stands).1) fun last stands => ?_
      by_contra bad
      rw [not_or, Bool.not_eq_true, ← carries] at bad
      exact found (.inr ⟨mine, rfl, bad.2, .inr ⟨last, stands, not_lt.mp bad.1⟩⟩)
    · have copied : Copied mac q trace :=
        (copied_heard_iff.mp copies).resolve_left fun hit => same hit.2
      obtain ⟨last, stands, marks⟩ := guard.marked copied fun gone => found (.inl gone)
      rw [stands] at follows ⊢
      exact (marks k inUse mine).next follows (place stands).2 (place stands).1
  once := by
    rw [passed]
    split
    · rename_i hit
      obtain ⟨-, same, pass⟩ := hit
      subst same
      have first : passed mac payload trace = 0 := by
        by_contra some
        obtain ⟨last, -, known⟩ := guard.recognised mirror within near (copied_of_passed some)
          (kept rfl)
        have again := known i inUse mine
        rw [← carries, pass] at again
        cases again
      rw [first]
    · rw [Nat.zero_add]
      exact guard.once

theorem Guard.met (guard : Guard num mac q ps trace)
    (mirror : Mirror (fun p _ => num p) mac ps trace) {payload : List Byte} {τ t : Nat}
    (new : ∀ k, (ps k).inUse = true → (ps k).mac ≠ mac)
    (kept : payload = q → ¬ Lost (fun p _ => num p) mac q trace) :
    Guard num mac q ps ((τ, .heard t mac none payload false) :: trace) := by
  have fresh (found : ¬ Lost (fun p _ => num p) mac q trace) : ¬ Copied mac q trace := by
    intro copied
    obtain ⟨last, stands, -⟩ := guard.marked copied found
    obtain ⟨k, used, named⟩ := mirror.present last stands
    exact new k used named
  refine ⟨fun copies found => ?_, ?_⟩
  · exfalso
    rcases copied_heard_iff.mp copies with ⟨-, same⟩ | copied
    · exact found (.inr ⟨rfl, same, rfl, .inl rfl⟩)
    · exact fresh (fun gone => found (.inl gone)) copied
  · rw [passed]
    split
    · rename_i hit
      have first : passed mac q trace = 0 := by
        by_contra some
        exact fresh (kept hit.2.1) (copied_of_passed some)
      rw [first]
    · rw [Nat.zero_add]
      exact guard.once

theorem lost_aside {e : Event} (aside : e.Aside) {τ : Nat}
    (lost : Lost (fun p _ => num p) mac q trace) :
    Lost (fun p _ => num p) mac q ((τ, e) :: trace) := by
  cases e <;> first | exact lost | cases aside

theorem guard_traffic (num : List Byte → Int) (mac : Mac) (q : List Byte) :
    Traffic fun ps trace =>
      (Legible (fun p _ => num p) mac trace → Mirror (fun p _ => num p) mac ps trace) ∧
      (Within (fun p _ => num p) mac trace → Remembered (fun p _ => num p) mac q trace →
        Guard num mac q ps trace) where
  same := by
    rintro ps qs trace lines ⟨follows, guards⟩
    refine ⟨(mirror_traffic _ mac).same lines follows, fun within kept => ?_⟩
    exact (guards within kept).keep (fun h => h) (fun h => h) rfl rfl (entries_line lines)
  aside := by
    rintro ps trace τ e aside ⟨follows, guards⟩
    refine ⟨(mirror_traffic _ mac).aside τ aside follows, fun within kept => ?_⟩
    have before := guards (by cases e <;> first | exact within | cases aside)
      (by cases e <;> first | exact kept | cases aside)
    refine before.keep (copied_other ?_) (lost_aside aside) (windowLast_aside aside τ trace) ?_
      entries_refl
    · rintro t found retrans rfl
      cases aside
    · cases e <;> first | rfl | cases aside
  opened := by
    rintro ps trace τ i p who distinct fresh new ⟨follows, guards⟩
    refine ⟨(mirror_traffic _ mac).opened τ distinct fresh new follows, fun within kept => ?_⟩
    have mirror := follows within.legible
    have guard := guards within kept
    refine ⟨fun copies found => ?_, guard.once⟩
    have copied := copied_other (by rintro _ _ _ ⟨⟩) copies
    have held : holder i trace ≠ some mac := fun evicted => found (.inr ⟨evicted, copied⟩)
    obtain ⟨last, stands, marks⟩ := guard.marked copied fun gone => found (.inl gone)
    refine ⟨last, by rw [windowLast, if_neg held, stands], fun k used named => ?_⟩
    obtain ⟨was, mine, rx⟩ := entries_update (mirror.foreign stands fresh new) k used named
    exact (marks k was mine).congr rx
  forgot := by
    rintro ps trace τ i distinct inUse ⟨follows, guards⟩
    refine ⟨(mirror_traffic _ mac).forgot τ distinct inUse follows, fun within kept => ?_⟩
    have guard := guards within kept
    by_cases mine : (ps i).mac = mac
    · refine ⟨fun copies found => ?_, guard.once⟩
      exact absurd (.inr ⟨mine, copied_other (by rintro _ _ _ ⟨⟩) copies⟩) found
    · refine guard.keep (copied_other (by rintro _ _ _ ⟨⟩)) .inl ?_ rfl (entries_update mine)
      rw [windowLast, if_neg mine]
  flushed := by
    rintro ps trace τ i data distinct inUse header ⟨follows, guards⟩
    refine ⟨(mirror_traffic _ mac).flushed τ distinct inUse header follows, fun within kept => ?_⟩
    exact (guards within kept).keep (copied_other (by rintro _ _ _ ⟨⟩)) (fun h => h) rfl rfl
      (entries_same rfl rfl rfl)
  heard := by
    rintro ps trace τ t i payload undefinedShl distinct inUse ⟨follows, guards⟩
    refine ⟨(mirror_traffic _ mac).heard τ t payload undefinedShl distinct inUse follows,
      fun within kept => ?_⟩
    have guard := guards within.1 kept.1
    by_cases mine : (ps i).mac = mac
    · obtain ⟨carries, near⟩ := within.2 mine
      exact guard.heard (follows within.1.legible) distinct inUse mine within.1 carries near
        (kept.2 mine)
    · refine guard.keep (fun copies => ?_) .inl (by rw [windowLast, if_neg mine]) ?_
        (entries_heard mine undefinedShl _)
      · exact (copied_heard_iff.mp copies).resolve_left fun hit => mine hit.1
      · rw [passed, if_neg fun hit => mine hit.1, Nat.zero_add]
  met := by
    rintro ps trace τ t src payload new ⟨follows, guards⟩
    refine ⟨(mirror_traffic _ mac).met τ t src payload new follows, fun within kept => ?_⟩
    have guard := guards within.1 kept.1
    by_cases mine : src = mac
    · subst mine
      exact guard.met (follows within.1.legible) new (kept.2 rfl)
    · refine guard.keep (fun copies => ?_) .inl (by rw [windowLast, if_neg mine]) ?_ entries_refl
      · exact (copied_heard_iff.mp copies).resolve_left fun hit => mine hit.1
      · rw [passed, if_neg fun hit => mine hit.1, Nat.zero_add]
  delivered := by
    rintro ps trace τ t src payload vouched ⟨follows, guards⟩
    refine ⟨(mirror_traffic _ mac).delivered τ t src payload vouched follows, fun within kept => ?_⟩
    exact (guards within kept).keep (copied_other (by rintro _ _ _ ⟨⟩)) (fun h => h) rfl rfl
      entries_refl

end Guard

theorem Guard.start {num : List Byte → Int} {mac : Mac} {q : List Byte} :
    Guard num mac q (fun _ => AckPeer.zero) [] where
  marked := by rintro ⟨_, _, _, _, ⟨⟩⟩
  once := Nat.zero_le 1

theorem delivered_at_most_once (c : Threads ρ) (h : Reachable c) (mac : Mac)
    (num : List Byte → Int) (within : Within (fun p _ => num p) mac c.body.trace)
    (q : List Byte) (env : isEnvFrame q = true)
    (kept : Remembered (fun p _ => num p) mac q c.body.trace) :
    deliveries mac q c.body.trace ≤ 1 := by
  have guard := (h.traffic (guard_traffic num mac q)
    ⟨fun _ => Mirror.start, fun _ _ => Guard.start⟩).2 within kept
  have vouched := h.traffic (vouched_traffic mac env) trivial
  exact Nat.le_trans (spent_of_once vouched guard.once).le guard.once

def receive (payload : List Byte) (n : Nat) : List (Move Board) :=
  .start 1 (.onRx payload remoteMac (some ownMac) 0) :: List.replicate n (.resume 1)

def knownSender : List (Move Board) :=
  receive [9] 3 ++ receive (bundleOf 0) 5 ++ receive (bundleOf 0) 3

def headerNumber (payload : List Byte) : Int := (le16 payload 3).toInt

theorem delivered_at_most_once_knownSender : ∃ c, playAll knownSender quietNode = some c ∧
    (passed remoteMac (bundleOf 0) c.body.trace = 1 ∧
      c.body.trace = [(100000, .heard 1 remoteMac (some 0) (bundleOf 0) true),
        (100000, .delivered 1 remoteMac (bundleOf 0)),
        (100000, .heard 1 remoteMac (some 0) (bundleOf 0) false),
        (100000, .delivered 1 remoteMac [9]), (100000, .opened 0 remoteMac),
        (100000, .windowed 10)]) ∧
    deliveries remoteMac (bundleOf 0) c.body.trace ≤ 1 := by
  refine played_then (by decide +kernel) fun c reach ⟨_, trace⟩ => ?_
  have carries : le16 (bundleOf 0) 3 = BitVec.ofInt 16 (headerNumber (bundleOf 0)) := by decide
  refine delivered_at_most_once c reach remoteMac headerNumber ?_ (bundleOf 0) (by decide) ?_
  · rw [trace]
    exact ⟨⟨trivial, fun _ => ⟨carries, by simp [newest]⟩⟩,
      fun _ => ⟨carries, by simp [newest]⟩⟩
  · rw [trace]
    simp [Remembered, Lost, windowLast, holder, Copied]

theorem within_of_span {num : List Byte → Int} {mac : Mac} {trace : History} (lo : Int)
    (span : ∀ τ t found payload retrans, (τ, .heard t mac found payload retrans) ∈ trace →
      le16 payload 3 = BitVec.ofInt 16 (num payload) ∧ lo ≤ num payload ∧ num payload < lo + 64) :
    Within (fun p _ => num p) mac trace ∧
      ∀ m, newest (fun p _ => num p) mac trace = some m → lo ≤ m ∧ m < lo + 64 := by
  induction trace with
  | nil => exact ⟨trivial, by rintro m ⟨⟩⟩
  | cons e older ih =>
    obtain ⟨τ, e⟩ := e
    have before := ih fun τ t found payload retrans member =>
      span τ t found payload retrans (List.mem_cons_of_mem _ member)
    cases e with
    | heard t src found payload retrans =>
      by_cases mine : src = mac
      · subst mine
        have own := span τ t found payload retrans (List.mem_cons_self ..)
        refine ⟨⟨before.1, fun _ => ⟨own.1, fun m top => ?_⟩⟩, fun m top => ?_⟩
        · have := before.2 m top
          dsimp only
          omega
        · simp only [newest, if_true, Option.some.injEq] at top
          cases old : newest (fun p _ => num p) src older with
          | none =>
            rw [old, Option.elim_none] at top
            omega
          | some k =>
            have := before.2 k old
            rw [old, Option.elim_some] at top
            omega
      · refine ⟨⟨before.1, fun same => absurd same mine⟩, ?_⟩
        rw [newest, if_neg mine]
        exact before.2
    | _ => exact before

def firstContact : List (Move Board) :=
  (List.range 17).flatMap
    (fun k => receive (bundleOf (BitVec.ofNat 16 k)) (if k % 4 = 3 then 9 else 5)) ++
  receive (bundleOf 0) 5

def Event.orderly (span : Int) : Event → Bool
  | .opened i mac => i = 0 && mac = remoteMac
  | .forgot .. => false
  | .heard _ src _ payload _ =>
    src != remoteMac || (le16 payload 3 = BitVec.ofInt 16 (headerNumber payload) &&
      0 ≤ headerNumber payload && headerNumber payload < span)
  | _ => true

theorem delivered_twice_firstContact : ∃ c, playAll firstContact quietNode = some c ∧
    ((∀ e ∈ c.body.trace, e.1 = 100000 ∧ e.2.orderly 17) ∧ c.body.peersN = 1 ∧
      isEnvFrame (bundleOf 0) = true ∧ deliveries remoteMac (bundleOf 0) c.body.trace = 2) ∧
    Reachable c ∧ Within (fun p _ => headerNumber p) remoteMac c.body.trace := by
  refine played_then (by decide +kernel) fun c reach ⟨calm, _⟩ => ⟨reach, ?_⟩
  refine (within_of_span 0 fun τ t found payload retrans member => ?_).1
  have ok := (calm _ member).2
  simp only [Event.orderly, bne_self_eq_false, Bool.false_or, Bool.and_eq_true,
    decide_eq_true_eq] at ok
  exact ⟨ok.1.1, ok.1.2, by omega⟩

end RnodeHalow.Ack
