import RnodeHalow.Ack.Traffic
import RnodeHalow.Ack.Window

set_option autoImplicit false

namespace RnodeHalow.Ack

open Resumption Serial
open Function (update update_of_ne update_self)

section Call

variable {undefinedShl : Nat → BitVec 32} {p : AckPeer} {last n : Int}

def Close (last n : Int) : Prop := n ≤ last + (2 ^ 16 - 64) ∧ last ≤ n + (2 ^ 16 - 64)

theorem Close.ahead (close : Close last n) (ahead : last < n) :
    (BitVec.ofInt 16 n - BitVec.ofInt 16 last).toNat = (n - last).toNat ∧
      64 ≤ (BitVec.ofInt 16 last - BitVec.ofInt 16 n).toNat := by
  have bound : n ≤ last + (2 ^ 16 - 64) := close.1
  have fwd := distance (w := 16) ahead.le (by omega)
  have back := distance_ahead (w := 16) ahead (by omega)
  omega

theorem Close.behind (close : Close last n) (behind : n < last) :
    (BitVec.ofInt 16 last - BitVec.ofInt 16 n).toNat = (last - n).toNat ∧
      64 ≤ (BitVec.ofInt 16 n - BitVec.ofInt 16 last).toNat := by
  have bound : last ≤ n + (2 ^ 16 - 64) := close.2
  have back := distance (w := 16) behind.le (by omega)
  have fwd := distance_ahead (w := 16) behind (by omega)
  omega

inductive Noted (undefinedShl : Nat → BitVec 32) (p : AckPeer) (last n : Int) : AckPeer → Prop
  | ahead : last < n → n < last + 64 → Noted undefinedShl p last n
      { p with rxSeqWin := p.rxSeqWin <<< (n - last).toNat ||| 1, rxSeqLast := BitVec.ofInt 16 n }
  | same : n = last → Noted undefinedShl p last n p
  | late : n < last → last < n + 64 → Noted undefinedShl p last n
      { p with
        rxSeqWin := p.rxSeqWin ||| (shl32 undefinedShl (last - n).toNat).setWidth 64 }
  | far : last + 64 ≤ n ∨ n + 64 ≤ last → Noted undefinedShl p last n
      { p with rxSeqLast := BitVec.ofInt 16 n, rxSeqWin := 1 }

theorem peerRxSeq_noted (undefinedShl : Nat → BitVec 32) (seen : p.rxSeqSeen = true)
    (stands : p.rxSeqLast = BitVec.ofInt 16 last) (close : Close last n) :
    Noted undefinedShl p last n (peerRxSeq undefinedShl p (BitVec.ofInt 16 n)) := by
  rcases lt_trichotomy last n with ahead | same | behind
  · obtain ⟨fwd, back⟩ := close.ahead ahead
    rw [← stands] at fwd back
    by_cases near : n < last + 64
    · rw [peerRxSeq_ahead undefinedShl seen (by omega) (by rw [fwd, seqWindow]; omega), fwd]
      exact .ahead ahead near
    · rw [peerRxSeq_far undefinedShl seen (by rw [fwd, seqWindow]; omega)
        (by rw [seqWindow]; omega)]
      exact .far (.inl (by omega))
  · have zero : (BitVec.ofInt 16 n - p.rxSeqLast).toNat = 0 := by
      rw [stands, same, BitVec.sub_self]
      rfl
    rw [peerRxSeq_same undefinedShl seen zero]
    exact .same same.symm
  · obtain ⟨back, fwd⟩ := close.behind behind
    rw [← stands] at fwd back
    by_cases near : last < n + 64
    · rw [peerRxSeq_late undefinedShl seen (by rw [seqWindow]; omega)
        (by rw [back, seqWindow]; omega), back]
      exact .late behind near
    · rw [peerRxSeq_far undefinedShl seen (by rw [seqWindow]; omega)
        (by rw [back, seqWindow]; omega)]
      exact .far (.inr (by omega))

theorem seqRetrans_iff (seen : p.rxSeqSeen = true) (stands : p.rxSeqLast = BitVec.ofInt 16 last)
    (close : Close last n) :
    seqRetrans p (BitVec.ofInt 16 n) = true ↔
      n ≤ last ∧ last < n + 64 ∧ p.rxSeqWin.getLsbD (last - n).toNat = true := by
  have test : seqRetrans p (BitVec.ofInt 16 n) = true ↔
      (p.rxSeqLast - BitVec.ofInt 16 n).toNat < 64 ∧
        p.rxSeqWin.getLsbD (p.rxSeqLast - BitVec.ofInt 16 n).toNat = true := by
    simp [seqRetrans, seen, seqWindow, ← and_one_ne_zero_iff]
  rw [test, stands]
  rcases lt_or_ge last n with ahead | behind
  · have back := (close.ahead ahead).2
    constructor
    · rintro ⟨small, -⟩
      omega
    · rintro ⟨low, -⟩
      omega
  · have bound : last ≤ n + (2 ^ 16 - 64) := close.2
    have back := distance (w := 16) behind (by omega)
    have same : (BitVec.ofInt 16 last - BitVec.ofInt 16 n).toNat = (last - n).toNat := by omega
    rw [same]
    constructor
    · rintro ⟨small, bit⟩
      exact ⟨behind, by omega, bit⟩
    · rintro ⟨-, near, bit⟩
      exact ⟨by omega, bit⟩

theorem seqRetrans_closed (closed : p.rxSeqSeen = false) (seq : BitVec 16) :
    seqRetrans p seq = false := by
  simp [seqRetrans, closed]

end Call

def nextLast : Option Int → Int → Int
  | none, n => n
  | some last, n => if n ≤ last ∧ last < n + 64 then last else n

def Follows (p : AckPeer) : Option Int → Prop
  | none => p.rxSeqSeen = false
  | some last => p.rxSeqSeen = true ∧ p.rxSeqLast = BitVec.ofInt 16 last ∧
      p.rxSeqWin.getLsbD 0 = true

def Marks (p : AckPeer) (last m : Int) : Prop :=
  m ≤ last ∧ (last < m + 64 → p.rxSeqWin.getLsbD (last - m).toNat = true)

def Backed (p : AckPeer) (last : Int) (S : Int → Prop) : Prop :=
  ∀ k < 64, p.rxSeqWin.getLsbD k = true → S (last - k)

section Step

variable {undefinedShl : Nat → BitVec 32} {p : AckPeer} {w : Option Int} {last n : Int}

theorem Follows.next (follows : Follows p w) (close : ∀ last, w = some last → Close last n) :
    Follows (peerRxSeq undefinedShl p (BitVec.ofInt 16 n)) (some (nextLast w n)) := by
  cases w with
  | none =>
    rw [peerRxSeq_opens undefinedShl follows]
    exact ⟨rfl, rfl, by simp⟩
  | some last =>
    obtain ⟨seen, stands, newest⟩ := follows
    have noted := peerRxSeq_noted undefinedShl seen stands (close last rfl)
    generalize peerRxSeq undefinedShl p (BitVec.ofInt 16 n) = p' at noted
    cases noted with
    | ahead | far =>
      rw [nextLast, if_neg (by omega)]
      exact ⟨seen, rfl, by simp⟩
    | same same =>
      rw [nextLast, if_pos (by omega)]
      exact ⟨seen, stands, newest⟩
    | late behind near =>
      rw [nextLast, if_pos (by omega)]
      exact ⟨seen, stands, by rw [BitVec.getLsbD_or, newest, Bool.true_or]⟩

theorem nextLast_le {m : Int} (le : m ≤ last) (near : last < n + 64) :
    m ≤ nextLast (some last) n := by
  rw [nextLast]
  split <;> omega

theorem Marks.next {m : Int} (follows : Follows p (some last)) (close : Close last n)
    (near : last < n + 64) (marks : Marks p last m) :
    Marks (peerRxSeq undefinedShl p (BitVec.ofInt 16 n)) (nextLast (some last) n) m := by
  refine ⟨nextLast_le marks.1 near, fun recent => ?_⟩
  obtain ⟨seen, stands, -⟩ := follows
  have noted := peerRxSeq_noted undefinedShl seen stands close
  generalize peerRxSeq undefinedShl p (BitVec.ofInt 16 n) = p' at noted
  obtain ⟨le, bit⟩ := marks
  cases noted with
  | ahead ahead close =>
    rw [nextLast, if_neg (by omega)] at recent ⊢
    have old := bit (by omega)
    have place : (n - m).toNat - (n - last).toNat = (last - m).toNat := by omega
    simp only [BitVec.getLsbD_or, BitVec.getLsbD_shiftLeft, place, old]
    simp
    omega
  | same same =>
    rw [nextLast, if_pos (by omega)] at recent ⊢
    exact bit recent
  | late behind close =>
    rw [nextLast, if_pos (by omega)] at recent ⊢
    rw [BitVec.getLsbD_or, bit recent, Bool.true_or]
  | far apart =>
    rw [nextLast, if_neg (by omega)] at recent
    omega

theorem Marks.own (follows : Follows p w) (close : ∀ last, w = some last → Close last n)
    (near : ∀ last, w = some last → last < n + 64)
    (early : ∀ last, w = some last → last < n + 32 ∨ seqRetrans p (BitVec.ofInt 16 n) = true) :
    Marks (peerRxSeq undefinedShl p (BitVec.ofInt 16 n)) (nextLast w n) n := by
  cases w with
  | none =>
    rw [peerRxSeq_opens undefinedShl follows]
    refine ⟨le_refl n, fun _ => ?_⟩
    simp [nextLast]
  | some last =>
    obtain ⟨seen, stands, newest⟩ := follows
    have near := near last rfl
    refine ⟨by rw [nextLast]; split <;> omega, fun recent => ?_⟩
    have early := early last rfl
    rw [seqRetrans_iff seen stands (close last rfl)] at early
    have noted := peerRxSeq_noted undefinedShl seen stands (close last rfl)
    generalize peerRxSeq undefinedShl p (BitVec.ofInt 16 n) = p' at noted
    cases noted with
    | ahead | far =>
      rw [nextLast, if_neg (by omega)]
      simp
    | same same =>
      rw [nextLast, if_pos (by omega), same, sub_self]
      exact newest
    | late behind close =>
      rw [nextLast, if_pos (by omega)]
      rw [BitVec.getLsbD_or]
      rcases early with early | ⟨-, -, bit⟩
      · rw [getLsbD_shl32 undefinedShl (by omega)]
        simp
      · rw [bit, Bool.true_or]

theorem Backed.next {S : Int → Prop} (follows : Follows p (some last)) (close : Close last n)
    (defined : last < n + 32 ∨ n + 64 ≤ last) (backed : Backed p last S) :
    Backed (peerRxSeq undefinedShl p (BitVec.ofInt 16 n)) (nextLast (some last) n)
      fun m => m = n ∨ S m := by
  obtain ⟨seen, stands, -⟩ := follows
  have noted := peerRxSeq_noted undefinedShl seen stands close
  generalize peerRxSeq undefinedShl p (BitVec.ofInt 16 n) = p' at noted
  intro k bound bit
  cases noted with
  | ahead ahead near =>
    rw [nextLast, if_neg (by omega)]
    have one : (1 : BitVec 64).getLsbD k = true ↔ k = 0 := by simp
    simp only [BitVec.getLsbD_or, BitVec.getLsbD_shiftLeft, one, Bool.or_eq_true,
      Bool.and_eq_true, decide_eq_true_eq, Bool.not_eq_true', decide_eq_false_iff_not] at bit
    rcases bit with ⟨⟨-, high⟩, old⟩ | zero
    · have number : n - k = last - (k - (n - last).toNat : Nat) := by omega
      exact .inr (number ▸ backed _ (by omega) old)
    · exact .inl (by omega)
  | same same =>
    rw [nextLast, if_pos (by omega)]
    exact .inr (backed k bound bit)
  | late behind near =>
    rw [nextLast, if_pos (by omega)]
    rw [BitVec.getLsbD_or, Bool.or_eq_true, getLsbD_shl32 undefinedShl (by omega),
      decide_eq_true_eq] at bit
    rcases bit with old | new
    · exact .inr (backed k bound old)
    · exact .inl (by omega)
  | far apart =>
    rw [nextLast, if_neg (by omega)]
    have zero : k = 0 := by simpa using bit
    exact .inl (by omega)

theorem Backed.opens (follows : Follows p none) (n : Int) :
    Backed (peerRxSeq undefinedShl p (BitVec.ofInt 16 n)) (nextLast none n) (· = n) := by
  rw [peerRxSeq_opens undefinedShl follows]
  intro k bound bit
  have zero : k = 0 := by simpa using bit
  rw [nextLast]
  omega

end Step

abbrev Numbering := List Byte → History → Int

def holder (i : PeerIx) : History → Option Mac
  | [] => none
  | (_, .opened k mac) :: older => if k = i then some mac else holder i older
  | _ :: older => holder i older

def windowLast (number : Numbering) (mac : Mac) : History → Option Int
  | [] => none
  | (_, .heard _ src found payload _) :: older =>
    if src = mac then
      found.map fun _ => nextLast (windowLast number mac older) (number payload older)
    else windowLast number mac older
  | (_, .opened i _) :: older =>
    if holder i older = some mac then none else windowLast number mac older
  | (_, .forgot _ who) :: older => if who = mac then none else windowLast number mac older
  | _ :: older => windowLast number mac older

def Legible (number : Numbering) (mac : Mac) : History → Prop
  | [] => True
  | (_, .heard _ src _ payload _) :: older =>
    Legible number mac older ∧
      (src = mac → le16 payload 3 = BitVec.ofInt 16 (number payload older) ∧
        ∀ last, windowLast number mac older = some last → Close last (number payload older))
  | _ :: older => Legible number mac older

structure Mirror (number : Numbering) (mac : Mac) (ps : PeerIx → AckPeer) (trace : History) :
    Prop where
  holders : ∀ i, holder i trace = if (ps i).inUse then some (ps i).mac else none
  follows : ∀ i, (ps i).inUse = true → (ps i).mac = mac →
    Follows (ps i) (windowLast number mac trace)
  present : ∀ last, windowLast number mac trace = some last →
    ∃ i, (ps i).inUse = true ∧ (ps i).mac = mac

section Mirror

variable {number : Numbering} {mac : Mac} {ps qs : PeerIx → AckPeer} {trace trace' : History}

theorem holder_aside {e : Event} (aside : e.Aside) (i : PeerIx) (τ : Nat) (older : History) :
    holder i ((τ, e) :: older) = holder i older := by
  cases e <;> first | rfl | cases aside

theorem windowLast_aside {e : Event} (aside : e.Aside) (τ : Nat) (older : History) :
    windowLast number mac ((τ, e) :: older) = windowLast number mac older := by
  cases e <;> first | rfl | cases aside

theorem legible_aside {e : Event} (aside : e.Aside) {τ : Nat} {older : History}
    (legible : Legible number mac ((τ, e) :: older)) : Legible number mac older := by
  cases e <;> first | exact legible | cases aside

theorem Follows.congr {p q : AckPeer} (same : q.rxWindow = p.rxWindow) {w : Option Int}
    (follows : Follows p w) : Follows q w := by
  have seen : q.rxSeqSeen = p.rxSeqSeen := congrArg RxWindow.rxSeqSeen same
  have last : q.rxSeqLast = p.rxSeqLast := congrArg RxWindow.rxSeqLast same
  have win : q.rxSeqWin = p.rxSeqWin := congrArg RxWindow.rxSeqWin same
  cases w with
  | none => exact seen.trans follows
  | some l => exact ⟨seen.trans follows.1, last.trans follows.2.1, by rw [win]; exact follows.2.2⟩

theorem Mirror.keep (mirror : Mirror number mac ps trace)
    (holders : ∀ i, holder i trace' = holder i trace)
    (window : windowLast number mac trace' = windowLast number mac trace) :
    Mirror number mac ps trace' where
  holders i := (holders i).trans (mirror.holders i)
  follows := by rw [window]; exact mirror.follows
  present := by rw [window]; exact mirror.present

variable {i : PeerIx} {p : AckPeer}

theorem Mirror.set (mirror : Mirror number mac ps trace) (distinct : Distinct ps)
    (inUse : (ps i).inUse = true) (used : p.inUse = (ps i).inUse) (named : p.mac = (ps i).mac)
    (holders : ∀ k, holder k trace' = holder k trace)
    (own : (ps i).mac = mac → Follows p (windowLast number mac trace'))
    (other : (ps i).mac ≠ mac → windowLast number mac trace' = windowLast number mac trace) :
    Mirror number mac (update ps i p) trace' := by
  have inUses (k : PeerIx) : (update ps i p k).inUse = (ps k).inUse := by
    by_cases here : k = i
    · subst here
      rw [update_self, used]
    · rw [update_of_ne here]
  have macs (k : PeerIx) : (update ps i p k).mac = (ps k).mac := by
    by_cases here : k = i
    · subst here
      rw [update_self, named]
    · rw [update_of_ne here]
  refine ⟨fun k => ?_, fun k usedK namedK => ?_, fun last open' => ?_⟩
  · rw [holders, mirror.holders, inUses, macs]
  · rw [inUses] at usedK
    rw [macs] at namedK
    by_cases here : k = i
    · subst here
      rw [update_self]
      exact own namedK
    · have foreign : (ps i).mac ≠ mac := fun same =>
        here (distinct k i usedK inUse (namedK.trans same.symm))
      rw [update_of_ne here, other foreign]
      exact mirror.follows k usedK namedK
  · by_cases mine : (ps i).mac = mac
    · exact ⟨i, by rw [inUses, inUse], by rw [macs, mine]⟩
    · obtain ⟨k, usedK, namedK⟩ := mirror.present last (other mine ▸ open')
      exact ⟨k, by rw [inUses, usedK], by rw [macs, namedK]⟩

theorem Mirror.opened (mirror : Mirror number mac ps trace) (distinct : Distinct ps) {who : Mac}
    (fresh : FreshPeer p who) (new : ∀ k, (ps k).inUse = true → (ps k).mac ≠ who) (τ : Nat) :
    Mirror number mac (update ps i p) ((τ, .opened i who) :: trace) where
  holders k := by
    by_cases here : k = i
    · subst here
      simp [holder, fresh.inUse, fresh.mac]
    · rw [update_of_ne here]
      simp [holder, Ne.symm here, mirror.holders k]
  follows k usedK namedK := by
    by_cases here : k = i
    · subst here
      rw [update_self] at namedK ⊢
      have closed : windowLast number mac trace = none := by
        cases stands : windowLast number mac trace with
        | none => rfl
        | some last =>
          obtain ⟨m, usedM, namedM⟩ := mirror.present last stands
          exact absurd (namedM.trans (namedK.symm.trans fresh.mac)) (new m usedM)
      simpa [windowLast, closed, Follows] using fresh.rxSeqSeen
    · rw [update_of_ne here] at usedK namedK ⊢
      have foreign : holder i trace ≠ some mac := by
        rw [mirror.holders i]
        by_cases inUse : (ps i).inUse = true
        · rw [if_pos inUse]
          rintro ⟨⟩
          exact here (distinct k i usedK inUse namedK)
        · rw [if_neg inUse]
          simp
      rw [windowLast, if_neg foreign]
      exact mirror.follows k usedK namedK
  present last stands := by
    rw [windowLast] at stands
    split at stands
    · cases stands
    rename_i foreign
    obtain ⟨k, usedK, namedK⟩ := mirror.present last stands
    have apart : k ≠ i := by
      rintro rfl
      rw [mirror.holders k, if_pos usedK, namedK] at foreign
      exact foreign rfl
    refine ⟨k, ?_⟩
    rw [update_of_ne apart]
    exact ⟨usedK, namedK⟩

theorem Mirror.foreign (mirror : Mirror number mac ps trace) {last : Int}
    (stands : windowLast number mac trace = some last) {who : Mac} (fresh : FreshPeer p who)
    (new : ∀ k, (ps k).inUse = true → (ps k).mac ≠ who) : p.mac ≠ mac := by
  intro same
  obtain ⟨k, used, named⟩ := mirror.present last stands
  exact new k used (named.trans (same.symm.trans fresh.mac))

theorem entries_refl (i : PeerIx) (used : (ps i).inUse = true) (named : (ps i).mac = mac) :
    (ps i).inUse = true ∧ (ps i).mac = mac ∧ (ps i).rxWindow = (ps i).rxWindow :=
  ⟨used, named, rfl⟩

theorem entries_update (foreign : p.mac ≠ mac) (k : PeerIx)
    (used : (update ps i p k).inUse = true)
    (named : (update ps i p k).mac = mac) :
    (ps k).inUse = true ∧ (ps k).mac = mac ∧
      (update ps i p k).rxWindow = (ps k).rxWindow := by
  by_cases here : k = i
  · subst here
    rw [update_self] at named
    exact absurd named foreign
  · rw [update_of_ne here] at used named ⊢
    exact ⟨used, named, rfl⟩

theorem entries_heard (foreign : (ps i).mac ≠ mac) (undefinedShl : Nat → BitVec 32)
    (seq : BitVec 16) (k : PeerIx)
    (used : (update ps i (peerRxSeq undefinedShl (ps i) seq) k).inUse = true)
    (named : (update ps i (peerRxSeq undefinedShl (ps i) seq) k).mac = mac) :
    (ps k).inUse = true ∧ (ps k).mac = mac ∧
      (update ps i (peerRxSeq undefinedShl (ps i) seq) k).rxWindow = (ps k).rxWindow := by
  refine entries_update ?_ k used named
  rw [(peerRxSeq_place undefinedShl (ps i) seq).mac]
  exact foreign

theorem entries_line {qs : PeerIx → AckPeer} (lines : ∀ i, (qs i).line = (ps i).line) (i : PeerIx)
    (used : (qs i).inUse = true) (named : (qs i).mac = mac) :
    (ps i).inUse = true ∧ (ps i).mac = mac ∧ (qs i).rxWindow = (ps i).rxWindow := by
  rw [inUse_of_line (lines i)] at used
  rw [mac_of_line (lines i)] at named
  exact ⟨used, named, window_of_line (lines i)⟩

theorem entries_same (used : p.inUse = (ps i).inUse) (named : p.mac = (ps i).mac)
    (rx : p.rxWindow = (ps i).rxWindow) (k : PeerIx)
    (usedK : (update ps i p k).inUse = true)
    (namedK : (update ps i p k).mac = mac) :
    (ps k).inUse = true ∧ (ps k).mac = mac ∧
      (update ps i p k).rxWindow = (ps k).rxWindow := by
  by_cases here : k = i
  · subst here
    rw [update_self] at usedK namedK ⊢
    exact ⟨used ▸ usedK, named ▸ namedK, rx⟩
  · rw [update_of_ne here] at usedK namedK ⊢
    exact ⟨usedK, namedK, rfl⟩

theorem mirror_traffic (number : Numbering) (mac : Mac) :
    Traffic fun ps trace => Legible number mac trace → Mirror number mac ps trace where
  same := by
    intro ps qs trace lines h legible
    have mirror := h legible
    refine ⟨fun i => ?_, fun i used named => ?_, fun last stands => ?_⟩
    · rw [mirror.holders i, inUse_of_line (lines i), mac_of_line (lines i)]
    · obtain ⟨was, mine, rx⟩ := entries_line lines i used named
      exact (mirror.follows i was mine).congr rx
    · obtain ⟨i, used, named⟩ := mirror.present last stands
      exact ⟨i, by rw [inUse_of_line (lines i), used], by rw [mac_of_line (lines i), named]⟩
  aside := by
    intro ps trace τ e aside h legible
    exact (h (legible_aside aside legible)).keep (holder_aside aside · τ trace)
      (windowLast_aside aside τ trace)
  opened := by
    intro ps trace τ i p who distinct fresh new h legible
    exact (h legible).opened distinct fresh new τ
  forgot := by
    intro ps trace τ i distinct inUse h legible
    refine (h legible).set distinct inUse rfl rfl (fun _ => rfl) (fun mine => ?_) fun other => ?_
    · rw [windowLast, if_pos mine]
      rfl
    · rw [windowLast, if_neg other]
  flushed := by
    intro ps trace τ i data distinct inUse _ h legible
    exact (h legible).set distinct inUse rfl rfl (fun _ => rfl)
      (fun mine => ((h legible).follows i inUse mine).congr rfl) fun _ => rfl
  heard := by
    intro ps trace τ t i payload undefinedShl distinct inUse h legible
    have mirror := h legible.1
    have place := peerRxSeq_place undefinedShl (ps i) (le16 payload 3)
    refine mirror.set distinct inUse place.inUse place.mac (fun _ => rfl) (fun mine => ?_)
      fun other => ?_
    · obtain ⟨carries, close⟩ := legible.2 mine
      rw [windowLast, if_pos mine, carries]
      exact (mirror.follows i inUse mine).next close
    · rw [windowLast, if_neg other]
  met := by
    intro ps trace τ t src payload new h legible
    have mirror := h legible.1
    by_cases mine : src = mac
    · refine ⟨mirror.holders, fun k used named => absurd (named.trans mine.symm) (new k used), ?_⟩
      intro last stands
      rw [windowLast, if_pos mine] at stands
      cases stands
    · exact mirror.keep (fun _ => rfl) (by rw [windowLast, if_neg mine])
  delivered := by
    intro ps trace τ t src payload _ h legible
    exact (h legible).keep (fun _ => rfl) rfl

theorem Mirror.start : Mirror number mac (fun _ => AckPeer.zero) [] where
  holders _ := rfl
  follows := by rintro _ ⟨⟩
  present := by rintro _ ⟨⟩

end Mirror

end RnodeHalow.Ack
