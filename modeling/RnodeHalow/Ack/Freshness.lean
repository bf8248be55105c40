import RnodeHalow.Ack.Delivery

set_option autoImplicit false

namespace RnodeHalow.Ack

open Resumption Serial
open Function (update update_of_ne update_self)

variable {ρ : Type} [Platform ρ]

def pickFlushed (i : PeerIx) : Event → Option (List Byte)
  | .flushed k _ data => if k = i then some data else none
  | _ => none

def sentFrom (i : PeerIx) (trace : History) : List (List Byte) :=
  (collect (pickFlushed i) i trace).reverse

def lineNumber (n : Nat) : Int := n + n / 65535

theorem lineNumber_injective {n m : Nat} (same : lineNumber n = lineNumber m) : n = m := by
  unfold lineNumber at same
  omega

theorem ofInt_lineNumber {seq : BitVec 16} {n : Nat} (value : seq.toNat = n % 65535) :
    seq = BitVec.ofInt 16 (lineNumber n) := by
  apply BitVec.eq_of_toNat_eq
  rw [value, BitVec.toNat_ofInt, lineNumber]
  omega

structure Counted (txSeq : BitVec 16) (sent : List (List Byte)) : Prop where
  next : (takeSeq txSeq).1.toNat = sent.length % 65535
  each : ∀ n q, sent[n]? = some q → (le16 q 3).toNat = n % 65535

theorem takeSeq_next {txSeq : BitVec 16} {n : Nat} (value : (takeSeq txSeq).1.toNat = n % 65535) :
    (takeSeq (takeSeq txSeq).2).1.toNat = (n + 1) % 65535 := by
  have follows : (takeSeq txSeq).2 = (takeSeq txSeq).1 + 1 := by
    unfold takeSeq
    split
    · rename_i top
      subst top
      rfl
    · rfl
  rw [follows]
  generalize (takeSeq txSeq).1 = seq at value
  have sum : (seq + 1).toNat = seq.toNat + 1 := by
    have one : (1 : BitVec 16).toNat = 1 := rfl
    rw [BitVec.toNat_add, one]
    omega
  unfold takeSeq
  split
  · rename_i top
    rw [top] at sum ⊢
    change 65535 = seq.toNat + 1 at sum
    change 0 = (n + 1) % 65535
    omega
  · rename_i below
    have short : seq.toNat + 1 ≠ 65535 := fun full =>
      below (BitVec.eq_of_toNat_eq (sum.trans full))
    rw [sum]
    omega

theorem Counted.append {txSeq : BitVec 16} {sent : List (List Byte)} {data : List Byte}
    (counted : Counted txSeq sent) (header : le16 data 3 = (takeSeq txSeq).1) :
    Counted (takeSeq txSeq).2 (sent ++ [data]) where
  next := by
    rw [List.length_append, List.length_singleton]
    exact takeSeq_next counted.next
  each n q there := by
    rcases Nat.lt_trichotomy n sent.length with old | new | beyond
    · rw [List.getElem?_append_left old] at there
      exact counted.each n q there
    · subst new
      rw [List.getElem?_concat_length] at there
      cases there
      rw [header, counted.next]
    · rw [List.getElem?_eq_none (by simp; omega)] at there
      cases there

theorem collect_aside {e : Event} (aside : e.Aside) (i : PeerIx) (τ : Nat) (older : History) :
    sentFrom i ((τ, e) :: older) = sentFrom i older := by
  cases e <;> first | rfl | cases aside

theorem counted_traffic :
    Traffic fun ps trace => ∀ i, (ps i).inUse = true → Counted (ps i).txSeq (sentFrom i trace) where
  same := by
    intro ps qs trace lines h i used
    rw [inUse_of_line (lines i)] at used
    rw [txSeq_of_line (lines i)]
    exact h i used
  aside := by
    intro ps trace τ e aside h i used
    rw [collect_aside aside]
    exact h i used
  opened := by
    intro ps trace τ k p who _ fresh _ h i used
    by_cases here : i = k
    · subst here
      have none : sentFrom i ((τ, .opened i who) :: trace) = [] := by
        simp [sentFrom, collect, Event.opens]
      rw [update_self, none, fresh.txSeq]
      exact ⟨by decide, by simp⟩
    · have kept : sentFrom i ((τ, .opened k who) :: trace) = sentFrom i trace := by
        simp [sentFrom, collect, Event.opens, Ne.symm here, pickFlushed]
      rw [update_of_ne here] at used ⊢
      rw [kept]
      exact h i used
  forgot := by
    intro ps trace τ k _ _ h i used
    by_cases here : i = k
    · subst here
      rw [update_self] at used ⊢
      exact h i used
    · rw [update_of_ne here] at used ⊢
      exact h i used
  flushed := by
    intro ps trace τ k data _ _ header h i used
    by_cases here : i = k
    · subst here
      have longer : sentFrom i ((τ, .flushed i (takeSeq (ps i).txSeq).1 data) :: trace) =
          sentFrom i trace ++ [data] := by
        simp [sentFrom, collect, Event.opens, pickFlushed]
      rw [update_self] at used ⊢
      rw [longer]
      exact (h i used).append header
    · have kept : sentFrom i ((τ, .flushed k (takeSeq (ps k).txSeq).1 data) :: trace) =
          sentFrom i trace := by
        simp [sentFrom, collect, Event.opens, pickFlushed, Ne.symm here]
      rw [update_of_ne here] at used ⊢
      rw [kept]
      exact h i used
  heard := by
    intro ps trace τ t k payload undefinedShl _ _ h i used
    by_cases here : i = k
    · subst here
      have place := peerRxSeq_place undefinedShl (ps i) (le16 payload 3)
      rw [update_self] at used ⊢
      rw [place.txSeq]
      exact h i (place.inUse ▸ used)
    · rw [update_of_ne here] at used ⊢
      exact h i used
  met := by
    intro ps trace τ t src payload _ h i used
    exact h i used
  delivered := by
    intro ps trace τ t src payload _ h i used
    exact h i used

def Arrived (number : Numbering) (mac : Mac) (m : Int) : History → Prop
  | [] => False
  | (_, .heard _ src _ payload _) :: older =>
    (src = mac ∧ number payload older = m) ∨ Arrived number mac m older
  | _ :: older => Arrived number mac m older

-- No bundle of `mac` comes 32 to 63 behind `rx_seq_last`, where the shift is undefined.
def ShiftDefined (number : Numbering) (mac : Mac) : History → Prop
  | [] => True
  | (_, .heard _ src _ payload _) :: older =>
    ShiftDefined number mac older ∧
      (src = mac → ∀ last, windowLast number mac older = some last →
        last < number payload older + 32 ∨ number payload older + 64 ≤ last)
  | _ :: older => ShiftDefined number mac older

def Echoes (number : Numbering) (mac : Mac) : History → Prop
  | [] => True
  | (_, .heard _ src _ payload retrans) :: older =>
    Echoes number mac older ∧
      (src = mac → retrans = true → Arrived number mac (number payload older) older)
  | _ :: older => Echoes number mac older

structure Honest (number : Numbering) (mac : Mac) (ps : PeerIx → AckPeer) (trace : History) :
    Prop where
  backed : ∀ last, windowLast number mac trace = some last →
    ∀ i, (ps i).inUse = true → (ps i).mac = mac →
      Backed (ps i) last fun m => Arrived number mac m trace
  echoes : Echoes number mac trace

section Honest

variable {number : Numbering} {mac : Mac} {ps qs : PeerIx → AckPeer} {trace trace' : History}

theorem Backed.mono {p p' : AckPeer} (same : p'.rxWindow = p.rxWindow) {last : Int}
    {S S' : Int → Prop} (more : ∀ m, S m → S' m) (backed : Backed p last S) :
    Backed p' last S' := by
  have win : p'.rxSeqWin = p.rxSeqWin := congrArg RxWindow.rxSeqWin same
  intro k bound bit
  rw [win] at bit
  exact more _ (backed k bound bit)

theorem Honest.keep (honest : Honest number mac ps trace)
    (window : windowLast number mac trace' = windowLast number mac trace)
    (more : ∀ m, Arrived number mac m trace → Arrived number mac m trace')
    (echoes : Echoes number mac trace')
    (entries : ∀ i, (qs i).inUse = true → (qs i).mac = mac →
      (ps i).inUse = true ∧ (ps i).mac = mac ∧ (qs i).rxWindow = (ps i).rxWindow) :
    Honest number mac qs trace' where
  backed last stands i used named := by
    obtain ⟨was, mine, rx⟩ := entries i used named
    exact (honest.backed last (window ▸ stands) i was mine).mono rx more
  echoes := echoes

theorem Honest.heard (honest : Honest number mac ps trace) (mirror : Mirror number mac ps trace)
    (distinct : Distinct ps) {i : PeerIx} (inUse : (ps i).inUse = true) (mine : (ps i).mac = mac)
    {payload : List Byte} {τ t : Nat} {undefinedShl : Nat → BitVec 32}
    (carries : le16 payload 3 = BitVec.ofInt 16 (number payload trace))
    (close : ∀ last, windowLast number mac trace = some last → Close last (number payload trace))
    (defined : ∀ last, windowLast number mac trace = some last →
      last < number payload trace + 32 ∨ number payload trace + 64 ≤ last) :
    Honest number mac
      (update ps i (peerRxSeq undefinedShl (ps i) (le16 payload 3)))
      ((τ, .heard t (ps i).mac (some i) payload (seqRetrans (ps i) (le16 payload 3))) ::
        trace) := by
  have follows := mirror.follows i inUse mine
  refine ⟨fun last stands k used named => ?_, honest.echoes, fun _ again => ?_⟩
  · have here : k = i := by
      by_contra other
      rw [update_of_ne other] at used named
      exact other (distinct k i used inUse (named.trans mine.symm))
    subst here
    rw [windowLast, if_pos mine] at stands
    cases stands
    rw [update_self, carries]
    cases before : windowLast number mac trace with
    | none =>
      rw [before] at follows
      exact (Backed.opens follows _).mono rfl fun m same => .inl ⟨mine, same.symm⟩
    | some old =>
      rw [before] at follows
      refine ((honest.backed old before k inUse mine).next follows (close old before)
        (defined old before)).mono rfl fun m => ?_
      rintro (same | came)
      · exact .inl ⟨mine, same.symm⟩
      · exact .inr came
  · cases before : windowLast number mac trace with
    | none =>
      rw [before] at follows
      rw [seqRetrans_closed follows] at again
      cases again
    | some old =>
      rw [before] at follows
      rw [carries, seqRetrans_iff follows.1 follows.2.1 (close old before)] at again
      obtain ⟨le, near, bit⟩ := again
      have came := honest.backed old before i inUse mine _ (by omega) bit
      have number : old - ((old - number payload trace).toNat : Int) = number payload trace := by
        omega
      rwa [number] at came

theorem honest_traffic (number : Numbering) (mac : Mac) :
    Traffic fun ps trace =>
      (Legible number mac trace → Mirror number mac ps trace) ∧
      (Legible number mac trace → ShiftDefined number mac trace →
        Honest number mac ps trace) where
  same := by
    rintro ps qs trace lines ⟨follows, holds⟩
    refine ⟨(mirror_traffic number mac).same lines follows, fun legible defined => ?_⟩
    have honest := holds legible defined
    exact honest.keep rfl (fun _ h => h) honest.echoes (entries_line lines)
  aside := by
    rintro ps trace τ e aside ⟨follows, holds⟩
    refine ⟨(mirror_traffic number mac).aside τ aside follows, fun legible defined => ?_⟩
    have honest := holds (legible_aside aside legible)
      (by cases e <;> first | exact defined | cases aside)
    refine honest.keep (windowLast_aside aside τ trace) (fun m came => ?_) ?_ entries_refl
    · cases e <;> first | exact came | cases aside
    · cases e <;> first | exact honest.echoes | cases aside
  opened := by
    rintro ps trace τ i p who distinct fresh new ⟨follows, holds⟩
    refine ⟨(mirror_traffic number mac).opened τ distinct fresh new follows,
      fun legible defined => ?_⟩
    have honest := holds legible defined
    refine ⟨fun last stands k used named => ?_, honest.echoes⟩
    rw [windowLast] at stands
    split at stands
    · cases stands
    · have foreign := (follows legible).foreign stands fresh new
      obtain ⟨was, mine, rx⟩ := entries_update foreign k used named
      exact (honest.backed last stands k was mine).mono rx fun _ h => h
  forgot := by
    rintro ps trace τ i distinct inUse ⟨follows, holds⟩
    refine ⟨(mirror_traffic number mac).forgot τ distinct inUse follows, fun legible defined => ?_⟩
    have honest := holds legible defined
    by_cases mine : (ps i).mac = mac
    · refine ⟨fun last stands => ?_, honest.echoes⟩
      rw [windowLast, if_pos mine] at stands
      cases stands
    · exact honest.keep (by rw [windowLast, if_neg mine]) (fun _ h => h) honest.echoes
        (entries_update mine)
  flushed := by
    rintro ps trace τ i data distinct inUse header ⟨follows, holds⟩
    refine ⟨(mirror_traffic number mac).flushed τ distinct inUse header follows,
      fun legible defined => ?_⟩
    have honest := holds legible defined
    exact honest.keep rfl (fun _ h => h) honest.echoes (entries_same rfl rfl rfl)
  heard := by
    rintro ps trace τ t i payload undefinedShl distinct inUse ⟨follows, holds⟩
    refine ⟨(mirror_traffic number mac).heard τ t payload undefinedShl distinct inUse follows,
      fun legible defined => ?_⟩
    have honest := holds legible.1 defined.1
    by_cases mine : (ps i).mac = mac
    · obtain ⟨carries, close⟩ := legible.2 mine
      exact honest.heard (follows legible.1) distinct inUse mine carries close (defined.2 mine)
    · exact honest.keep (by rw [windowLast, if_neg mine]) (fun _ => .inr)
        ⟨honest.echoes, fun same => absurd same mine⟩ (entries_heard mine undefinedShl _)
  met := by
    rintro ps trace τ t src payload new ⟨follows, holds⟩
    refine ⟨(mirror_traffic number mac).met τ t src payload new follows, fun legible defined => ?_⟩
    have honest := holds legible.1 defined.1
    have echoes : Echoes number mac ((τ, .heard t src none payload false) :: trace) :=
      ⟨honest.echoes, by rintro - ⟨⟩⟩
    by_cases mine : src = mac
    · refine ⟨fun last stands => ?_, echoes⟩
      rw [windowLast, if_pos mine] at stands
      cases stands
    · exact honest.keep (by rw [windowLast, if_neg mine]) (fun _ => .inr) echoes entries_refl
  delivered := by
    rintro ps trace τ t src payload vouched ⟨follows, holds⟩
    refine ⟨(mirror_traffic number mac).delivered τ t src payload vouched follows,
      fun legible defined => ?_⟩
    have honest := holds legible defined
    exact honest.keep rfl (fun _ h => h) honest.echoes entries_refl

end Honest

def Carried (copy : List Byte → History → Nat) (sent : List (List Byte)) (mac : Mac) :
    History → Prop
  | [] => True
  | (_, .heard _ src _ payload _) :: older =>
    Carried copy sent mac older ∧ (src = mac → sent[copy payload older]? = some payload)
  | _ :: older => Carried copy sent mac older

-- Every bundle of `mac` comes so close to `rx_seq_last` that 16 bits tell how they lie.
def Ordered (number : Numbering) (mac : Mac) : History → Prop
  | [] => True
  | (_, .heard _ src _ payload _) :: older =>
    Ordered number mac older ∧
      (src = mac → ∀ last, windowLast number mac older = some last →
        Close last (number payload older))
  | _ :: older => Ordered number mac older

section Both

variable {copy : List Byte → History → Nat} {sent : List (List Byte)} {mac : Mac}
  {trace : History}

theorem Carried.legible (carried : Carried copy sent mac trace)
    (counted : ∀ n q, sent[n]? = some q → (le16 q 3).toNat = n % 65535)
    (ordered : Ordered (fun p older => lineNumber (copy p older)) mac trace) :
    Legible (fun p older => lineNumber (copy p older)) mac trace := by
  induction trace with
  | nil => trivial
  | cons e older ih =>
    obtain ⟨τ, e⟩ := e
    cases e with
    | heard t src found payload retrans =>
      refine ⟨ih carried.1 ordered.1, fun mine => ⟨?_, ordered.2 mine⟩⟩
      exact ofInt_lineNumber (counted _ _ (carried.2 mine))
    | _ => exact ih carried ordered

theorem Carried.copied (carried : Carried copy sent mac trace) {n : Nat} {q : List Byte}
    (there : sent[n]? = some q)
    (came : Arrived (fun p older => lineNumber (copy p older)) mac (lineNumber n) trace) :
    Copied mac q trace := by
  induction trace with
  | nil => cases came
  | cons e older ih =>
    obtain ⟨τ, e⟩ := e
    cases e with
    | heard t src found payload retrans =>
      rcases came with ⟨rfl, same⟩ | before
      · have own := carried.2 rfl
        rw [lineNumber_injective same, there] at own
        cases own
        exact ⟨τ, t, found, retrans, List.mem_cons_self ..⟩
      · exact (ih carried.1 before).cons _
    | _ => exact (ih carried came).cons _

theorem Carried.seen_before (carried : Carried copy sent mac trace)
    (echoes : Echoes (fun p older => lineNumber (copy p older)) mac trace)
    {newer older : History} {τ t : Nat} {found : Option PeerIx} {q : List Byte}
    (split : trace = newer ++ (τ, .heard t mac found q true) :: older) : Copied mac q older := by
  subst split
  induction newer with
  | nil => exact carried.1.copied (carried.2 rfl) (echoes.2 rfl rfl)
  | cons e newer ih =>
    obtain ⟨τ', e⟩ := e
    cases e with
    | heard _ _ _ _ _ => exact ih carried.1 echoes.1
    | _ => exact ih carried echoes

end Both

-- The sender neither restarts nor evicts the entry.
theorem retransmission_received_before {σ : Type} [Platform σ] (a : Threads ρ) (b : Threads σ)
    (sender : Reachable a) (receiver : Reachable b) (i : PeerIx)
    (known : (a.body.peers i).inUse = true) (mac : Mac)
    (copy : List Byte → History → Nat)
    (carried : Carried copy (sentFrom i a.body.trace) mac b.body.trace)
    (ordered : Ordered (fun p older => lineNumber (copy p older)) mac b.body.trace)
    (defined : ShiftDefined (fun p older => lineNumber (copy p older)) mac b.body.trace)
    (newer older : History) (τ t : Nat) (found : Option PeerIx) (q : List Byte)
    (split : b.body.trace = newer ++ (τ, .heard t mac found q true) :: older) :
    Copied mac q older := by
  have counted := sender.traffic counted_traffic (by rintro _ ⟨⟩) i known
  have honest := (receiver.traffic (honest_traffic _ mac)
    ⟨fun _ => Mirror.start, fun _ _ => ⟨by rintro _ ⟨⟩, trivial⟩⟩).2
    (carried.legible counted.each ordered) defined
  exact carried.seen_before honest.echoes split

def sendOne (byte : Byte) : List (Move Board) :=
  .start 1 (.tx [byte] ownMac) :: List.replicate 3 (.resume 1) ++
    .start 1 .flush :: List.replicate 5 (.resume 1)

def bundleWith (seq : BitVec 16) (byte : Byte) : List Byte := bundleHdr seq 1 ++ [1, 0, byte]

theorem retransmission_received_before_again : ∃ a b older,
    playAll (sendOne 0x41) quietNode = some a ∧
      playAll knownSender quietNode = some b ∧
      sentFrom 0 a.body.trace = [bundleOf 0] ∧
      b.body.trace = (100000, .heard 1 remoteMac (some 0) (bundleOf 0) true) :: older ∧
      Copied remoteMac (bundleOf 0) older := by
  have sends : ∃ a ∈ playAll (sendOne 0x41) quietNode,
      (a.body.peers 0).inUse = true ∧ sentFrom 0 a.body.trace = [bundleOf 0] := by
    decide +kernel
  have hears : ∃ b ∈ playAll knownSender quietNode,
      b.body.trace = [(100000, .heard 1 remoteMac (some 0) (bundleOf 0) true),
        (100000, .delivered 1 remoteMac (bundleOf 0)),
        (100000, .heard 1 remoteMac (some 0) (bundleOf 0) false),
        (100000, .delivered 1 remoteMac [9]), (100000, .opened 0 remoteMac),
        (100000, .windowed 10)] := by
    decide +kernel
  obtain ⟨a, scriptA, reachA, known, sent⟩ := played sends
  obtain ⟨b, scriptB, reachB, trace⟩ := played hears
  refine ⟨a, b, _, scriptA, scriptB, sent, trace, ?_⟩
  refine retransmission_received_before a b reachA reachB 0 known remoteMac (fun _ _ => 0) ?_ ?_ ?_
    [] _ 100000 1 (some 0) (bundleOf 0) trace
  · rw [trace, sent]
    simp [Carried]
  · rw [trace]
    simp [Ordered, windowLast, holder, nextLast, lineNumber, Close]
  · rw [trace]
    simp [ShiftDefined, windowLast, holder, nextLast, lineNumber]

theorem new_bundle_swallowed_restart :
    (∃ a, playAll (sendOne 1 ++ sendOne 2) quietNode = some a ∧ Reachable a ∧
      sentFrom 0 a.body.trace = [bundleWith 0 1, bundleWith 1 2]) ∧
    (∃ a, playAll (sendOne 3 ++ sendOne 4) quietNode = some a ∧ Reachable a ∧
      sentFrom 0 a.body.trace = [bundleWith 0 3, bundleWith 1 4]) ∧
    ∃ b, playAll (receive (bundleWith 0 1) 5 ++ receive (bundleWith 1 2) 5 ++
        receive (bundleWith 1 4) 3) quietNode = some b ∧
      b.body.trace = [(100000, .heard 1 remoteMac (some 0) (bundleWith 1 4) true),
        (100000, .delivered 1 remoteMac (bundleWith 1 2)),
        (100000, .heard 1 remoteMac (some 0) (bundleWith 1 2) false),
        (100000, .delivered 1 remoteMac (bundleWith 0 1)), (100000, .opened 0 remoteMac),
        (100000, .heard 1 remoteMac none (bundleWith 0 1) false), (100000, .windowed 10)] ∧
      Reachable b ∧ ¬ Copied remoteMac (bundleWith 1 4) b.body.trace.tail := by
  refine ⟨played (by decide +kernel), played (by decide +kernel),
    played_then (by decide +kernel) fun b reach trace => ⟨reach, ?_⟩⟩
  simp [trace, Copied, bundleWith, bundleHdr]

end RnodeHalow.Ack
