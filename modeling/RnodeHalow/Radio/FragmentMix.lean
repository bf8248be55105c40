import RnodeHalow.Radio.FragmentOrder
import RnodeHalow.Shared.Runs

set_option autoImplicit false

namespace RnodeHalow.Radio

namespace Reasm

theorem offset_mono (r : Reasm) {i j : Nat} (le : i ≤ j) : r.offset i ≤ r.offset j :=
  ((List.range_sublist.mpr le).map r.partLen).sum_le_sum fun _ _ => Nat.zero_le _

def Open (r : Reasm) : Prop := r.active = true → r.received < r.total

def takes (seq : Nat) (fdata : List Byte) (r : Reasm) : Bool :=
  !r.malformed seq fdata && decide (r.partLen seq = 0) &&
    decide (r.offset seq + fdata.length ≤ fragBufSize)

def keeps (uuid : Byte) (now : BitVec 32) (r : Reasm) : Bool :=
  (r.expire now).active && decide ((r.expire now).uuid = uuid)

section Step

variable {seq total : Nat} {fdata : List Byte} {uuid : Byte} {now : BitVec 32} {r : Reasm}

theorem store_takes (taken : r.takes seq fdata = true) :
    r.store seq fdata =
      { r with
        buf := Buffer.put r.buf (r.offset seq) fdata
        partLen := Function.update r.partLen seq fdata.length
        received := r.received + 1 } := by
  simp only [takes, Bool.and_eq_true, Bool.not_eq_true', decide_eq_true_eq] at taken
  obtain ⟨⟨fine, empty⟩, room⟩ := taken
  simp [store, fine, empty, room]

theorem store_refuses (refused : r.takes seq fdata = false) :
    r.store seq fdata = r ∨ r.store seq fdata = r.dropped := by
  unfold store
  by_cases bad : r.malformed seq fdata = true
  · rw [if_pos bad]
    exact .inr rfl
  · by_cases known : r.partLen seq = 0
    · have full : ¬r.offset seq + fdata.length ≤ fragBufSize := by
        intro room
        simp [takes, bad, known, room] at refused
      rw [if_neg bad, if_neg (not_not_intro known), if_neg full]
      exact .inr rfl
    · rw [if_neg bad, if_pos known]
      exact .inl rfl

theorem begun_kept (kept : r.keeps uuid now = true) : r.begun uuid total now = r := by
  simp only [keeps, Bool.and_eq_true, decide_eq_true_eq] at kept
  obtain ⟨active, same⟩ := kept
  have fresh : r.expire now = r := by
    unfold expire at active ⊢
    split at active
    · cases active
    · rw [if_neg ‹_›]
  rw [fresh] at active same
  simp [begun, fresh, active, same]

theorem begun_reset (other : r.keeps uuid now = false) :
    r.begun uuid total now = (r.expire now).reset uuid total := by
  have cond : (r.expire now).active = false ∨ (r.expire now).uuid ≠ uuid := by
    by_cases active : (r.expire now).active = true
    · simp only [keeps, active, Bool.true_and, decide_eq_false_iff_not] at other
      exact .inr other
    · exact .inl (by simpa using active)
  exact if_pos cond

theorem kept_active (kept : r.keeps uuid now = true) : r.active = true := by
  by_contra idle
  have fresh : r.expire now = r := by simp [expire, idle]
  simp [keeps, fresh, idle] at kept

theorem begun_open (isOpen : r.Open) (some : 0 < total) :
    (r.begun uuid total now).received < (r.begun uuid total now).total := by
  by_cases kept : r.keeps uuid now = true
  · rw [begun_kept kept]
    exact isOpen (kept_active kept)
  · rw [begun_reset (by simpa using kept)]
    exact some

end Step

theorem finish_open (seq : Nat) (fdata : List Byte) (now : BitVec 32) (hdr : RxHdr) (r : Reasm)
    (room : r.received < r.total) :
    (finish hdr { r.store seq fdata with lastTick := now }).1.Open := by
  have count : (r.store seq fdata).received ≤ (r.store seq fdata).total := by
    by_cases taken : r.takes seq fdata = true
    · rw [store_takes taken]
      exact room
    · rcases store_refuses (by simpa using taken) with same | same <;> rw [same]
      · exact Nat.le_of_lt room
      · exact Nat.le_of_lt room
  unfold finish
  by_cases done : complete { r.store seq fdata with lastTick := now } = true
  · rw [if_pos done]
    intro active
    cases active
  · rw [if_neg done]
    intro _
    have short : (r.store seq fdata).received ≠ (r.store seq fdata).total := by
      simpa [complete] using done
    exact Nat.lt_of_le_of_ne count short

end Reasm

theorem rx_open (f : RxFrame) (r : Reasm) (isOpen : r.Open) : (halowLmacRxMcs10 f r).1.Open := by
  unfold halowLmacRxMcs10
  dsimp only
  split
  · exact isOpen
  · split
    · exact isOpen
    · split
      · exact isOpen
      · split
        · exact isOpen
        · exact Reasm.finish_open _ _ _ _ _ (Reasm.begun_open isOpen (by omega))

def Settled (data : List Byte) (arrived : List Nat) (r : Reasm) : Prop :=
  ∀ i ∈ arrived, (∀ j < i, j ∈ arrived) → Placed data [i] r

theorem Settled.store {uuid : Byte} {data : List Byte} {arrived : List Nat} {r : Reasm} {i : Nat}
    (settled : Settled data arrived r) (tracks : Tracks uuid data arrived r)
    (fits : data.length ≤ fragBufSize) (within : i < fragCount data.length) (now : BitVec 32)
    (last : ∀ j ∈ arrived, j < i) :
    Settled data (arrived ++ [i]) { r.store i (fragPart data i) with lastTick := now } := by
  have new : i ∉ arrived := fun mem => Nat.lt_irrefl i (last i mem)
  by_cases full : ∀ j < i, j ∈ arrived
  · have placed : Placed data arrived r := fun j mem =>
      settled j mem (fun k below => full k (below.trans (last j mem))) j (List.mem_singleton.mpr rfl)
    have next := placed.store tracks fits within now fun _ => full
    intro j mem _ k same
    rw [List.mem_singleton.mp same]
    exact next j mem
  · intro j mem lower
    rcases List.mem_append.mp mem with old | same
    · have below : ∀ k < j + 1, k ∈ arrived := by
        intro k lt
        rcases Nat.lt_succ_iff_lt_or_eq.mp lt with less | rfl
        · rcases List.mem_append.mp (lower k less) with found | last'
          · exact found
          · have bound := last j old
            rw [List.mem_singleton.mp last'] at less
            omega
        · exact old
      -- The new fragment goes behind what the fragments up to `j` fill.
      have front : min (300 * (j + 1)) data.length ≤ r.offset i := by
        rw [← tracks.offset_full below]
        exact r.offset_mono (last j old)
      rw [tracks.store_new fits within new]
      intro k same p from_k inside
      have size := fragPart_length data k
      have before := settled j old (fun k lt => below k (by omega)) k same p from_k inside
      rw [List.mem_singleton.mp same] at from_k inside size
      refine (Buffer.put_outside ?_).trans before
      omega
    · rw [List.mem_singleton.mp same] at lower
      refine absurd (fun k lt => ?_) full
      rcases List.mem_append.mp (lower k lt) with found | itself
      · exact found
      · rw [List.mem_singleton.mp itself] at lt
        omega

structure Arrival where
  sender : Mac
  packet : Nat
  index : Nat
  addr3 : Mac
  now : BitVec 32

namespace Arrival

variable (sent : Mac → Nat → List Byte)

def data (a : Arrival) : List Byte := sent a.sender a.packet

def uuid (a : Arrival) : Byte := BitVec.ofNat 8 (a.packet + 1)

def total (a : Arrival) : Nat := fragCount (a.data sent).length

def part (a : Arrival) : List Byte := fragPart (a.data sent) a.index

def hdr (a : Arrival) : RxHdr := ⟨a.sender, a.addr3⟩

def frame (a : Arrival) : RxFrame := ⟨fragFrame a.uuid (a.data sent) a.index, a.hdr, a.now⟩

structure Genuine (a : Arrival) : Prop where
  fits : (a.data sent).length ≤ fragBufSize
  within : a.index < a.total sent

def SamePacket (a b : Arrival) : Prop := a.sender = b.sender ∧ a.packet = b.packet

end Arrival

structure Receiver where
  reasm : Reasm
  parts : List Arrival

namespace Receiver

variable (sent : Mac → Nat → List Byte)

def stores (a : Arrival) (x : Receiver) : Bool :=
  (x.reasm.begun a.uuid (a.total sent) a.now).takes a.index (a.part sent)

def partsAfter (a : Arrival) (x : Receiver) : List Arrival :=
  if a.total sent = 1 then x.parts
  else
    let old := if x.reasm.keeps a.uuid a.now then x.parts else []
    if x.stores sent a then a :: old else old

def filled (x : Receiver) (a : Arrival) : Reasm :=
  { (x.reasm.begun a.uuid (a.total sent) a.now).store a.index (a.part sent) with lastTick := a.now }

def receive (x : Receiver) (a : Arrival) : Receiver :=
  ⟨(halowLmacRxMcs10 (a.frame sent) x.reasm).1, x.partsAfter sent a⟩

def call (x : Receiver) (a : Arrival) : Option RxCall :=
  (halowLmacRxMcs10 (a.frame sent) x.reasm).2

def after (arrivals : List Arrival) : Receiver := arrivals.foldl (receive sent) ⟨bootReasm, []⟩

variable {sent} {x : Receiver} {a : Arrival}

theorem receive_single (genuine : a.Genuine sent) (one : a.total sent = 1) :
    (x.receive sent a).reasm = x.reasm ∧ x.call sent a = some ⟨a.hdr, a.data sent⟩ := by
  have zero : a.index = 0 := by
    have within := genuine.within
    omega
  have rx := rx_single (f := a.frame sent) one (by rw [Arrival.frame, zero]) x.reasm
  exact ⟨congrArg Prod.fst rx, congrArg Prod.snd rx⟩

theorem receive_fragment (genuine : a.Genuine sent) (several : a.total sent ≠ 1) :
    halowLmacRxMcs10 (a.frame sent) x.reasm = Reasm.finish a.hdr (x.filled sent a) := by
  have within := genuine.within
  exact rx_fragment genuine.fits (show 2 ≤ a.total sent by omega) within rfl x.reasm

def indices (parts : List Arrival) : List Nat := (parts.map (·.index)).reverse

theorem indices_cons (a : Arrival) (parts : List Arrival) :
    indices (a :: parts) = indices parts ++ [a.index] := by
  simp [indices]

theorem partsAfter_stored (several : a.total sent ≠ 1) (stored : x.stores sent a = true) :
    x.partsAfter sent a = a :: if x.reasm.keeps a.uuid a.now then x.parts else [] := by
  rw [partsAfter, if_neg several, if_pos stored]

theorem completing (isOpen : x.reasm.Open) (genuine : a.Genuine sent)
    (several : a.total sent ≠ 1) {c : RxCall} (calls : x.call sent a = some c) :
    x.stores sent a = true ∧ (x.filled sent a).complete = true ∧
      c = ⟨a.hdr, (x.filled sent a).output⟩ := by
  have within := genuine.within
  have room : (x.reasm.begun a.uuid (a.total sent) a.now).received <
      (x.reasm.begun a.uuid (a.total sent) a.now).total :=
    Reasm.begun_open isOpen (by omega)
  rw [call, receive_fragment genuine several, Reasm.finish] at calls
  split at calls
  next done =>
    refine ⟨?_, done, (Option.some.inj calls).symm⟩
    by_contra refused
    simp only [Reasm.complete, beq_iff_eq] at done
    rw [filled] at done
    rcases Reasm.store_refuses (Bool.eq_false_iff.mpr refused) with same | same
    · rw [same] at done
      exact Nat.ne_of_lt room done
    · rw [same] at done
      exact Nat.ne_of_lt room done
  next => cases calls

-- Each stored fragment whose earlier ones are stored too stands at its place in the packet.
structure Gathers (sent : Mac → Nat → List Byte) (sender : Mac) (packet : Nat) (r : Reasm)
    (parts : List Arrival) : Prop where
  fits : (sent sender packet).length ≤ fragBufSize
  own : ∀ p ∈ parts, p.sender = sender ∧ p.packet = packet
  within : ∀ p ∈ parts, p.index < fragCount (sent sender packet).length
  tracks : Tracks (BitVec.ofNat 8 (packet + 1)) (sent sender packet) (indices parts) r
  settled : Settled (sent sender packet) (indices parts) r

namespace Gathers

variable {sender : Mac} {packet : Nat} {r : Reasm} {parts : List Arrival}

theorem reset (genuine : a.Genuine sent) (r : Reasm) :
    Gathers sent a.sender a.packet (r.reset a.uuid (a.total sent)) [] where
  fits := genuine.fits
  own p mem := by cases mem
  within p mem := by cases mem
  tracks := Tracks.reset _ _ r
  settled i mem := by cases mem

theorem store (gathers : Gathers sent a.sender a.packet r parts) (genuine : a.Genuine sent)
    (later : ∀ p ∈ parts, p.index < a.index) :
    Gathers sent a.sender a.packet { r.store a.index (a.part sent) with lastTick := a.now }
      (a :: parts) where
  fits := gathers.fits
  own := List.forall_mem_cons.mpr ⟨⟨rfl, rfl⟩, gathers.own⟩
  within := List.forall_mem_cons.mpr ⟨genuine.within, gathers.within⟩
  tracks := by
    rw [indices_cons]
    exact gathers.tracks.store gathers.fits genuine.within a.now
  settled := by
    rw [indices_cons]
    refine gathers.settled.store gathers.tracks gathers.fits genuine.within a.now ?_
    simpa [indices] using later

theorem refuse (gathers : Gathers sent sender packet r parts)
    (refused : r.takes a.index (a.part sent) = false) :
    Gathers sent sender packet { r.store a.index (a.part sent) with lastTick := a.now } parts := by
  obtain ⟨fits, own, within, tracks, settled⟩ := gathers
  refine ⟨fits, own, within, ?_, ?_⟩
  all_goals rcases Reasm.store_refuses refused with same | same <;> rw [same]
  · exact ⟨tracks.active, tracks.uuid, tracks.total, tracks.partLen, tracks.received⟩
  · exact ⟨tracks.active, tracks.uuid, tracks.total, tracks.partLen, tracks.received⟩
  · exact settled
  · exact settled

theorem deliver (gathers : Gathers sent sender packet r parts) (complete : r.complete = true) :
    r.output = sent sender packet := by
  have inside : ∀ i ∈ indices parts, i < fragCount (sent sender packet).length := by
    simpa [indices] using gathers.within
  have all := (gathers.tracks.complete_iff inside).mp complete
  refine Placed.output (fun i mem => ?_) gathers.tracks all
  exact gathers.settled i mem (fun j below => all j (below.trans (inside i mem))) i
    (List.mem_singleton.mpr rfl)

end Gathers

-- What is stored into a begun reassembly is of the same packet, and after what is stored there.
def Continues (sent : Mac → Nat → List Byte) (x : Receiver) (a : Arrival) : Prop :=
  a.total sent ≠ 1 → x.reasm.keeps a.uuid a.now = true → x.stores sent a = true →
    ∀ p ∈ x.parts, p.SamePacket a ∧ p.index < a.index

instance (sent : Mac → Nat → List Byte) (x : Receiver) (a : Arrival) :
    Decidable (x.Continues sent a) := by
  unfold Continues Arrival.SamePacket
  infer_instance

structure Ordered (sent : Mac → Nat → List Byte) (x : Receiver) : Prop where
  isOpen : x.reasm.Open
  gathers : x.reasm.active = true →
    x.parts ≠ [] ∧ ∃ sender packet, Gathers sent sender packet x.reasm x.parts

theorem stores_first (genuine : a.Genuine sent) (other : x.reasm.keeps a.uuid a.now = false) :
    x.stores sent a = true := by
  have tracks := Tracks.reset a.uuid (a.data sent) (x.reasm.expire a.now)
  obtain ⟨fine, -⟩ := tracks.wellFormed genuine.within
  have room := tracks.offset_le a.index
  have size := fragPart_length (a.data sent) a.index
  have fits := genuine.fits
  have inside := lt_fragCount_iff.mp genuine.within
  have empty := tracks.partLen a.index
  rw [stores, Reasm.begun_reset other, Reasm.takes, Arrival.part, Arrival.total, fine, empty]
  simp only [Bool.not_false, Bool.true_and, List.not_mem_nil, if_false, decide_true,
    decide_eq_true_eq]
  omega

theorem Ordered.filled (ordered : x.Ordered sent) (genuine : a.Genuine sent)
    (several : a.total sent ≠ 1) (continues : x.Continues sent a) :
    x.partsAfter sent a ≠ [] ∧ ∃ sender packet,
      Gathers sent sender packet (x.filled sent a) (x.partsAfter sent a) ∧
        (x.stores sent a = true → sender = a.sender ∧ packet = a.packet) := by
  by_cases kept : x.reasm.keeps a.uuid a.now = true
  · obtain ⟨some, sender, packet, gathers⟩ := ordered.gathers (Reasm.kept_active kept)
    by_cases stored : x.stores sent a = true
    · have joins := continues several kept stored
      obtain ⟨p, mem⟩ := List.exists_mem_of_ne_nil _ some
      obtain ⟨rfl, rfl⟩ : sender = a.sender ∧ packet = a.packet := by
        obtain ⟨ofSender, ofPacket⟩ := gathers.own p mem
        obtain ⟨⟨sameSender, samePacket⟩, -⟩ := joins p mem
        exact ⟨ofSender.symm.trans sameSender, ofPacket.symm.trans samePacket⟩
      rw [partsAfter_stored several stored, if_pos kept, Receiver.filled, Reasm.begun_kept kept]
      exact ⟨List.cons_ne_nil _ _, _, _, gathers.store genuine fun p mem => (joins p mem).2,
        fun _ => ⟨rfl, rfl⟩⟩
    · have same : x.partsAfter sent a = x.parts := by
        simp only [partsAfter, several, kept, stored, if_false, if_true]
        rfl
      have refused : x.reasm.takes a.index (a.part sent) = false := by
        rw [stores, Reasm.begun_kept kept] at stored
        exact Bool.eq_false_iff.mpr stored
      rw [same, Receiver.filled, Reasm.begun_kept kept]
      exact ⟨some, sender, packet, gathers.refuse refused, fun taken => absurd taken stored⟩
  · have other : x.reasm.keeps a.uuid a.now = false := Bool.eq_false_iff.mpr kept
    rw [partsAfter_stored several (stores_first genuine other), if_neg kept, Receiver.filled,
      Reasm.begun_reset other]
    exact ⟨List.cons_ne_nil _ _, _, _, (Gathers.reset genuine _).store genuine nofun,
      fun _ => ⟨rfl, rfl⟩⟩

theorem Ordered.receive (ordered : x.Ordered sent) (genuine : a.Genuine sent)
    (continues : x.Continues sent a) : (x.receive sent a).Ordered sent := by
  refine ⟨rx_open (a.frame sent) x.reasm ordered.isOpen, ?_⟩
  by_cases one : a.total sent = 1
  · obtain ⟨same, -⟩ := receive_single (x := x) genuine one
    have parts : (x.receive sent a).parts = x.parts := if_pos one
    rw [same, parts]
    exact ordered.gathers
  · obtain ⟨some, sender, packet, gathers, -⟩ := ordered.filled genuine one continues
    rw [Receiver.receive, receive_fragment genuine one, Reasm.finish]
    split
    next => exact fun active => by cases active
    next => exact fun _ => ⟨some, sender, packet, gathers⟩

end Receiver

section Runs

variable (sent : Mac → Nat → List Byte)

open Receiver

def Joins (arrivals : List Arrival) : Prop :=
  ∀ before a later, arrivals = before ++ a :: later → (after sent before).Continues sent a

-- What is passed on is a whole packet, with a header of its sender.
def Unmixed (arrivals : List Arrival) : Prop :=
  ∀ before a later c, arrivals = before ++ a :: later → a.total sent ≠ 1 →
    (after sent before).call sent a = some c → c.hdr.addr2 = a.sender ∧ c.data = a.data sent

variable {sent}

theorem Joins.ordered {arrivals before later : List Arrival} (joins : Joins sent arrivals)
    (genuine : ∀ a ∈ arrivals, a.Genuine sent) (split : arrivals = before ++ later) :
    (after sent before).Ordered sent := by
  have along : Runs.Along (receive sent) (fun x a => a.Genuine sent ∧ x.Continues sent a)
      ⟨bootReasm, []⟩ arrivals :=
    fun before a later split => ⟨genuine a (by simp [split]), joins before a later split⟩
  refine along.holds_at (P := Ordered sent) ?_ ?_ split
  · constructor
    · intro active
      cases active
    · intro active
      cases active
  · rintro x a ordered ⟨genuine, continues⟩
    exact ordered.receive genuine continues

theorem packets_unmixed_of_joins (sent : Mac → Nat → List Byte) (arrivals : List Arrival)
    (genuine : ∀ a ∈ arrivals, a.Genuine sent) (joins : Joins sent arrivals) :
    Unmixed sent arrivals := by
  intro before a later c split several calls
  have ordered := joins.ordered genuine split
  have own : a.Genuine sent := genuine a (by simp [split])
  obtain ⟨stored, complete, rfl⟩ := completing ordered.isOpen own several calls
  obtain ⟨-, sender, packet, gathers, same⟩ :=
    ordered.filled own several (joins before a later split)
  obtain ⟨rfl, rfl⟩ := same stored
  exact ⟨rfl, gathers.deliver complete⟩

end Runs

def senderA : Mac := ⟨2, 0, 0, 0, 0, 0xA⟩
def senderB : Mac := ⟨2, 0, 0, 0, 0, 0xB⟩

def repeated (sender : Mac) (_ : Nat) : List Byte := List.replicate 301 sender.b5

def fragmentOf (sender : Mac) (packet index : Nat) : Arrival :=
  ⟨sender, packet, index, macBroadcast, 0⟩

-- Two senders with the same uuids; a packet of `B` is cut short by the next of `A`.
def interleaved : List Arrival :=
  [fragmentOf senderA 0 0, fragmentOf senderA 0 1, fragmentOf senderB 0 0, fragmentOf senderA 1 0,
    fragmentOf senderB 0 1, fragmentOf senderB 1 0, fragmentOf senderB 1 1]

theorem interleaved_genuine : ∀ a ∈ interleaved, a.Genuine repeated := by
  intro a mem
  have within : ∀ a ∈ interleaved, a.index < 2 := by decide
  constructor
  · change (List.replicate 301 a.sender.b5).length ≤ 2400
    rw [List.length_replicate]
    decide
  · change a.index < fragCount (List.replicate 301 a.sender.b5).length
    rw [List.length_replicate]
    exact within a mem

theorem packets_unmixed_of_joins_interleaved :
    (∀ a ∈ interleaved, a.Genuine repeated) ∧ Joins repeated interleaved ∧
      (∃ c, (Receiver.after repeated (interleaved.take 1)).call repeated (fragmentOf senderA 0 1) =
        some c ∧ c.hdr.addr2 = senderA ∧ c.data = List.replicate 301 0xA) ∧
      ∃ c, (Receiver.after repeated (interleaved.take 6)).call repeated (fragmentOf senderB 1 1) =
        some c ∧ c.hdr.addr2 = senderB ∧ c.data = List.replicate 301 0xB := by
  have joins : Joins repeated interleaved := by
    have along := Runs.along_of_check
      (show Runs.check (Receiver.receive repeated) (fun x a => decide (x.Continues repeated a))
        ⟨bootReasm, []⟩ interleaved = true by decide +kernel)
    exact fun before a later split => of_decide_eq_true (along before a later split)
  have unmixed := packets_unmixed_of_joins repeated interleaved interleaved_genuine joins
  have first : ((Receiver.after repeated (interleaved.take 1)).call repeated
      (fragmentOf senderA 0 1)).isSome = true := by
    decide +kernel
  have second : ((Receiver.after repeated (interleaved.take 6)).call repeated
      (fragmentOf senderB 1 1)).isSome = true := by
    decide +kernel
  obtain ⟨c, calls⟩ := Option.isSome_iff_exists.mp first
  obtain ⟨d, ends⟩ := Option.isSome_iff_exists.mp second
  refine ⟨interleaved_genuine, joins, ⟨c, calls, ?_⟩, d, ends, ?_⟩
  · exact unmixed (interleaved.take 1) _ (interleaved.drop 2) c rfl (by decide +kernel) calls
  · exact unmixed (interleaved.take 6) _ [] d rfl (by decide +kernel) ends

-- A fragment of `B` completes a packet of `A`; a wrong order leaves an old byte of `B` in a packet.
theorem packets_mixed_same_uuid :
    (Receiver.after repeated [fragmentOf senderA 0 0]).call repeated (fragmentOf senderB 0 1) =
        some ⟨⟨senderB, macBroadcast⟩, List.replicate 300 0xA ++ [0xB]⟩ ∧
      (Receiver.after repeated [fragmentOf senderB 0 0, fragmentOf senderB 0 1,
        fragmentOf senderA 0 1]).call repeated (fragmentOf senderA 0 0) =
          some ⟨⟨senderA, macBroadcast⟩, List.replicate 300 0xA ++ [0xB]⟩ := by
  decide +kernel

end RnodeHalow.Radio
