import RnodeHalow.Radio.Reassembly
import Mathlib.Algebra.Order.BigOperators.Group.List
import Mathlib.Algebra.Order.Group.Nat

set_option autoImplicit false

namespace RnodeHalow.Radio

theorem fragPart_length (data : List Byte) (i : Nat) :
    (fragPart data i).length = min 300 (data.length - 300 * i) := by
  simp [fragPart, fragMaxPayload, Nat.mul_comm]

theorem fragPart_sum (data : List Byte) (i : Nat) :
    ((List.range i).map fun j => (fragPart data j).length).sum = min (300 * i) data.length := by
  induction i with
  | zero => simp
  | succ i ih =>
    rw [List.range_succ, List.map_append, List.sum_append, ih]
    simp only [List.map_cons, List.map_nil, List.sum_cons, List.sum_nil, fragPart_length]
    omega

section Count

variable {len i : Nat}

theorem fragCount_le (fits : len ≤ fragBufSize) : fragCount len ≤ 8 := by
  simp only [fragCount, fragBufSize, fragMaxPayload, fragMaxTotal] at *
  omega

theorem lt_fragCount_iff : i < fragCount len ↔ 300 * i < len := by
  simp only [fragCount, fragMaxPayload]
  omega

end Count

theorem fragHeader (n i : Nat) (small : n ≤ 8) (within : i < n) :
    (BitVec.ofNat 8 (n <<< 4 ||| i) >>> 4).toNat = n ∧
      (BitVec.ofNat 8 (n <<< 4 ||| i) &&& 0x0F#8).toNat = i := by
  have all : ∀ n < 9, ∀ i < n, (BitVec.ofNat 8 (n <<< 4 ||| i) >>> 4).toNat = n ∧
      (BitVec.ofNat 8 (n <<< 4 ||| i) &&& 0x0F#8).toNat = i := by
    decide
  exact all n (by omega) i within

section Receive

variable {data : List Byte} {uuid : Byte} {f : RxFrame} {i : Nat}

theorem rx_single (one : fragCount data.length = 1) (frame : f.payload = fragFrame uuid data 0)
    (r : Reasm) : halowLmacRxMcs10 f r = (r, some ⟨f.hdr, data⟩) := by
  have whole : fragPart data 0 = data := by
    have bound := lt_fragCount_iff.not.mp (show ¬1 < fragCount data.length by omega)
    rw [fragPart, Nat.zero_mul, List.drop_zero]
    exact List.take_of_length_le (by simp only [fragMaxPayload]; omega)
  obtain ⟨total, -⟩ := fragHeader 1 0 (by decide) (by decide)
  rw [fragFrame, one, whole] at frame
  simp only [halowLmacRxMcs10, frame, byteAt, List.getD_cons_zero, total]
  simp [fragHdrSize, fragMaxTotal]

theorem rx_fragment (fits : data.length ≤ fragBufSize) (several : 2 ≤ fragCount data.length)
    (within : i < fragCount data.length) (frame : f.payload = fragFrame uuid data i) (r : Reasm) :
    halowLmacRxMcs10 f r =
      Reasm.finish f.hdr { (r.begun uuid (fragCount data.length) f.now).store i (fragPart data i)
        with lastTick := f.now } := by
  have small := fragCount_le fits
  obtain ⟨total, seq⟩ := fragHeader (fragCount data.length) i small within
  rw [fragFrame] at frame
  generalize fragCount data.length = n at *
  simp only [halowLmacRxMcs10, frame, byteAt, List.getD_cons_zero, List.getD_cons_succ, total, seq]
  have long : ¬(BitVec.ofNat 8 (n <<< 4 ||| i) :: uuid :: fragPart data i).length < fragHdrSize := by
    simp [fragHdrSize]
  rw [if_neg long, if_neg (by omega), if_neg (by simp only [fragMaxTotal]; omega),
    if_neg (by omega)]
  rfl

end Receive

structure Tracks (uuid : Byte) (data : List Byte) (arrived : List Nat) (r : Reasm) : Prop where
  active : r.active = true
  uuid : r.uuid = uuid
  total : r.total = fragCount data.length
  partLen : ∀ i, r.partLen i = if i ∈ arrived then (fragPart data i).length else 0
  received : r.received = arrived.toFinset.card

namespace Tracks

variable {uuid : Byte} {data : List Byte} {arrived : List Nat} {r : Reasm} {i : Nat}

theorem reset (uuid : Byte) (data : List Byte) (r : Reasm) :
    Tracks uuid data [] (r.reset uuid (fragCount data.length)) :=
  ⟨rfl, rfl, rfl, fun i => by simp [Reasm.reset], rfl⟩

theorem offset_eq (tracks : Tracks uuid data arrived r) (i : Nat) :
    r.offset i =
      ((List.range i).map fun j => if j ∈ arrived then (fragPart data j).length else 0).sum := by
  rw [Reasm.offset]
  congr 2
  funext j
  exact tracks.partLen j

theorem offset_full (tracks : Tracks uuid data arrived r) (all : ∀ j < i, j ∈ arrived) :
    r.offset i = min (300 * i) data.length := by
  rw [tracks.offset_eq, ← fragPart_sum]
  congr 1
  apply List.map_congr_left
  intro j mem
  rw [if_pos (all j (List.mem_range.mp mem))]

theorem offset_le (tracks : Tracks uuid data arrived r) (i : Nat) :
    r.offset i ≤ min (300 * i) data.length := by
  rw [tracks.offset_eq, ← fragPart_sum]
  apply List.sum_le_sum
  intro j _
  split
  · exact Nat.le_refl _
  · exact Nat.zero_le _

theorem offset_missing (tracks : Tracks uuid data arrived r) {j : Nat} (before : j < i)
    (missing : j ∉ arrived) : r.offset i + 300 ≤ 300 * i := by
  rw [tracks.offset_eq]
  induction i with
  | zero => omega
  | succ i ih =>
    rw [List.range_succ, List.map_append, List.sum_append]
    simp only [List.map_cons, List.map_nil, List.sum_cons, List.sum_nil, Nat.add_zero]
    have part : (fragPart data i).length ≤ 300 := by rw [fragPart_length]; omega
    rcases Nat.lt_succ_iff_lt_or_eq.mp before with less | rfl
    · have most := ih less
      split <;> omega
    · have most := tracks.offset_le j
      rw [tracks.offset_eq] at most
      rw [if_neg missing]
      omega

theorem wellFormed (tracks : Tracks uuid data arrived r) (within : i < fragCount data.length) :
    r.malformed i (fragPart data i) = false ∧ 0 < (fragPart data i).length := by
  have size := fragPart_length data i
  have inside := lt_fragCount_iff.mp within
  have below : ¬i ≥ r.total := by
    rw [tracks.total]
    omega
  have some : ¬(fragPart data i).length = 0 := by omega
  have short : ¬(fragPart data i).length > fragMaxPayload := by
    simp only [fragMaxPayload]
    omega
  refine ⟨?_, by omega⟩
  rw [Reasm.malformed, decide_eq_false below, decide_eq_false some, decide_eq_false short]
  rfl

theorem store_known (tracks : Tracks uuid data arrived r) (within : i < fragCount data.length)
    (known : i ∈ arrived) : r.store i (fragPart data i) = r := by
  obtain ⟨fine, some⟩ := tracks.wellFormed within
  have stored : r.partLen i ≠ 0 := by
    rw [tracks.partLen, if_pos known]
    omega
  simp [Reasm.store, fine, stored]

theorem store_new (tracks : Tracks uuid data arrived r) (fits : data.length ≤ fragBufSize)
    (within : i < fragCount data.length) (new : i ∉ arrived) :
    r.store i (fragPart data i) =
      { r with
        buf := Buffer.put r.buf (r.offset i) (fragPart data i)
        partLen := Function.update r.partLen i (fragPart data i).length
        received := r.received + 1 } := by
  have size := fragPart_length data i
  have inside := lt_fragCount_iff.mp within
  obtain ⟨fine, -⟩ := tracks.wellFormed within
  have empty : r.partLen i = 0 := by rw [tracks.partLen, if_neg new]
  have room : r.offset i + (fragPart data i).length ≤ fragBufSize := by
    have most := tracks.offset_le i
    omega
  simp [Reasm.store, fine, empty, room]

theorem store (tracks : Tracks uuid data arrived r) (fits : data.length ≤ fragBufSize)
    (within : i < fragCount data.length) (now : BitVec 32) :
    Tracks uuid data (arrived ++ [i]) { r.store i (fragPart data i) with lastTick := now } := by
  by_cases known : i ∈ arrived
  · rw [tracks.store_known within known]
    refine ⟨tracks.active, tracks.uuid, tracks.total, fun j => ?_, ?_⟩
    · rw [tracks.partLen j]
      by_cases same : j = i
      · subst same
        simp [known]
      · simp [same]
    · rw [tracks.received]
      congr 1
      ext j
      simp only [List.mem_toFinset, List.mem_append, List.mem_singleton]
      constructor
      · exact .inl
      · rintro (old | rfl)
        · exact old
        · exact known
  · rw [tracks.store_new fits within known]
    refine ⟨tracks.active, tracks.uuid, tracks.total, fun j => ?_, ?_⟩
    · by_cases same : j = i
      · subst same
        simp
      · simp [tracks.partLen j, same]
    · have grown : (arrived ++ [i]).toFinset = insert i arrived.toFinset := by
        ext j
        simp
      simp only [tracks.received, grown]
      rw [Finset.card_insert_of_notMem (by simpa using known)]

theorem complete_iff (tracks : Tracks uuid data arrived r)
    (within : ∀ i ∈ arrived, i < fragCount data.length) :
    r.complete = true ↔ ∀ i < fragCount data.length, i ∈ arrived := by
  have part : arrived.toFinset ⊆ Finset.range (fragCount data.length) := by
    intro i mem
    simpa using within i (by simpa using mem)
  rw [Reasm.complete, beq_iff_eq, tracks.received, tracks.total]
  constructor
  · intro card i below
    have whole := Finset.eq_of_subset_of_card_le part (by simp [card])
    have mem : i ∈ arrived.toFinset := by
      rw [whole]
      simpa using below
    simpa using mem
  · intro all
    have whole : arrived.toFinset = Finset.range (fragCount data.length) := by
      apply Finset.Subset.antisymm part
      intro i mem
      simpa using all i (by simpa using mem)
    rw [whole, Finset.card_range]

theorem begun (tracks : Tracks uuid data arrived r) {now : BitVec 32}
    (prompt : (now - r.lastTick).toNat ≤ fragTimeoutMs) :
    r.begun uuid (fragCount data.length) now = r := by
  have kept : r.expire now = r := by
    rw [Reasm.expire, if_neg (by omega)]
  simp [Reasm.begun, kept, tracks.active, tracks.uuid]

end Tracks

-- All fragments arrive, and the last one completes them.
structure Delivery (n : Nat) (order : List Nat) : Prop where
  all : ∀ i, i ∈ order ↔ i < n
  last : ∃ pre last, order = pre ++ [last] ∧ last ∉ pre

theorem Delivery.open_before {n j : Nat} {order before rest : List Nat}
    (delivery : Delivery n order) (split : order = before ++ j :: rest) :
    ¬∀ i < n, i ∈ before := by
  obtain ⟨pre, last, cut, new⟩ := delivery.last
  intro all
  have mem : last ∈ before := all last ((delivery.all last).mp (by simp [cut]))
  have inside : before <+: pre := by
    have sizes := congrArg List.length (cut.symm.trans split)
    simp only [List.length_append, List.length_cons, List.length_nil] at sizes
    exact List.prefix_of_prefix_length_le ⟨j :: rest, split.symm⟩ ⟨[last], cut.symm⟩ (by omega)
  exact new (inside.subset mem)

variable {order : List Nat} {uuid : Byte} {r : Reasm}

theorem Delivery.single (delivery : Delivery 1 order) : order = [0] := by
  obtain ⟨pre, last, rfl, new⟩ := delivery.last
  have zero (i : Nat) (mem : i ∈ pre ++ [last]) : i = 0 :=
    Nat.lt_one_iff.mp ((delivery.all i).mp mem)
  obtain rfl := zero last (by simp)
  cases pre with
  | nil => rfl
  | cons i rest =>
    rw [zero i (by simp)] at new
    simp at new

def Prompt (frames : List RxFrame) : Prop :=
  frames.IsChain fun f g => (g.now - f.now).toNat < fragTimeoutMs

def Carries (uuid : Byte) (data : List Byte) (order : List Nat) (frames : List RxFrame) : Prop :=
  frames.map (·.payload) = order.map (fragFrame uuid data)

section Run

variable {uuid : Byte} {data : List Byte} {order : List Nat} {J : List Nat → Reasm → Prop}
  (fits : data.length ≤ fragBufSize) (several : 2 ≤ fragCount data.length)
  (delivery : Delivery (fragCount data.length) order)
  (step : ∀ before i after r now, order = before ++ i :: after → Tracks uuid data before r →
    J before r → J (before ++ [i]) { r.store i (fragPart data i) with lastTick := now })

include fits several delivery step

theorem receive_rest (rest before : List Nat) (frames : List RxFrame) (r r0 : Reasm)
    (split : order = before ++ rest) (more : rest ≠ []) (carries : Carries uuid data rest frames)
    (prompt : Prompt frames)
    (ready : ∀ f ∈ frames.head?, r.begun uuid (fragCount data.length) f.now = r0)
    (tracks : Tracks uuid data before r0) (kept : J before r0) :
    ∃ r' hdr, Tracks uuid data order r' ∧ J order r' ∧
      (receiveAll frames r).2 = [⟨hdr, r'.output⟩] := by
  induction rest generalizing before frames r r0 with
  | nil => exact absurd rfl more
  | cons i rest ih =>
    cases frames with
    | nil => cases carries
    | cons f frames =>
      obtain ⟨frame, carries⟩ := List.cons_eq_cons.mp carries
      have within : i < fragCount data.length := (delivery.all i).mp (by simp [split])
      have rx := rx_fragment fits several within frame r
      rw [ready f rfl] at rx
      have next := tracks.store fits within f.now
      have kept' := step before i rest r0 f.now split tracks kept
      have stamp : ({ r0.store i (fragPart data i) with lastTick := f.now } : Reasm).lastTick =
        f.now := rfl
      have seen : ∀ j ∈ before ++ [i], j < fragCount data.length := by
        intro j mem
        refine (delivery.all j).mp ?_
        rw [split]
        simp only [List.mem_append, List.mem_cons] at mem ⊢
        tauto
      simp only [receiveAll, rx]
      generalize ({ r0.store i (fragPart data i) with lastTick := f.now } : Reasm) = r'
        at next kept' stamp ⊢
      cases rest with
      | nil =>
        have done : r'.complete = true := by
          refine (next.complete_iff seen).mpr fun j below => ?_
          rw [← split]
          exact (delivery.all j).mpr below
        obtain rfl : frames = [] := List.map_eq_nil_iff.mp carries
        refine ⟨r', f.hdr, split ▸ next, split ▸ kept', ?_⟩
        simp [Reasm.finish, done, receiveAll]
      | cons j rest =>
        have short : ¬r'.complete = true := by
          rw [next.complete_iff seen]
          intro all
          exact delivery.open_before (by simpa using split) all
        rw [Reasm.finish, if_neg short]
        cases frames with
        | nil => cases carries
        | cons g frames =>
          obtain ⟨gap, prompt⟩ := List.isChain_cons_cons.mp prompt
          refine ih (before ++ [i]) (g :: frames) r' r' (by simpa using split) (by simp) carries
            prompt ?_ next kept'
          rintro _ ⟨⟩
          exact next.begun (by rw [stamp]; exact Nat.le_of_lt gap)

theorem receive_packet (frames : List RxFrame) (r : Reasm) (carries : Carries uuid data order frames)
    (prompt : Prompt frames) (idle : r.active = false)
    (start : J [] (r.reset uuid (fragCount data.length))) :
    ∃ r' hdr, Tracks uuid data order r' ∧ J order r' ∧
      (receiveAll frames r).2 = [⟨hdr, r'.output⟩] := by
  have some : order ≠ [] := by
    obtain ⟨pre, last, rfl, -⟩ := delivery.last
    simp
  refine receive_rest fits several delivery step order [] frames r _ rfl some carries prompt ?_
    (Tracks.reset uuid data r) start
  intro f _
  have kept : r.expire f.now = r := by simp [Reasm.expire, idle]
  rw [Reasm.begun, kept, if_pos (.inl idle)]

end Run

-- A fragment that arrives for the first time comes after all earlier fragments.
def EarlierFirst (order : List Nat) : Prop :=
  ∀ before s after, order = before ++ s :: after → s ∉ before → ∀ i < s, i ∈ before

def Placed (data : List Byte) (arrived : List Nat) (r : Reasm) : Prop :=
  ∀ i ∈ arrived, ∀ p, 300 * i ≤ p → p < 300 * i + (fragPart data i).length →
    r.buf p = data.getD p 0

theorem fragPart_getD (data : List Byte) (i p : Nat) (from_i : 300 * i ≤ p)
    (below : p < 300 * i + (fragPart data i).length) :
    (fragPart data i).getD (p - 300 * i) 0 = data.getD p 0 := by
  have size := fragPart_length data i
  simp only [List.getD_eq_getElem?_getD, fragPart, fragMaxPayload]
  rw [List.getElem?_take_of_lt (by omega), List.getElem?_drop]
  congr 2
  omega

theorem Placed.store {data : List Byte} {arrived : List Nat} {i : Nat}
    (placed : Placed data arrived r) (tracks : Tracks uuid data arrived r)
    (fits : data.length ≤ fragBufSize) (within : i < fragCount data.length) (now : BitVec 32)
    (earlier : i ∉ arrived → ∀ j < i, j ∈ arrived) :
    Placed data (arrived ++ [i]) { r.store i (fragPart data i) with lastTick := now } := by
  by_cases known : i ∈ arrived
  · rw [tracks.store_known within known]
    intro j mem
    refine placed j ?_
    rcases List.mem_append.mp mem with old | new
    · exact old
    · rw [List.mem_singleton.mp new]
      exact known
  · have offset : r.offset i = 300 * i := by
      rw [tracks.offset_full (earlier known)]
      have inside := lt_fragCount_iff.mp within
      omega
    rw [tracks.store_new fits within known, offset]
    intro j mem p from_j below
    have size_i := fragPart_length data i
    have size_j := fragPart_length data j
    simp only [Buffer.put_apply _ _ _ (0 : Byte)]
    rcases List.mem_append.mp mem with old | new
    · have other : j ≠ i := fun same => known (same ▸ old)
      rw [if_neg (by omega)]
      exact placed j old p from_j below
    · rw [List.mem_singleton.mp new] at from_j below
      rw [if_pos ⟨from_j, below⟩]
      exact fragPart_getD data i p from_j below

theorem Placed.output {data : List Byte} {arrived : List Nat} (placed : Placed data arrived r)
    (tracks : Tracks uuid data arrived r) (all : ∀ i < fragCount data.length, i ∈ arrived) :
    r.output = data := by
  have length : r.length = data.length := by
    rw [Reasm.length, tracks.total, tracks.offset_full all]
    have enough := lt_fragCount_iff.not.mp (Nat.lt_irrefl (fragCount data.length))
    omega
  apply List.ext_getElem?
  intro p
  rw [Reasm.output, length]
  by_cases inside : p < data.length
  · have mem := all (p / 300) (lt_fragCount_iff.mpr (by omega))
    have size := fragPart_length data (p / 300)
    have byte := placed (p / 300) mem p (by omega) (by omega)
    rw [Buffer.get_getElem? inside, Nat.zero_add, byte, List.getD_eq_getElem?_getD,
      List.getElem?_eq_getElem inside]
    rfl
  · rw [List.getElem?_eq_none (by simpa using inside),
      List.getElem?_eq_none (Nat.le_of_not_lt inside)]

def marked (len s : Nat) : List Byte :=
  (List.range len).map fun p => if 300 * s ≤ p ∧ p < 300 * s + 300 then 1 else 0

theorem marked_length (len s : Nat) : (marked len s).length = len := by simp [marked]

theorem marked_getD {len s p : Nat} :
    (marked len s).getD p 0 =
      if p < len ∧ 300 * s ≤ p ∧ p < 300 * s + 300 then 1 else 0 := by
  rw [marked, List.getD_eq_getElem?_getD, List.getElem?_map]
  by_cases inside : p < len
  · rw [List.getElem?_range inside]
    simp [inside]
  · rw [List.getElem?_eq_none (by simpa using inside)]
    simp [inside]

def markEnd (len s : Nat) : Nat := min (300 * s + 300) len - 1

theorem marked_part_zero {len s i : Nat} (other : i ≠ s) (q : Nat) :
    (fragPart (marked len s) i).getD q 0 = 0 := by
  by_cases inside : q < (fragPart (marked len s) i).length
  · have size := fragPart_length (marked len s) i
    have byte := fragPart_getD (marked len s) i (300 * i + q) (by omega) (by omega)
    rw [Nat.add_sub_cancel_left] at byte
    rw [byte, marked_getD, if_neg (by omega)]
  · rw [List.getD_eq_getElem?_getD, List.getElem?_eq_none (Nat.le_of_not_lt inside)]
    rfl

theorem markEnd_kept {len s i : Nat} {arrived : List Nat}
    (tracks : Tracks uuid (marked len s) arrived r) (fits : len ≤ fragBufSize)
    (within : i < fragCount len) (now : BitVec 32) (zero : r.buf (markEnd len s) = 0)
    (early : i = s → s ∉ arrived → ∃ j < s, j ∉ arrived) :
    ({ r.store i (fragPart (marked len s) i) with lastTick := now } : Reasm).buf (markEnd len s) =
      0 := by
  rw [← marked_length len s] at fits within
  by_cases known : i ∈ arrived
  · rw [tracks.store_known within known]
    exact zero
  · rw [tracks.store_new fits within known]
    simp only [Buffer.put_apply _ _ _ (0 : Byte)]
    by_cases same : i = s
    · obtain ⟨j, before, missing⟩ := early same (same ▸ known)
      have front := tracks.offset_missing before missing
      have inside := lt_fragCount_iff.mp within
      have size := fragPart_length (marked len s) i
      rw [marked_length] at inside size
      subst same
      rw [if_neg (by simp only [markEnd]; omega)]
      exact zero
    · split
      · exact marked_part_zero same _
      · exact zero

theorem first_split_unique {s : Nat} {before before' after after' : List Nat}
    (same : before ++ s :: after = before' ++ s :: after') (new : s ∉ before) (new' : s ∉ before') :
    before = before' := by
  have index (b a : List Nat) (absent : s ∉ b) : (b ++ s :: a).idxOf s = b.length := by
    rw [List.idxOf_append_of_notMem absent, List.idxOf_cons_self, Nat.add_zero]
  have lengths := index before after new
  rw [same, index before' after' new'] at lengths
  exact (List.append_inj same lengths.symm).1

def someHdr : RxHdr := ⟨⟨2, 0, 0, 0, 0, 1⟩, ⟨0xFF, 0xFF, 0xFF, 0xFF, 0xFF, 0xFF⟩⟩

def bootReasm : Reasm := ⟨false, 0, 0, 0, 0, fun _ => 0, fun _ => 0, 0⟩

def atOnce (uuid : Byte) (data : List Byte) (order : List Nat) : List RxFrame :=
  order.map fun i => ⟨fragFrame uuid data i, someHdr, 0⟩

theorem atOnce_carries (uuid : Byte) (data : List Byte) (order : List Nat) :
    Carries uuid data order (atOnce uuid data order) := by
  simp [Carries, atOnce, Function.comp_def]

theorem atOnce_prompt (uuid : Byte) (data : List Byte) (order : List Nat) :
    Prompt (atOnce uuid data order) := by
  induction order with
  | nil => exact .nil
  | cons i rest ih =>
    cases rest with
    | nil => exact .singleton _
    | cons j rest =>
      refine List.isChain_cons_cons.mpr ⟨?_, ih⟩
      change ((0 : BitVec 32) - 0).toNat < fragTimeoutMs
      decide

theorem output_getD {p : Nat} (inside : p < r.length) : r.output.getD p 0 = r.buf p := by
  rw [Reasm.output, List.getD_eq_getElem?_getD, Buffer.get_getElem? inside, Nat.zero_add]
  rfl

theorem overtaken_lost {len : Nat} (fits : len ≤ fragBufSize)
    (delivery : Delivery (fragCount len) order) (overtaken : ¬EarlierFirst order) :
    ∃ data, data.length = len ∧ ∀ hdr,
      (receiveAll (atOnce 0 data order) bootReasm).2 ≠ [⟨hdr, data⟩] := by
  simp only [EarlierFirst, not_forall] at overtaken
  obtain ⟨before, s, after, split, new, i, less, missing⟩ := overtaken
  have within : s < fragCount len := (delivery.all s).mp (by simp [split])
  refine ⟨marked len s, marked_length len s, fun hdr calls => ?_⟩
  have length := marked_length len s
  have step (before' : List Nat) (i' : Nat) (after' : List Nat) (r : Reasm) (now : BitVec 32)
      (split' : order = before' ++ i' :: after') (tracks : Tracks 0 (marked len s) before' r)
      (zero : r.buf (markEnd len s) = 0) :
      ({ r.store i' (fragPart (marked len s) i') with lastTick := now } : Reasm).buf
        (markEnd len s) = 0 := by
    refine markEnd_kept tracks fits ((delivery.all i').mp (by simp [split'])) now zero ?_
    intro same new'
    subst same
    obtain rfl := first_split_unique (split'.symm.trans split) new' new
    exact ⟨i, less, missing⟩
  obtain ⟨r', hdr', -, zero, calls'⟩ :=
    receive_packet (J := fun _ r => r.buf (markEnd len s) = 0) (by rwa [length])
      (by rw [length]; omega) (by rwa [length]) step (atOnce 0 (marked len s) order) bootReasm
      (atOnce_carries ..) (atOnce_prompt ..) rfl rfl
  rw [calls'] at calls
  have output : r'.output = marked len s := by
    injection calls with call
    injection call
  have inside : markEnd len s < len := by
    have start := lt_fragCount_iff.mp within
    simp only [markEnd]
    omega
  have sizes := congrArg List.length output
  rw [length, Reasm.output, Buffer.get_length] at sizes
  have start := lt_fragCount_iff.mp within
  have byte : r'.output.getD (markEnd len s) 0 = (marked len s).getD (markEnd len s) 0 := by
    rw [output]
  rw [output_getD (by omega), zero, marked_getD,
    if_pos ⟨inside, by simp only [markEnd]; omega, by simp only [markEnd]; omega⟩] at byte
  exact absurd byte (by decide)

theorem ordered_delivered {data : List Byte} {frames : List RxFrame} (some : data ≠ [])
    (fits : data.length ≤ fragBufSize) (delivery : Delivery (fragCount data.length) order)
    (earlier : EarlierFirst order) (carries : Carries uuid data order frames)
    (prompt : Prompt frames) (idle : r.active = false) :
    ∃ hdr, (receiveAll frames r).2 = [⟨hdr, data⟩] := by
  by_cases several : 2 ≤ fragCount data.length
  · obtain ⟨r', hdr, tracks, placed, calls⟩ :=
      receive_packet fits several delivery
        (fun before i after r now split tracks placed =>
          Placed.store placed tracks fits ((delivery.all i).mp (by simp [split])) now
            (earlier before i after split))
        frames r carries prompt idle (by intro i mem; cases mem)
    rw [placed.output tracks fun i below => (delivery.all i).mpr below] at calls
    exact ⟨hdr, calls⟩
  · have one : fragCount data.length = 1 := by
      have first := lt_fragCount_iff.mpr (show 300 * 0 < data.length from List.length_pos_iff.mpr some)
      omega
    rw [one] at delivery
    obtain rfl := delivery.single
    obtain ⟨f, frames, rfl, frame, rest⟩ := List.map_eq_cons_iff.mp carries
    obtain rfl := List.map_eq_nil_iff.mp rest
    exact ⟨f.hdr, by rw [receiveAll, rx_single one frame]; rfl⟩

theorem fragments_reassembled_iff (len : Nat) (some : 1 ≤ len) (fits : len ≤ 2400)
    (order : List Nat) (delivery : Delivery (fragCount len) order) :
    (∀ data : List Byte, data.length = len →
      ∀ (uuid : Byte) (frames : List RxFrame) (r : Reasm), Carries uuid data order frames →
        Prompt frames → r.active = false → ∃ hdr, (receiveAll frames r).2 = [⟨hdr, data⟩]) ↔
      EarlierFirst order := by
  constructor
  · intro comes
    by_contra overtaken
    obtain ⟨data, length, lost⟩ := overtaken_lost fits delivery overtaken
    obtain ⟨hdr, calls⟩ :=
      comes data length 0 _ bootReasm (atOnce_carries 0 data order) (atOnce_prompt 0 data order) rfl
    exact lost hdr calls
  · intro earlier data length uuid frames r carries prompt idle
    subst length
    exact ordered_delivered (List.length_pos_iff.mp some) fits delivery earlier carries prompt idle

theorem fragments_reassembled_iff_repeated : Delivery (fragCount 301) [0, 0, 1] ∧
    ∃ hdr, (receiveAll (atOnce 7 (marked 301 1) [0, 0, 1]) bootReasm).2 =
      [⟨hdr, marked 301 1⟩] := by
  have delivery : Delivery (fragCount 301) [0, 0, 1] := by
    refine ⟨fun i => ?_, [0, 0], 1, rfl, by decide⟩
    rw [show fragCount 301 = 2 from rfl]
    simp only [List.mem_cons, List.not_mem_nil, or_false]
    omega
  have earlier : EarlierFirst [0, 0, 1] := by
    intro before s after split new i less
    have first : s = 0 ∨ s = 1 := by
      have mem : s ∈ [0, 0, 1] := by rw [split]; simp
      simpa using mem
    rcases first with rfl | rfl
    · omega
    · have eq : before = [0, 0] :=
        first_split_unique (show before ++ 1 :: after = [0, 0] ++ 1 :: [] from split.symm) new
          (by decide)
      rw [eq, Nat.lt_one_iff.mp less]
      decide
  exact ⟨delivery, (fragments_reassembled_iff 301 (by decide) (by decide) _ delivery).mpr earlier
    (marked 301 1) (marked_length 301 1) 7 _ bootReasm (atOnce_carries ..) (atOnce_prompt ..) rfl⟩

theorem packet_garbled_swapped :
    (receiveAll (atOnce 7 (marked 301 1) [1, 0]) bootReasm).2 =
        [⟨someHdr, List.replicate 301 0⟩] ∧
      marked 301 1 ≠ List.replicate 301 0 := by
  decide +kernel

theorem mcs10_packet_arrives (b : Board) (data : List Byte) (dest : Mac) (mcs tid : Byte)
    (some : data ≠ []) (sent : (b.halowTxMcs10Frag data dest mcs tid).1 = 0) (new : List AirFrame)
    (aired : (b.halowTxMcs10Frag data dest mcs tid).2.air = new ++ b.air)
    (order : List Nat) (delivery : Delivery new.length order) (earlier : EarlierFirst order)
    (frames : List RxFrame)
    (heard : frames.map (·.payload) = order.map fun i => (new.reverse.map (·.payload)).getD i [])
    (prompt : Prompt frames) (idle : r.active = false) :
    ∃ hdr, (receiveAll frames r).2 = [⟨hdr, data⟩] := by
  obtain ⟨new', aired', payloads⟩ := Board.halowTxMcs10Frag_frames data dest mcs tid b some sent
  obtain rfl : new' = new := List.append_cancel_right (aired'.symm.trans aired)
  have count : new'.length = fragCount data.length := by
    simpa [fragFrames] using congrArg List.length payloads
  rw [count] at delivery
  have fits : data.length ≤ fragBufSize := by
    by_contra big
    have long : data.length > fragMaxPayload * fragMaxTotal := Nat.lt_of_not_le big
    rw [Board.halowTxMcs10Frag, if_pos long] at sent
    cases sent
  have carries : Carries (b.fragUuid + 1) data order frames := by
    refine heard.trans (List.map_congr_left fun i mem => ?_)
    simp [payloads, fragFrames, (delivery.all i).mp mem]
  exact ordered_delivered some fits delivery earlier carries prompt idle

theorem mcs10_packet_arrives_twoFrames :
    ∃ hdr, (receiveAll (atOnce 1 (marked 301 1) [0, 1]) bootReasm).2 = [⟨hdr, marked 301 1⟩] := by
  have sent : ((Board.quiet 10 8).halowTxMcs10Frag (marked 301 1) macBroadcast 10 0).1 = 0 ∧
      ((Board.quiet 10 8).halowTxMcs10Frag (marked 301 1) macBroadcast 10 0).2.air.length = 2 := by
    decide +kernel
  refine mcs10_packet_arrives (Board.quiet 10 8) (marked 301 1) macBroadcast 10 0 (by decide) sent.1
    _ (List.append_nil _).symm [0, 1] ?_ ?_ _ (by decide +kernel) (atOnce_prompt ..) rfl
  · rw [sent.2]
    refine ⟨fun i => ?_, [0], 1, rfl, by decide⟩
    simp only [List.mem_cons, List.not_mem_nil, or_false]
    omega
  · intro before s after split new i less
    rcases before with _ | ⟨a, _ | ⟨b, rest⟩⟩
    · simp only [List.nil_append, List.cons.injEq] at split
      omega
    · simp only [List.cons_append, List.nil_append, List.cons.injEq] at split
      rw [List.mem_singleton]
      omega
    · simp at split

end RnodeHalow.Radio
