import RnodeHalow.Rns.Parser
import RnodeHalow.Shared.Chains
import RnodeHalow.Shared.Slots

set_option autoImplicit false

namespace RnodeHalow.Rns

open Function (update update_eq_self_iff update_of_ne update_self)

def dbMaxLinkCount : Nat := 255
def dbHashSize : Nat := dbMaxLinkCount * 2
def linkTimeoutS : Int := 900

abbrev Slot := Fin dbMaxLinkCount
abbrev Bucket := Fin dbHashSize

-- A `uint8_t` index into `links`; `INDEX_NONE`, the one value that is not a slot, is `none`.
abbrev Index := Option Slot

inductive Direction where
  | rx
  | tx
  deriving DecidableEq, Repr

inductive LinkState where
  | closed
  | requestSent
  | proofReceived
  | isOpen
  deriving DecidableEq, Repr

structure Record where
  id : LinkId
  destination : LinkId
  firstseenTimestampS : Int
  lastrxTimestampS : Int
  lasttxTimestampS : Int
  rxBytes : BitVec 32
  txBytes : BitVec 32
  rxPackets : BitVec 32
  txPackets : BitVec 32
  hops : Byte
  state : LinkState
  remoteMac : Mac
  effectiveMtu : BitVec 32
  deriving DecidableEq

structure Link extends Record where
  hashNext : Index
  deriving DecidableEq

structure LinkDb where
  links : Slot → Option Link
  buckets : Bucket → Index
  linksCount : Nat

def linkDbInit : LinkDb := ⟨fun _ => none, fun _ => none, 0⟩

def hashId (id : LinkId) : Bucket :=
  ⟨(fnv1a id.toList).toNat % dbHashSize, Nat.mod_lt _ (by decide)⟩

structure Registration where
  pkg : PacketInfo
  direction : Direction
  remoteMac : Option Mac
  effectiveMtu : BitVec 32
  updateMtu : Bool
  unicastToMe : Bool

def linkMacUnknownByte : Byte := 0xFF#8

def linkMacUnknown : Mac :=
  ⟨linkMacUnknownByte, linkMacUnknownByte, linkMacUnknownByte, linkMacUnknownByte,
    linkMacUnknownByte, linkMacUnknownByte⟩

def rnsLinkMacIsUnknown (mac : Mac) : Bool := mac = linkMacUnknown

namespace Record

def fresh (reg : Registration) (nowS : Int) : Record :=
  { id := reg.pkg.linkId
    destination := reg.pkg.destination
    firstseenTimestampS := nowS
    lastrxTimestampS := if reg.direction = .rx then nowS else 0
    lasttxTimestampS := if reg.direction = .tx then nowS else 0
    rxBytes := 0
    txBytes := 0
    rxPackets := 0
    txPackets := 0
    hops := reg.pkg.hops
    state := .closed
    remoteMac := linkMacUnknown
    effectiveMtu := 0 }

def counted (reg : Registration) (nowS : Int) (r : Record) : Record :=
  match reg.direction with
  | .rx =>
    { r with
      lastrxTimestampS := nowS
      rxPackets := r.rxPackets + 1
      rxBytes := r.rxBytes + reg.pkg.payloadLen.setWidth 32 }
  | .tx =>
    { r with
      lasttxTimestampS := nowS
      txPackets := r.txPackets + 1
      txBytes := r.txBytes + reg.pkg.payloadLen.setWidth 32 }

def learned (reg : Registration) (r : Record) : Record :=
  match reg.remoteMac with
  | none => r
  | some mac =>
    if reg.unicastToMe || rnsLinkMacIsUnknown r.remoteMac then { r with remoteMac := mac } else r

def resized (reg : Registration) (r : Record) : Record :=
  if reg.updateMtu && r.effectiveMtu != reg.effectiveMtu then
    { r with effectiveMtu := reg.effectiveMtu }
  else r

def advanced (reg : Registration) (r : Record) : Record :=
  if r.state = .isOpen then r
  else if reg.pkg.packetType = .linkrequest then
    if reg.direction = .tx ∧ r.state = .closed then { r with state := .requestSent } else r
  else if reg.pkg.packetType = .proof ∨ reg.pkg.context = contextLinkproof ∨
      reg.pkg.context = contextLrproof then
    { r with state := .proofReceived }
  else if reg.pkg.destinationType = .link then { r with state := .isOpen }
  else r

def touched (reg : Registration) (nowS : Int) (r : Record) : Record :=
  (({ r with hops := reg.pkg.hops }.counted reg nowS).learned reg |>.resized reg).advanced reg

def expired (nowS : Int) (r : Record) : Bool :=
  let lastActivityS := 0
  let lastActivityS :=
    if r.lastrxTimestampS > lastActivityS then r.lastrxTimestampS else lastActivityS
  let lastActivityS :=
    if r.lasttxTimestampS > lastActivityS then r.lasttxTimestampS else lastActivityS
  decide (lastActivityS > 0) && decide (nowS - lastActivityS > linkTimeoutS)

end Record

-- The loops follow `hash_next` for at most `fuel` slots; `none` says that they have not ended.

namespace LinkDb

def findLoop (id : LinkId) (db : LinkDb) : Nat → Index → Option Index
  | 0, _ => none
  | _ + 1, none => some none
  | fuel + 1, some index =>
    match db.links index with
    | none => some none
    | some link => if link.id = id then some (some index) else findLoop id db fuel link.hashNext

def fuel : Nat := dbMaxLinkCount + 1

def findIndexById (id : LinkId) (db : LinkDb) : Option Index :=
  db.findLoop id fuel (db.buckets (hashId id))

def findFreeSlot (db : LinkDb) : Index :=
  if db.linksCount ≥ dbMaxLinkCount then none else Fin.find? fun i => (db.links i).isNone

def setLink (index : Slot) (link : Option Link) (db : LinkDb) : LinkDb :=
  { db with links := Function.update db.links index link }

def setBucket (bucket : Bucket) (index : Index) (db : LinkDb) : LinkDb :=
  { db with buckets := Function.update db.buckets bucket index }

def unlinkLoop (index : Slot) (hashNext : Index) (db : LinkDb) : Nat → Index → Option LinkDb
  | 0, _ => none
  | _ + 1, none => some db
  | fuel + 1, some cur =>
    match db.links cur with
    | none => some db
    | some link =>
      if link.hashNext = some index then some (db.setLink cur (some { link with hashNext := hashNext }))
      else unlinkLoop index hashNext db fuel link.hashNext

def unlink (index : Slot) (link : Link) (db : LinkDb) : Option LinkDb :=
  let bucketIdx := hashId link.id
  let cur := db.buckets bucketIdx
  if cur = some index then some (db.setBucket bucketIdx link.hashNext)
  else db.unlinkLoop index link.hashNext fuel cur

def freeSlot (index : Slot) (db : LinkDb) : LinkDb :=
  { db.setLink index none with
    linksCount := if db.linksCount > 0 then db.linksCount - 1 else db.linksCount }

def removeIndex (index : Slot) (db : LinkDb) : Option LinkDb :=
  match db.links index with
  | none => some db
  | some link => (db.unlink index link).map (freeSlot index)

def addLink (slot : Slot) (record : Record) (db : LinkDb) : LinkDb :=
  let bucketIdx := hashId record.id
  let link : Link := { record with hashNext := db.buckets bucketIdx }
  { (db.setLink slot (some link)).setBucket bucketIdx (some slot) with
    linksCount := (db.linksCount + 1) % 2 ^ 8 }

def touch (index : Slot) (reg : Registration) (nowS : Int) (db : LinkDb) : LinkDb :=
  db.setLink index
    ((db.links index).map fun link => { link with toRecord := link.touched reg nowS })

def packageRegister (reg : Registration) (nowS : Int) (malloc : Bool) (db : LinkDb) :
    Option (Ret × LinkDb) :=
  match db.findIndexById reg.pkg.linkId with
  | none => none
  | some index =>
    if reg.pkg.context = contextLinkclose then
      match index with
      | none => some (.ok, db)
      | some index => (db.removeIndex index).map fun db => (.ok, db)
    else
      match index with
      | some index =>
        if (db.links index).isNone then some (.noSlot, db)
        else some (.ok, db.touch index reg nowS)
      | none =>
        match db.findFreeSlot with
        | none => some (.noSlot, db)
        | some slot =>
          if !malloc then some (.noMemory, db)
          else some (.ok, (db.addLink slot (.fresh reg nowS)).touch slot reg nowS)

def sweepSlot (nowS : Int) (db : LinkDb) (i : Slot) : Option LinkDb :=
  match db.links i with
  | none => some db
  | some link => if link.expired nowS then db.removeIndex i else some db

def sweepExpired (nowS : Int) (db : LinkDb) : Option LinkDb :=
  (List.finRange dbMaxLinkCount).foldlM (sweepSlot nowS) db

def linkSnapshotById (id : LinkId) (db : LinkDb) : Option (Option Link) :=
  (db.findIndexById id).map fun index => index.bind db.links

end LinkDb

namespace LinkDb

def records (db : LinkDb) (i : Slot) : Option Record := (db.links i).map (·.toRecord)

def home (db : LinkDb) (i : Slot) : Option Bucket := (db.records i).map fun r => hashId r.id

def next (db : LinkDb) (i : Slot) : Index := (db.links i).bind (·.hashNext)

-- Every link is once on the chain of its own bucket, and on no other.
structure WellLinked (db : LinkDb) : Prop where
  hashed : Chains.Hashed db.home db.buckets db.next
  distinct : Slots.Distinct Record.id db.records
  count : db.linksCount = Slots.count db.records

theorem wellLinked_init : linkDbInit.WellLinked where
  hashed _ := ⟨[], rfl, fun i => by simp [home, records, linkDbInit]⟩
  distinct i j r s held := by cases held
  count := by simp [Slots.count, records, linkDbInit]

section Fields

variable {db : LinkDb} {i : Slot} {link : Link}

theorem records_some (held : db.links i = some link) : db.records i = some link.toRecord := by
  rw [records, held]
  rfl

theorem records_none : db.records i = none ↔ db.links i = none := Option.map_eq_none_iff

theorem next_some (held : db.links i = some link) : db.next i = link.hashNext := by
  rw [next, held]
  rfl

theorem home_some (held : db.links i = some link) : db.home i = some (hashId link.id) := by
  rw [home, records_some held]
  rfl

theorem home_iff {b : Bucket} : db.home i = some b ↔
    ∃ link, db.links i = some link ∧ hashId link.id = b := by
  simp [home, records]

theorem records_setLink (db : LinkDb) (i : Slot) (link : Option Link) :
    (db.setLink i link).records = update db.records i (link.map (·.toRecord)) := by
  funext j
  by_cases same : j = i
  · subst same
    simp [records, setLink]
  · simp [records, setLink, same]

theorem home_update {db db' : LinkDb} {r : Option Record}
    (records : db'.records = update db.records i r) :
    db'.home = update db.home i (r.map fun r => hashId r.id) := by
  funext j
  rw [home, records]
  by_cases same : j = i
  · subst same
    rw [update_self, update_self]
  · rw [update_of_ne same, update_of_ne same]
    rfl

theorem next_setLink (db : LinkDb) (i : Slot) (link : Option Link) :
    (db.setLink i link).next = update db.next i (link.bind (·.hashNext)) := by
  funext j
  by_cases same : j = i
  · subst same
    simp [next, setLink]
  · simp [next, setLink, same]

end Fields

section Loops

variable {db : LinkDb} {p : Index} {l : List Slot} {fuel : Nat}

theorem findLoop_linked (id : LinkId) (linked : Chains.Linked db.next p l)
    (live : ∀ i ∈ l, ∃ link, db.links i = some link) (enough : l.length < fuel) :
    db.findLoop id fuel p = some (l.find? fun i => (db.records i).any (·.id = id)) := by
  induction l generalizing p fuel with
  | nil =>
    obtain rfl : p = none := linked
    obtain ⟨k, rfl⟩ := Nat.exists_eq_succ_of_ne_zero (Nat.ne_zero_of_lt enough)
    rfl
  | cons i rest ih =>
    obtain ⟨rfl, linked⟩ := linked
    obtain ⟨k, rfl⟩ := Nat.exists_eq_succ_of_ne_zero (Nat.ne_zero_of_lt enough)
    obtain ⟨link, held⟩ := live i List.mem_cons_self
    rw [next_some held] at linked
    rw [Nat.succ_eq_add_one, findLoop, held]
    dsimp only
    by_cases same : link.id = id
    · rw [if_pos same, List.find?_cons_of_pos (by simp [records_some held, same])]
    · rw [if_neg same, List.find?_cons_of_neg (by simp [records_some held, same])]
      exact ih linked (fun j mem => live j (List.mem_cons_of_mem i mem))
        (Nat.lt_of_succ_lt_succ enough)

theorem unlinkLoop_linked {j : Slot} (successor : Index) (linked : Chains.Linked db.next p l)
    (live : ∀ i ∈ l, ∃ link, db.links i = some link) (enough : l.length < fuel) (mem : j ∈ l)
    (later : p ≠ some j) :
    ∃ c link, c ∈ l ∧ db.links c = some link ∧ link.hashNext = some j ∧
      db.unlinkLoop j successor fuel p =
        some (db.setLink c (some { link with hashNext := successor })) := by
  induction l generalizing p fuel with
  | nil => cases mem
  | cons i rest ih =>
    obtain ⟨rfl, linked⟩ := linked
    obtain ⟨k, rfl⟩ := Nat.exists_eq_succ_of_ne_zero (Nat.ne_zero_of_lt enough)
    obtain ⟨link, held⟩ := live i List.mem_cons_self
    rw [next_some held] at linked
    rw [Nat.succ_eq_add_one, unlinkLoop, held]
    dsimp only
    by_cases found : link.hashNext = some j
    · exact ⟨i, link, List.mem_cons_self, held, found, if_pos found⟩
    · have inside : j ∈ rest := by
        rcases List.mem_cons.mp mem with rfl | inside
        · exact absurd rfl later
        · exact inside
      obtain ⟨c, before, memC, heldC, nextC, result⟩ := ih linked
        (fun j mem => live j (List.mem_cons_of_mem i mem)) (Nat.lt_of_succ_lt_succ enough) inside
        found
      rw [if_neg found]
      exact ⟨c, before, List.mem_cons_of_mem i memC, heldC, nextC, result⟩

end Loops

namespace WellLinked

variable {db : LinkDb} {i : Slot} {link : Link}

theorem chain (well : db.WellLinked) (b : Bucket) :
    ∃ l, Chains.Linked db.next (db.buckets b) l ∧ (∀ i, i ∈ l ↔ db.home i = some b) ∧
      (∀ i ∈ l, ∃ link, db.links i = some link) ∧ l.length < fuel := by
  obtain ⟨l, linked, mem⟩ := well.hashed b
  refine ⟨l, linked, mem, fun i inside => ?_, ?_⟩
  · obtain ⟨link, held, -⟩ := home_iff.mp ((mem i).mp inside)
    exact ⟨link, held⟩
  · have bound := linked.length_le
    rw [Fintype.card_fin] at bound
    exact Nat.lt_succ_of_le bound

theorem find (well : db.WellLinked) (id : LinkId) :
    ∃ index, db.findIndexById id = some index ∧
      ∀ i, index = some i ↔ ∃ r, db.records i = some r ∧ r.id = id := by
  obtain ⟨l, linked, mem, live, enough⟩ := well.chain (hashId id)
  have holds (i : Slot) : (db.records i).any (·.id = id) = true ↔
      ∃ r, db.records i = some r ∧ r.id = id := by
    cases db.records i <;> simp
  refine ⟨_, findLoop_linked id linked live enough, fun i => ?_⟩
  constructor
  · intro found
    have here := List.find?_some found
    exact (holds i).mp here
  · rintro ⟨r, held, same⟩
    have inside : i ∈ l := by
      rw [mem i, home, held, ← same]
      rfl
    cases found : l.find? fun i => (db.records i).any (·.id = id) with
    | none =>
      have missing := List.find?_eq_none.mp found i inside
      simp [held, same] at missing
    | some j =>
      have here := List.find?_some found
      obtain ⟨s, heldJ, sameJ⟩ := (holds j).mp here
      rw [well.distinct j i s r heldJ held (sameJ.trans same.symm)]

theorem unlink (well : db.WellLinked) (held : db.links i = some link) :
    ∃ db', db.unlink i link = some db' ∧ db'.records = db.records ∧
      db'.linksCount = db.linksCount ∧
      Chains.Hashed (update db.home i none) db'.buckets db'.next := by
  have atHome := home_some held
  have after := next_some held
  rw [LinkDb.unlink]
  by_cases first : db.buckets (hashId link.id) = some i
  · rw [if_pos first]
    refine ⟨_, rfl, rfl, rfl, ?_⟩
    rw [← after]
    exact well.hashed.remove_first first atHome
  · rw [if_neg first]
    obtain ⟨l, linked, mem, live, enough⟩ := well.chain (hashId link.id)
    obtain ⟨c, before, memC, heldC, nextC, result⟩ :=
      unlinkLoop_linked link.hashNext linked live enough ((mem i).mpr atHome) first
    refine ⟨_, result, ?_, rfl, ?_⟩
    · rw [records_setLink]
      exact update_eq_self_iff.mpr (records_some heldC).symm
    · rw [next_setLink, Option.bind_some, ← after]
      exact well.hashed.remove_after ((mem c).mp memC) ((next_some heldC).trans nextC) atHome

theorem removeIndex (well : db.WellLinked) (held : db.links i = some link) :
    ∃ db', db.removeIndex i = some db' ∧ db'.WellLinked ∧
      db'.records = update db.records i none := by
  obtain ⟨db1, unlinked, same, sameCount, hashed⟩ := well.unlink held
  have records : (db1.freeSlot i).records = update db.records i none := by
    rw [← same]
    exact records_setLink db1 i none
  refine ⟨db1.freeSlot i, by rw [LinkDb.removeIndex, held]; simp [unlinked], ⟨?_, ?_, ?_⟩, records⟩
  · rw [home_update records]
    refine hashed.congr fun j b atHome => ?_
    have other : j ≠ i := by
      rintro rfl
      rw [update_self] at atHome
      cases atHome
    exact (congrFun (next_setLink db1 i none) j).trans (update_of_ne other ..)
  · rw [records]
    exact well.distinct.clear i
  · have fewer := Slots.count_clear (records_some held)
    have count := well.count
    rw [records]
    change (if db1.linksCount > 0 then db1.linksCount - 1 else db1.linksCount) = _
    rw [sameCount, if_pos (by omega)]
    omega

theorem addLink (well : db.WellLinked) {record : Record} (free : db.links i = none)
    (new : ∀ j r, db.records j = some r → r.id ≠ record.id) :
    (db.addLink i record).WellLinked ∧
      (db.addLink i record).records = update db.records i (some record) := by
  have recordsNone : db.records i = none := records_none.mpr free
  have records : (db.addLink i record).records = update db.records i (some record) :=
    records_setLink db i (some { record with hashNext := db.buckets (hashId record.id) })
  have next : (db.addLink i record).next =
      update db.next i (db.buckets (hashId record.id)) :=
    next_setLink db i (some { record with hashNext := db.buckets (hashId record.id) })
  refine ⟨⟨?_, ?_, ?_⟩, records⟩
  · rw [home_update records, next]
    exact well.hashed.insert (by rw [home, recordsNone]; rfl) (hashId record.id)
  · rw [records]
    exact well.distinct.put (Slots.own_of_free recordsNone new)
  · have more := Slots.count_put_free recordsNone record
    have most := Slots.count_le (update db.records i (some record))
    rw [Fintype.card_fin] at most
    rw [records, more]
    change (db.linksCount + 1) % 2 ^ 8 = _
    rw [well.count, Nat.mod_eq_of_lt]
    have bound : dbMaxLinkCount = 255 := rfl
    omega

end WellLinked

end LinkDb

namespace Record

def ident (r : Record) : LinkId × Mac := (r.id, r.remoteMac)

variable (reg : Registration) (nowS : Int) (r : Record)

theorem counted_ident : (r.counted reg nowS).ident = r.ident := by
  unfold counted
  split <;> rfl

theorem resized_ident : (r.resized reg).ident = r.ident := by
  unfold resized
  split <;> rfl

theorem advanced_ident : (r.advanced reg).ident = r.ident := by
  unfold advanced
  repeat' split
  all_goals rfl

theorem learned_id : (r.learned reg).id = r.id := by
  unfold learned
  split
  · rfl
  · split <;> rfl

theorem touched_ident :
    (r.touched reg nowS).ident =
      (({ r with hops := reg.pkg.hops }.counted reg nowS).learned reg).ident := by
  rw [touched, advanced_ident, resized_ident]

theorem touched_id : (r.touched reg nowS).id = r.id := by
  have counted := congrArg Prod.fst (counted_ident reg nowS { r with hops := reg.pkg.hops })
  have touched := congrArg Prod.fst (touched_ident reg nowS r)
  exact touched.trans ((learned_id reg _).trans counted)

end Record

theorem LinkDb.WellLinked.touch {db : LinkDb} {i : Slot} {r : Record} (well : db.WellLinked)
    (held : db.records i = some r) (reg : Registration) (nowS : Int) :
    (db.touch i reg nowS).WellLinked ∧
      (db.touch i reg nowS).records =
        update db.records i (some (r.touched reg nowS)) := by
  obtain ⟨link, here, rfl⟩ := Option.map_eq_some_iff.mp held
  have records : (db.touch i reg nowS).records =
      update db.records i (some (link.touched reg nowS)) := by
    rw [LinkDb.touch, here]
    exact records_setLink db i _
  have next : (db.touch i reg nowS).next = db.next := by
    rw [LinkDb.touch, here, next_setLink]
    exact update_eq_self_iff.mpr (next_some here).symm
  have home : (db.touch i reg nowS).home = db.home := by
    rw [home_update records, Option.map_some, Record.touched_id]
    exact update_eq_self_iff.mpr (home_some here).symm
  refine ⟨⟨?_, ?_, ?_⟩, records⟩
  · rw [home, next]
    exact well.hashed
  · rw [records]
    exact well.distinct.put (well.distinct.own held (Record.touched_id reg nowS link.toRecord))
  · rw [records, Slots.count_put_held (by rw [held]; rfl)]
    exact well.count

end RnodeHalow.Rns
