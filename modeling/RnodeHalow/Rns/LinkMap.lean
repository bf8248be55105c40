import RnodeHalow.Rns.LinkDb

set_option autoImplicit false

namespace RnodeHalow.Rns

open Function (update update_eq_self_iff update_idem update_of_ne update_self)

abbrev LinkMap := LinkId → Option Record

namespace LinkMap

def empty : LinkMap := fun _ => none

noncomputable def size (m : LinkMap) : Nat := {id | m id ≠ none}.ncard

noncomputable def register (reg : Registration) (nowS : Int) (malloc : Bool) (m : LinkMap) :
    Ret × LinkMap :=
  let id := reg.pkg.linkId
  if reg.pkg.context = contextLinkclose then (.ok, update m id none)
  else
    match m id with
    | some r => (.ok, update m id (some (r.touched reg nowS)))
    | none =>
      if dbMaxLinkCount ≤ m.size then (.noSlot, m)
      else if !malloc then (.noMemory, m)
      else (.ok, update m id (some ((Record.fresh reg nowS).touched reg nowS)))

def sweep (nowS : Int) (m : LinkMap) : LinkMap := fun id => (m id).filter fun r => !r.expired nowS

end LinkMap

namespace LinkDb

structure Refines (db : LinkDb) (m : LinkMap) : Prop where
  well : db.WellLinked
  represents : Slots.Represents Record.id db.records m

namespace Refines

variable {db : LinkDb} {m : LinkMap}

theorem init : Refines linkDbInit LinkMap.empty where
  well := wellLinked_init
  represents id r := by simp [LinkMap.empty, LinkDb.records, linkDbInit]

theorem size (refines : Refines db m) : m.size = db.linksCount :=
  (refines.represents.ncard refines.well.distinct).trans refines.well.count.symm

theorem find (refines : Refines db m) (id : LinkId) :
    ∃ index, db.findIndexById id = some index ∧ index.bind db.records = m id ∧
      ∀ i, index = some i ↔ ∃ r, db.records i = some r ∧ r.id = id := by
  obtain ⟨index, found, spec⟩ := refines.well.find id
  refine ⟨index, found, ?_, spec⟩
  cases index with
  | none =>
    refine (refines.represents.absent fun i r held same => ?_).symm
    cases (spec i).mpr ⟨r, held, same⟩
  | some i =>
    obtain ⟨r, held, rfl⟩ := (spec i).mp rfl
    exact held.trans (refines.represents.present held).symm

theorem removeIndex (refines : Refines db m) {i : Slot} {r : Record} (held : db.records i = some r) :
    ∃ db', db.removeIndex i = some db' ∧ Refines db' (update m r.id none) := by
  obtain ⟨link, here, -⟩ := Option.map_eq_some_iff.mp held
  obtain ⟨db', removed, well, records⟩ := refines.well.removeIndex here
  refine ⟨db', removed, well, ?_⟩
  rw [records]
  exact refines.represents.clear refines.well.distinct held

theorem touch (refines : Refines db m) {i : Slot} {r : Record} (held : db.records i = some r)
    (reg : Registration) (nowS : Int) :
    Refines (db.touch i reg nowS) (update m r.id (some (r.touched reg nowS))) := by
  obtain ⟨well, records⟩ := refines.well.touch held reg nowS
  refine ⟨well, ?_⟩
  have put := refines.represents.put (refines.well.distinct.own held (Record.touched_id reg nowS r))
  rw [Record.touched_id] at put
  rw [records]
  exact put

theorem addLink (refines : Refines db m) {i : Slot} {r : Record} (free : db.links i = none)
    (new : ∀ j s, db.records j = some s → s.id ≠ r.id) :
    Refines (db.addLink i r) (update m r.id (some r)) := by
  obtain ⟨well, records⟩ := refines.well.addLink free new
  refine ⟨well, ?_⟩
  rw [records]
  exact refines.represents.put (Slots.own_of_free (records_none.mpr free) new)

theorem findFreeSlot (refines : Refines db m) :
    (dbMaxLinkCount ≤ m.size ∧ db.findFreeSlot = none) ∨
      m.size < dbMaxLinkCount ∧ ∃ i, db.findFreeSlot = some i ∧ db.links i = none := by
  rw [refines.size, LinkDb.findFreeSlot]
  by_cases full : db.linksCount ≥ dbMaxLinkCount
  · exact .inl ⟨full, if_pos full⟩
  · rw [if_neg full]
    refine .inr ⟨Nat.lt_of_not_ge full, ?_⟩
    obtain ⟨j, free⟩ : ∃ j, db.records j = none := by
      apply Slots.exists_free
      rw [← refines.well.count, Fintype.card_fin]
      exact Nat.lt_of_not_ge full
    cases found : Fin.find? fun i => (db.links i).isNone with
    | none =>
      have taken := Fin.find?_eq_none_iff.mp found j
      rw [records_none.mp free] at taken
      cases taken
    | some i =>
      have here := (Fin.find?_eq_some_iff.mp found).1
      exact ⟨i, rfl, by simpa using here⟩

theorem enrol (refines : Refines db m) {reg : Registration} (nowS : Int) {i : Slot}
    (free : db.links i = none) (new : ∀ j s, db.records j = some s → s.id ≠ reg.pkg.linkId) :
    Refines ((db.addLink i (.fresh reg nowS)).touch i reg nowS)
      (update m reg.pkg.linkId (some ((Record.fresh reg nowS).touched reg nowS))) := by
  have new' (j : Slot) (s : Record) (held : db.records j = some s) :
      s.id ≠ (Record.fresh reg nowS).id := new j s held
  have held : (db.addLink i (.fresh reg nowS)).records i = some (.fresh reg nowS) := by
    rw [(refines.well.addLink free new').2, update_self]
  have next := (refines.addLink free new').touch held reg nowS
  rwa [update_idem] at next

theorem register (refines : Refines db m) (reg : Registration) (nowS : Int) (malloc : Bool) :
    ∃ db', db.packageRegister reg nowS malloc = some ((m.register reg nowS malloc).1, db') ∧
      Refines db' (m.register reg nowS malloc).2 ∧
      ((m.register reg nowS malloc).1 ≠ .ok → db' = db) := by
  obtain ⟨index, found, value, spec⟩ := refines.find reg.pkg.linkId
  simp only [LinkDb.packageRegister, found, LinkMap.register]
  by_cases close : reg.pkg.context = contextLinkclose
  · simp only [if_pos close]
    cases index with
    | none =>
      have same : update m reg.pkg.linkId none = m :=
        update_eq_self_iff.mpr value
      exact ⟨db, rfl, by rwa [same], fun _ => rfl⟩
    | some i =>
      obtain ⟨r, held, same⟩ := (spec i).mp rfl
      obtain ⟨db', removed, next⟩ := refines.removeIndex held
      rw [same] at next
      exact ⟨db', by simp [removed], next, fun bad => absurd rfl bad⟩
  · simp only [if_neg close]
    cases index with
    | some i =>
      obtain ⟨r, held, same⟩ := (spec i).mp rfl
      have present : m reg.pkg.linkId = some r := value.symm.trans held
      have taken : ¬(db.links i).isNone = true := by
        rw [Option.isNone_iff_eq_none, ← records_none, held]
        exact Option.some_ne_none r
      simp only [present, if_neg taken]
      have next := refines.touch held reg nowS
      rw [same] at next
      exact ⟨_, rfl, next, fun bad => absurd rfl bad⟩
    | none =>
      have absent : m reg.pkg.linkId = none := value.symm
      simp only [absent]
      rcases refines.findFreeSlot with ⟨full, no⟩ | ⟨room, i, yes, free⟩
      · simp only [no, if_pos full]
        exact ⟨db, rfl, refines, fun _ => rfl⟩
      · simp only [yes, if_neg (Nat.not_le.mpr room)]
        by_cases failed : (!malloc) = true
        · simp only [if_pos failed]
          exact ⟨db, rfl, refines, fun _ => rfl⟩
        · simp only [if_neg failed]
          have new (j : Slot) (s : Record) (held : db.records j = some s) :
              s.id ≠ reg.pkg.linkId := by
            intro same
            cases (spec j).mpr ⟨s, held, same⟩
          exact ⟨_, rfl, refines.enrol nowS free new, fun bad => absurd rfl bad⟩

end Refines

theorem sweepSlot_spec {db : LinkDb} (well : db.WellLinked) (nowS : Int) (i : Slot) :
    ∃ db', db.sweepSlot nowS i = some db' ∧ db'.WellLinked ∧
      db'.records =
        update db.records i ((db.records i).filter fun r => !r.expired nowS) := by
  rw [sweepSlot]
  cases held : db.links i with
  | none =>
    refine ⟨db, rfl, well, (update_eq_self_iff.mpr ?_).symm⟩
    rw [records_none.mpr held]
    rfl
  | some link =>
    have record := records_some held
    dsimp only
    by_cases old : link.expired nowS = true
    · obtain ⟨db', removed, well', records⟩ := well.removeIndex held
      rw [if_pos old]
      refine ⟨db', removed, well', ?_⟩
      rw [records, record, Option.filter_some_neg (by simp [old])]
    · rw [if_neg old]
      refine ⟨db, rfl, well, (update_eq_self_iff.mpr ?_).symm⟩
      rw [record, Option.filter_some_pos (by simp [old])]

theorem sweep_spec (nowS : Int) (l : List Slot) (nodup : l.Nodup) {db : LinkDb}
    (well : db.WellLinked) :
    ∃ db', l.foldlM (sweepSlot nowS) db = some db' ∧ db'.WellLinked ∧
      ∀ i, db'.records i =
        if i ∈ l then (db.records i).filter fun r => !r.expired nowS else db.records i := by
  induction l generalizing db with
  | nil => exact ⟨db, rfl, well, fun i => rfl⟩
  | cons j rest ih =>
    obtain ⟨fresh, nodup⟩ := List.nodup_cons.mp nodup
    obtain ⟨db1, first, well1, records1⟩ := sweepSlot_spec well nowS j
    obtain ⟨db', later, well', records'⟩ := ih nodup well1
    refine ⟨db', by rw [List.foldlM_cons, first]; exact later, well', fun i => ?_⟩
    rw [records' i, records1]
    by_cases same : i = j
    · subst same
      rw [if_neg fresh, update_self, if_pos List.mem_cons_self]
    · rw [update_of_ne same]
      simp only [List.mem_cons, same, false_or]

theorem Refines.sweep {db : LinkDb} {m : LinkMap} (refines : Refines db m) (nowS : Int) :
    ∃ db', db.sweepExpired nowS = some db' ∧ Refines db' (m.sweep nowS) := by
  obtain ⟨db', swept, well, records⟩ :=
    sweep_spec nowS (List.finRange dbMaxLinkCount) (List.nodup_finRange _) refines.well
  refine ⟨db', swept, well, fun id r => ?_⟩
  simp only [LinkMap.sweep, Option.filter_eq_some_iff, refines.represents id r, records,
    List.mem_finRange, if_true, and_assoc, exists_and_right]

end LinkDb

inductive DbOp where
  | register (reg : Registration) (nowS : Int) (malloc : Bool)
  | sweep (nowS : Int)

def LinkDb.step (s : LinkDb × List Ret) : DbOp → Option (LinkDb × List Ret)
  | .register reg nowS malloc =>
    (s.1.packageRegister reg nowS malloc).map fun r => (r.2, s.2 ++ [r.1])
  | .sweep nowS => (s.1.sweepExpired nowS).map fun db => (db, s.2)

noncomputable def LinkMap.step (s : LinkMap × List Ret) : DbOp → LinkMap × List Ret
  | .register reg nowS malloc =>
    ((s.1.register reg nowS malloc).2, s.2 ++ [(s.1.register reg nowS malloc).1])
  | .sweep nowS => (s.1.sweep nowS, s.2)

theorem LinkDb.Refines.step {db : LinkDb} {m : LinkMap} (refines : Refines db m) (outs : List Ret)
    (op : DbOp) :
    ∃ db', LinkDb.step (db, outs) op = some (db', (LinkMap.step (m, outs) op).2) ∧
      Refines db' (LinkMap.step (m, outs) op).1 := by
  cases op with
  | register reg nowS malloc =>
    obtain ⟨db', result, next, -⟩ := refines.register reg nowS malloc
    exact ⟨db', by simp [LinkDb.step, LinkMap.step, result], next⟩
  | sweep nowS =>
    obtain ⟨db', result, next⟩ := refines.sweep nowS
    exact ⟨db', by simp [LinkDb.step, LinkMap.step, result], next⟩

theorem LinkDb.Refines.run {db : LinkDb} {m : LinkMap} (refines : Refines db m) (outs : List Ret)
    (ops : List DbOp) :
    ∃ db', ops.foldlM LinkDb.step (db, outs) =
        some (db', (ops.foldl LinkMap.step (m, outs)).2) ∧
      Refines db' (ops.foldl LinkMap.step (m, outs)).1 := by
  induction ops generalizing db m outs with
  | nil => exact ⟨db, rfl, refines⟩
  | cons op rest ih =>
    obtain ⟨db1, first, refines1⟩ := refines.step outs op
    obtain ⟨db', later, refines'⟩ := ih refines1 (LinkMap.step (m, outs) op).2
    exact ⟨db', by rw [List.foldlM_cons, first]; exact later, refines'⟩

structure LinkDb.Sound (db : LinkDb) : Prop where
  chains : ∀ b, ∃ l, Chains.Linked db.next (db.buckets b) l ∧ l.Nodup ∧
    ∀ i, i ∈ l ↔ ∃ link, db.links i = some link ∧ hashId link.id = b
  distinct : ∀ i j link link', db.links i = some link → db.links j = some link' →
    link.id = link'.id → i = j
  count : db.linksCount = (Finset.univ.filter fun i => (db.links i).isSome).card
  count_le : db.linksCount ≤ 255

theorem LinkDb.WellLinked.sound {db : LinkDb} (well : db.WellLinked) : db.Sound where
  chains b := by
    obtain ⟨l, linked, mem⟩ := well.hashed b
    exact ⟨l, linked, linked.nodup, fun i => (mem i).trans home_iff⟩
  distinct i j link link' held held' same :=
    well.distinct i j _ _ (records_some held) (records_some held') same
  count := by
    rw [well.count, Slots.count]
    simp [LinkDb.records]
  count_le := by
    rw [well.count]
    exact (Slots.count_le _).trans (Fintype.card_fin dbMaxLinkCount).le

theorem linkDb_refines_map (ops : List DbOp) :
    ∃ db, ops.foldlM LinkDb.step (linkDbInit, []) =
        some (db, (ops.foldl LinkMap.step (LinkMap.empty, [])).2) ∧
      db.Sound ∧
      (∀ id, ∃ index, db.findIndexById id = some index ∧
        index.bind db.records = (ops.foldl LinkMap.step (LinkMap.empty, [])).1 id) ∧
      ∀ reg nowS malloc, ∃ ret db', db.packageRegister reg nowS malloc = some (ret, db') ∧
        (ret = .noSlot ∨ ret = .noMemory → db' = db) := by
  obtain ⟨db, result, refines⟩ := LinkDb.Refines.init.run [] ops
  refine ⟨db, result, refines.well.sound, fun id => ?_, fun reg nowS malloc => ?_⟩
  · obtain ⟨index, found, value, -⟩ := refines.find id
    exact ⟨index, found, value⟩
  · obtain ⟨db', registered, -, kept⟩ := refines.register reg nowS malloc
    refine ⟨_, db', registered, fun failed => kept ?_⟩
    rcases failed with eq | eq <;> rw [eq] <;> decide

structure WellDb where
  db : LinkDb
  well : db.WellLinked

namespace WellDb

def init : WellDb := ⟨linkDbInit, LinkDb.wellLinked_init⟩

def record (d : WellDb) (id : LinkId) : Option Record :=
  (d.db.findIndexById id).join.bind d.db.records

variable (d : WellDb)

theorem linkSnapshotById_record (id : LinkId) :
    (d.db.linkSnapshotById id).map (Option.map Link.toRecord) = some (d.record id) := by
  obtain ⟨index, found, -⟩ := d.well.find id
  rw [LinkDb.linkSnapshotById, record, found]
  cases index with
  | none => rfl
  | some i => rfl

theorem refines : d.db.Refines d.record := by
  refine ⟨d.well, fun id r => ?_⟩
  obtain ⟨index, found, spec⟩ := d.well.find id
  rw [record, found, Option.join_some]
  constructor
  · intro value
    obtain ⟨i, rfl, held⟩ := Option.bind_eq_some_iff.mp value
    obtain ⟨s, here, same⟩ := (spec i).mp rfl
    obtain rfl := Option.some.inj (here.symm.trans held)
    exact ⟨same, i, held⟩
  · rintro ⟨same, i, held⟩
    rw [(spec i).mpr ⟨r, held, same⟩]
    exact held

theorem record_eq {d : WellDb} {m : LinkMap} (refines : d.db.Refines m) : d.record = m := by
  funext id
  obtain ⟨index, found, value, -⟩ := refines.find id
  rw [record, found]
  exact value

theorem packageRegister_well {db db' : LinkDb} (well : db.WellLinked) {reg : Registration}
    {nowS : Int} {malloc : Bool} {ret : Ret}
    (result : db.packageRegister reg nowS malloc = some (ret, db')) : db'.WellLinked := by
  obtain ⟨db1, registered, refines, -⟩ := (refines ⟨db, well⟩).register reg nowS malloc
  rw [registered] at result
  injection result with pair
  injection pair with _ same
  exact same ▸ refines.well

theorem packageRegister_returns (reg : Registration) (nowS : Int) (malloc : Bool) :
    (d.db.packageRegister reg nowS malloc).isSome = true := by
  obtain ⟨db', registered, -⟩ := d.refines.register reg nowS malloc
  rw [registered]
  rfl

def register (d : WellDb) (reg : Registration) (nowS : Int) (malloc : Bool) : Ret × WellDb :=
  let r := (d.db.packageRegister reg nowS malloc).get (d.packageRegister_returns reg nowS malloc)
  (r.1, ⟨r.2, packageRegister_well d.well (Option.some_get _).symm⟩)

theorem register_record (reg : Registration) (nowS : Int) (malloc : Bool) :
    (d.register reg nowS malloc).2.record = (LinkMap.register reg nowS malloc d.record).2 := by
  obtain ⟨db', registered, refines, -⟩ := d.refines.register reg nowS malloc
  apply record_eq
  have same : (d.register reg nowS malloc).2.db = db' := by simp [register, registered]
  rw [same]
  exact refines

theorem sweepExpired_returns (nowS : Int) : (d.db.sweepExpired nowS).isSome = true := by
  obtain ⟨db', swept, -⟩ := d.refines.sweep nowS
  rw [swept]
  rfl

theorem sweepExpired_well {db db' : LinkDb} (well : db.WellLinked) {nowS : Int}
    (result : db.sweepExpired nowS = some db') : db'.WellLinked := by
  obtain ⟨db1, swept, refines⟩ := (refines ⟨db, well⟩).sweep nowS
  rw [swept] at result
  injection result with same
  exact same ▸ refines.well

def sweep (d : WellDb) (nowS : Int) : WellDb :=
  ⟨(d.db.sweepExpired nowS).get (d.sweepExpired_returns nowS),
    sweepExpired_well d.well (Option.some_get _).symm⟩

theorem sweep_record (nowS : Int) : (d.sweep nowS).record = LinkMap.sweep nowS d.record := by
  obtain ⟨db', swept, refines⟩ := d.refines.sweep nowS
  apply record_eq
  have same : (d.sweep nowS).db = db' := by simp [sweep, swept]
  rw [same]
  exact refines

end WellDb

end RnodeHalow.Rns
