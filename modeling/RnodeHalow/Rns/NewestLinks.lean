import RnodeHalow.Rns.LinkMap

set_option autoImplicit false

namespace RnodeHalow.Rns

def linksApiMaxRows : Nat := 64

def Record.activity (r : Record) : Int :=
  if r.lastrxTimestampS > r.lasttxTimestampS then r.lastrxTimestampS else r.lasttxTimestampS

structure TopEntry where
  t : Int
  idx : Nat

namespace TopEntry

def shiftUp (e : TopEntry) : List TopEntry → List TopEntry
  | [] => [e]
  | top :: below => if top.t > e.t then top :: shiftUp e below else e :: top :: below

def shiftDown (e : TopEntry) : List TopEntry → List TopEntry
  | [] => [e]
  | top :: above => if top.t < e.t then top :: shiftDown e above else e :: top :: above

def keep (top : List TopEntry) (e : TopEntry) : List TopEntry :=
  if top.length < linksApiMaxRows then (shiftUp e top.reverse).reverse
  else
    match top with
    | [] => []
    | oldest :: above => if e.t > oldest.t then shiftDown e above else oldest :: above

end TopEntry

namespace LinkDb

def snapshotLoop (db : LinkDb) (index : Nat) : Nat → List Slot → Option Record
  | _, [] => none
  | pos, i :: rest =>
    match db.records i with
    | none => snapshotLoop db index pos rest
    | some link => if pos = index then some link else snapshotLoop db index (pos + 1) rest

def linkSnapshotByIndex (db : LinkDb) (index : Nat) : Option Record :=
  db.snapshotLoop index 0 (List.finRange dbMaxLinkCount)

def selectRow (db : LinkDb) (top : List TopEntry) (i : Nat) : List TopEntry :=
  match db.linkSnapshotByIndex i with
  | none => top
  | some link => TopEntry.keep top ⟨link.activity, i⟩

def selected (db : LinkDb) : List TopEntry := (List.range db.linksCount).foldl db.selectRow []

def linkRows (db : LinkDb) : List Record :=
  db.selected.reverse.filterMap fun e => db.linkSnapshotByIndex e.idx

def reticulumLinksGet (db : LinkDb) : List Record :=
  db.linkRows.filter fun link => !rnsLinkMacIsUnknown link.remoteMac

end LinkDb

namespace TopEntry

variable {e : TopEntry} {top l : List TopEntry}

theorem shiftUp_eq : shiftUp e l = l.orderedInsert (fun a b => b.t ≤ a.t) e := by
  induction l with
  | nil => rfl
  | cons b below ih =>
    simp only [shiftUp, List.orderedInsert_cons, ih, ← Int.not_lt, ite_not, gt_iff_lt]

theorem shiftDown_eq : shiftDown e l = l.orderedInsert (fun a b => a.t ≤ b.t) e := by
  induction l with
  | nil => rfl
  | cons b above ih => simp only [shiftDown, List.orderedInsert_cons, ih, ← Int.not_lt, ite_not]

theorem perm_shiftUp : (shiftUp e l).Perm (e :: l) := by
  rw [shiftUp_eq]
  exact List.perm_orderedInsert _ _ _

theorem perm_shiftDown : (shiftDown e l).Perm (e :: l) := by
  rw [shiftDown_eq]
  exact List.perm_orderedInsert _ _ _

theorem sorted_shiftUp (sorted : l.Pairwise (·.t ≥ ·.t)) : (shiftUp e l).Pairwise (·.t ≥ ·.t) := by
  have total : Std.Total fun a b : TopEntry => b.t ≤ a.t := ⟨fun a b => Int.le_total _ _⟩
  have trans : IsTrans TopEntry fun a b => b.t ≤ a.t := ⟨fun _ _ _ ab bc => Int.le_trans bc ab⟩
  rw [shiftUp_eq]
  exact List.Pairwise.orderedInsert e l sorted

theorem sorted_shiftDown (sorted : l.Pairwise (·.t ≤ ·.t)) :
    (shiftDown e l).Pairwise (·.t ≤ ·.t) := by
  have total : Std.Total fun a b : TopEntry => a.t ≤ b.t := ⟨fun a b => Int.le_total _ _⟩
  have trans : IsTrans TopEntry fun a b => a.t ≤ b.t := ⟨fun _ _ _ => Int.le_trans⟩
  rw [shiftDown_eq]
  exact List.Pairwise.orderedInsert e l sorted

structure Newest (met top others : List TopEntry) : Prop where
  parts : (top ++ others).Perm met
  sorted : top.Pairwise (·.t ≤ ·.t)
  length : top.length = min linksApiMaxRows met.length
  older : ∀ e ∈ top, ∀ u ∈ others, u.t ≤ e.t

variable {met others : List TopEntry}

theorem Newest.keep (newest : Newest met top others) (e : TopEntry) :
    ∃ others', Newest (met ++ [e]) (keep top e) others' := by
  have size := newest.parts.length_eq
  have length := newest.length
  rw [List.length_append] at size
  have after : (e :: (top ++ others)).Perm (met ++ [e]) :=
    (newest.parts.cons e).trans (List.perm_append_singleton e met).symm
  unfold TopEntry.keep
  by_cases room : top.length < linksApiMaxRows
  · have none : others = [] := List.length_eq_zero_iff.mp (by omega)
    subst none
    have perm : (shiftUp e top.reverse).reverse.Perm (e :: top) :=
      (List.reverse_perm _).trans (perm_shiftUp.trans ((List.reverse_perm top).cons e))
    rw [if_pos room]
    refine ⟨[], ?_, ?_, ?_, fun _ _ _ none => by cases none⟩
    · rw [List.append_nil] at after ⊢
      exact perm.trans after
    · rw [List.pairwise_reverse]
      exact sorted_shiftUp (List.pairwise_reverse.mpr newest.sorted)
    · rw [perm.length_eq, List.length_cons, List.length_append, List.length_singleton]
      omega
  · rw [if_neg room]
    cases top with
    | nil => exact absurd (by decide) room
    | cons oldest above =>
      obtain ⟨least, sorted⟩ := List.pairwise_cons.mp newest.sorted
      by_cases newer : e.t > oldest.t
      · have perm := perm_shiftDown (e := e) (l := above)
        dsimp only
        rw [if_pos newer]
        refine ⟨oldest :: others, ?_, sorted_shiftDown sorted, ?_, ?_⟩
        · exact ((perm.append_right _).trans (List.perm_middle.cons e)).trans after
        · rw [perm.length_eq, List.length_append, List.length_singleton]
          rw [List.length_cons] at length size room ⊢
          omega
        · intro kept member u left
          have recent : oldest.t ≤ kept.t := by
            rcases List.mem_cons.mp (perm.subset member) with rfl | old
            · exact Int.le_of_lt newer
            · exact least kept old
          rcases List.mem_cons.mp left with rfl | left
          · exact recent
          · exact Int.le_trans (newest.older oldest List.mem_cons_self u left) recent
      · dsimp only
        rw [if_neg newer]
        refine ⟨e :: others, List.perm_middle.trans after, newest.sorted, ?_, ?_⟩
        · rw [length, List.length_append, List.length_singleton]
          omega
        · intro kept member u left
          have recent : oldest.t ≤ kept.t := by
            rcases List.mem_cons.mp member with rfl | old
            · exact Int.le_refl _
            · exact least kept old
          rcases List.mem_cons.mp left with rfl | left
          · exact Int.le_trans (Int.not_lt.mp newer) recent
          · exact newest.older kept member u left

theorem Newest.foldl (newest : Newest met top others) (l : List TopEntry) :
    ∃ others', Newest (met ++ l) (l.foldl TopEntry.keep top) others' := by
  induction l generalizing met top others with
  | nil => exact ⟨others, by rwa [List.append_nil]⟩
  | cons e rest ih =>
    obtain ⟨others', next⟩ := newest.keep e
    rw [List.append_cons]
    exact ih next

end TopEntry

namespace LinkDb

variable (db : LinkDb)

def linkList : List Record := (List.finRange dbMaxLinkCount).filterMap db.records

theorem snapshotLoop_eq {index pos : Nat} (slots : List Slot) (ahead : pos ≤ index) :
    db.snapshotLoop index pos slots = (slots.filterMap db.records)[index - pos]? := by
  induction slots generalizing pos with
  | nil => rfl
  | cons i rest ih =>
    cases held : db.records i with
    | none =>
      simp only [snapshotLoop, held]
      rw [ih ahead, List.filterMap_cons_none held]
    | some link =>
      simp only [snapshotLoop, held]
      rw [List.filterMap_cons_some held]
      by_cases here : pos = index
      · rw [if_pos here, here, Nat.sub_self, List.getElem?_cons_zero]
      · obtain ⟨k, rfl⟩ := Nat.exists_eq_add_of_lt (Nat.lt_of_le_of_ne ahead here)
        rw [if_neg here, ih (by omega)]
        have after : pos + k + 1 - pos = pos + k + 1 - (pos + 1) + 1 := by omega
        rw [after, List.getElem?_cons_succ]

theorem linkSnapshotByIndex_eq (index : Nat) : db.linkSnapshotByIndex index = db.linkList[index]? :=
  db.snapshotLoop_eq _ (Nat.zero_le _)

theorem linkList_length : db.linkList.length = Slots.count db.records := by
  rw [linkList, List.length_filterMap_eq_countP, List.countP_eq_length_filter, Slots.count,
    Fin.univ_def, Finset.card_def, Finset.filter_val, Multiset.filter_coe, Multiset.coe_card]
  simp

theorem filterMap_getElem?_range {α : Type} (l : List α) :
    (List.range l.length).filterMap (l[·]?) = l := by
  induction l with
  | nil => rfl
  | cons a rest ih =>
    rw [List.length_cons, List.range_succ_eq_map, List.filterMap_cons,
      List.getElem?_cons_zero, List.filterMap_map]
    exact congrArg _ ih

def entries : List TopEntry := (List.range db.linksCount).filterMap fun i =>
  (db.linkSnapshotByIndex i).map fun link => ⟨link.activity, i⟩

theorem selected_eq : db.selected = db.entries.foldl TopEntry.keep [] := by
  rw [selected, entries, List.foldl_filterMap]
  congr
  funext top i
  unfold selectRow
  cases db.linkSnapshotByIndex i <;> rfl

theorem entries_links (count : db.linksCount = db.linkList.length) :
    db.entries.filterMap (fun e => db.linkSnapshotByIndex e.idx) = db.linkList := by
  rw [entries, List.filterMap_filterMap, count]
  conv_rhs => rw [← filterMap_getElem?_range db.linkList]
  congr
  funext i
  rw [linkSnapshotByIndex_eq]
  cases held : db.linkList[i]? with
  | none => rfl
  | some link => exact (db.linkSnapshotByIndex_eq i).trans held

theorem entry_link {e : TopEntry} (entered : e ∈ db.entries) :
    ∃ link, db.linkSnapshotByIndex e.idx = some link ∧ link.activity = e.t := by
  obtain ⟨i, -, eq⟩ := List.mem_filterMap.mp entered
  obtain ⟨link, held, rfl⟩ := Option.map_eq_some_iff.mp eq
  exact ⟨link, held, rfl⟩

theorem WellLinked.linkList_nodup {db : LinkDb} (well : db.WellLinked) :
    (db.linkList.map (·.id)).Nodup := by
  rw [linkList, List.map_filterMap]
  apply (List.nodup_finRange _).filterMap
  intro i j id atI atJ
  obtain ⟨r, heldI, rfl⟩ := Option.map_eq_some_iff.mp atI
  obtain ⟨s, heldJ, same⟩ := Option.map_eq_some_iff.mp atJ
  exact well.distinct i j r s heldI heldJ same.symm

end LinkDb

theorem linkRows_newest (d : WellDb) :
    ∃ others : List Record,
      (d.db.linkRows ++ others).Perm d.db.linkList ∧
      d.db.linkRows.length = min linksApiMaxRows d.db.linksCount ∧
      (d.db.linkRows.map (·.id)).Nodup ∧
      d.db.linkRows.Pairwise (fun a b => b.activity ≤ a.activity) ∧
      ∀ r ∈ d.db.linkRows, ∀ u ∈ others, u.activity ≤ r.activity := by
  have count : d.db.linksCount = d.db.linkList.length :=
    d.well.count.trans d.db.linkList_length.symm
  have start : TopEntry.Newest [] [] [] := ⟨.nil, .nil, rfl, fun _ none => by cases none⟩
  obtain ⟨others, newest⟩ := start.foldl d.db.entries
  rw [List.nil_append, ← d.db.selected_eq] at newest
  have entered (e : TopEntry) (member : e ∈ d.db.selected ++ others) :
      ∃ link, d.db.linkSnapshotByIndex e.idx = some link ∧ link.activity = e.t :=
    d.db.entry_link (newest.parts.subset member)
  have parts : (d.db.linkRows ++ others.filterMap fun e => d.db.linkSnapshotByIndex e.idx).Perm
      d.db.linkList := by
    rw [LinkDb.linkRows, ← List.filterMap_append, ← d.db.entries_links count]
    exact (((List.reverse_perm _).append_right _).trans newest.parts).filterMap _
  refine ⟨_, parts, ?_, ?_, ?_, ?_⟩
  · have all : d.db.entries.length = d.db.linksCount := by
      rw [count, ← d.db.entries_links count, eq_comm, List.filterMap_length_eq_length]
      intro e member
      obtain ⟨link, held, -⟩ := d.db.entry_link member
      rw [held]
      rfl
    have back : d.db.selected.length = d.db.selected.reverse.length := List.length_reverse.symm
    rw [← all, ← newest.length, back, LinkDb.linkRows, List.filterMap_length_eq_length]
    intro e member
    obtain ⟨link, held, -⟩ := entered e (List.mem_append_left _ (List.mem_reverse.mp member))
    rw [held]
    rfl
  · have nodup := (parts.map (·.id)).nodup_iff.mpr d.well.linkList_nodup
    rw [List.map_append] at nodup
    exact (List.nodup_append.mp nodup).1
  · rw [LinkDb.linkRows, List.pairwise_filterMap, List.pairwise_reverse]
    refine newest.sorted.imp_of_mem fun {a b} memA memB le r heldB s heldA => ?_
    obtain ⟨x, atX, tX⟩ := entered a (List.mem_append_left _ memA)
    obtain ⟨y, atY, tY⟩ := entered b (List.mem_append_left _ memB)
    rw [heldA] at atX
    rw [heldB] at atY
    cases atX
    cases atY
    omega
  · intro r row u other
    obtain ⟨a, memA, heldA⟩ := List.mem_filterMap.mp row
    obtain ⟨b, memB, heldB⟩ := List.mem_filterMap.mp other
    obtain ⟨x, atX, tX⟩ := entered a (List.mem_append_left _ (List.mem_reverse.mp memA))
    obtain ⟨y, atY, tY⟩ := entered b (List.mem_append_right _ memB)
    have le := newest.older a (List.mem_reverse.mp memA) b memB
    rw [heldA] at atX
    rw [heldB] at atY
    cases atX
    cases atY
    omega

end RnodeHalow.Rns
