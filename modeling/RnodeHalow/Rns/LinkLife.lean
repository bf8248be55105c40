import RnodeHalow.Rns.LinkMap

set_option autoImplicit false

namespace RnodeHalow.Rns

open Function (update update_of_ne update_self)

def learnedMac (reg : Registration) (mac : Mac) : Mac :=
  match reg.remoteMac with
  | none => mac
  | some told => if reg.unicastToMe || rnsLinkMacIsUnknown mac then told else mac

theorem Record.learned_remoteMac (reg : Registration) (r : Record) :
    (r.learned reg).remoteMac = learnedMac reg r.remoteMac := by
  unfold Record.learned learnedMac
  cases reg.remoteMac with
  | none => rfl
  | some told =>
    dsimp only
    split <;> rfl

theorem Record.touched_remoteMac (reg : Registration) (nowS : Int) (r : Record) :
    (r.touched reg nowS).remoteMac = learnedMac reg r.remoteMac := by
  have counted := congrArg Prod.snd (counted_ident reg nowS { r with hops := reg.pkg.hops })
  have touched := congrArg Prod.snd (touched_ident reg nowS r)
  exact touched.trans ((learned_remoteMac reg _).trans (congrArg (learnedMac reg) counted))

theorem learnedMac_kept {reg : Registration} {mac : Mac}
    (kept : reg.remoteMac = none ∨ reg.unicastToMe = false ∧ mac ≠ linkMacUnknown) :
    learnedMac reg mac = mac := by
  unfold learnedMac
  rcases kept with none | ⟨notMe, known⟩
  · rw [none]
  · split
    · rfl
    · rw [if_neg (by simp [notMe, rnsLinkMacIsUnknown, known])]

theorem learnedMac_unknown {reg : Registration} {told : Mac} (mac : reg.remoteMac = some told) :
    learnedMac reg linkMacUnknown = told := by
  simp [learnedMac, mac, rnsLinkMacIsUnknown]

namespace LinkMap

variable {m : LinkMap} {reg : Registration} {nowS : Int} {malloc : Bool} {id : LinkId}

theorem register_other (other : reg.pkg.linkId ≠ id) :
    (m.register reg nowS malloc).2 id = m id := by
  unfold register
  dsimp only
  repeat' split
  all_goals first | rfl | exact update_of_ne other.symm ..

theorem register_close (same : reg.pkg.linkId = id) (close : reg.pkg.context = contextLinkclose) :
    (m.register reg nowS malloc).2 = update m id none := by
  simp only [register, if_pos close, same]

theorem register_present {r : Record} (same : reg.pkg.linkId = id)
    (goes : reg.pkg.context ≠ contextLinkclose) (held : m id = some r) :
    (m.register reg nowS malloc).2 id = some (r.touched reg nowS) := by
  subst same
  simp only [register, if_neg goes, held, update_self]

theorem register_absent (same : reg.pkg.linkId = id) (goes : reg.pkg.context ≠ contextLinkclose)
    (absent : m id = none) (room : m.size < dbMaxLinkCount) (allocated : malloc = true) :
    (m.register reg nowS malloc).2 id = some ((Record.fresh reg nowS).touched reg nowS) := by
  subst same
  simp only [register, if_neg goes, absent, if_neg (Nat.not_le.mpr room), allocated, Bool.not_true,
    Bool.false_eq_true, if_false, update_self]

theorem register_newcomer {s : Record} (goes : reg.pkg.context ≠ contextLinkclose)
    (absent : m reg.pkg.linkId = none)
    (left : (m.register reg nowS malloc).2 reg.pkg.linkId = some s) :
    s = (Record.fresh reg nowS).touched reg nowS := by
  simp only [register, if_neg goes, absent] at left
  split at left
  · cases absent.symm.trans left
  · split at left
    · cases absent.symm.trans left
    · exact Option.some.inj (left.symm.trans (update_self ..))

theorem register_survivor {r s : Record} (held : m id = some r)
    (left : (m.register reg nowS malloc).2 id = some s) :
    reg.pkg.linkId ≠ id ∧ s = r ∨ reg.pkg.linkId = id ∧ s = r.touched reg nowS := by
  by_cases same : reg.pkg.linkId = id
  · by_cases close : reg.pkg.context = contextLinkclose
    · rw [register_close same close, update_self] at left
      cases left
    · rw [register_present same close held] at left
      exact .inr ⟨same, (Option.some.inj left).symm⟩
  · rw [register_other same, held] at left
    exact .inl ⟨same, (Option.some.inj left).symm⟩

theorem sweep_survivor {r s : Record} (held : m id = some r) (left : m.sweep nowS id = some s) :
    s = r := by
  rw [sweep, held, Option.filter_eq_some_iff] at left
  exact (Option.some.inj left.1).symm

end LinkMap

def LinkState.rank : LinkState → Nat
  | .closed => 0
  | .requestSent => 1
  | .proofReceived => 2
  | .isOpen => 3

structure Record.Evolves (regs : List Registration) (r s : Record) : Prop where
  id : s.id = r.id
  destination : s.destination = r.destination
  firstseen : s.firstseenTimestampS = r.firstseenTimestampS
  forwards : r.state.rank ≤ s.state.rank
  stays_open : r.state = .isOpen → s.state = .isOpen
  mtu : s.effectiveMtu ≠ r.effectiveMtu → ∃ reg ∈ regs, reg.updateMtu = true
  mac : rnsLinkMacIsUnknown r.remoteMac = false → s.remoteMac ≠ r.remoteMac →
    ∃ reg ∈ regs, reg.unicastToMe = true ∧ reg.remoteMac ≠ none
  others : regs = [] → s = r

namespace Record.Evolves

variable {regs regs' : List Registration} {r s t : Record}

theorem refl (regs : List Registration) (r : Record) : Evolves regs r r where
  id := rfl
  destination := rfl
  firstseen := rfl
  forwards := le_rfl
  stays_open isOpen := isOpen
  mtu changed := absurd rfl changed
  mac _ changed := absurd rfl changed
  others _ := rfl

theorem trans (first : Evolves regs r s) (later : Evolves regs' s t) :
    Evolves (regs ++ regs') r t where
  id := later.id.trans first.id
  destination := later.destination.trans first.destination
  firstseen := later.firstseen.trans first.firstseen
  forwards := first.forwards.trans later.forwards
  stays_open isOpen := later.stays_open (first.stays_open isOpen)
  mtu changed := by
    by_cases early : s.effectiveMtu = r.effectiveMtu
    · obtain ⟨reg, mem, updates⟩ := later.mtu (by rwa [early])
      exact ⟨reg, List.mem_append_right regs mem, updates⟩
    · obtain ⟨reg, mem, updates⟩ := first.mtu early
      exact ⟨reg, List.mem_append_left regs' mem, updates⟩
  mac known changed := by
    by_cases early : s.remoteMac = r.remoteMac
    · obtain ⟨reg, mem, told⟩ := later.mac (by rwa [early]) (by rwa [early])
      exact ⟨reg, List.mem_append_right regs mem, told⟩
    · obtain ⟨reg, mem, told⟩ := first.mac known early
      exact ⟨reg, List.mem_append_left regs' mem, told⟩
  others none := by
    obtain ⟨before, after⟩ := List.append_eq_nil_iff.mp none
    exact (later.others after).trans (first.others before)

end Record.Evolves

namespace Record

variable (reg : Registration) (nowS : Int) (r : Record)

def slow (r : Record) : LinkId × LinkId × Int × BitVec 32 × LinkState :=
  (r.id, r.destination, r.firstseenTimestampS, r.effectiveMtu, r.state)

theorem counted_slow : (r.counted reg nowS).slow = r.slow := by
  unfold counted
  split <;> rfl

theorem learned_slow : (r.learned reg).slow = r.slow := by
  unfold learned
  split
  · rfl
  · split <;> rfl

theorem resized_mtu (changed : (r.resized reg).effectiveMtu ≠ r.effectiveMtu) :
    reg.updateMtu = true := by
  unfold resized at changed
  split at changed
  next both => exact (Bool.and_eq_true_iff.mp both).1
  next => exact absurd rfl changed

theorem resized_root : (r.resized reg).destination = r.destination ∧
    (r.resized reg).firstseenTimestampS = r.firstseenTimestampS ∧ (r.resized reg).state = r.state := by
  unfold resized
  split <;> exact ⟨rfl, rfl, rfl⟩

theorem advanced_root : (r.advanced reg).destination = r.destination ∧
    (r.advanced reg).firstseenTimestampS = r.firstseenTimestampS ∧
    (r.advanced reg).effectiveMtu = r.effectiveMtu := by
  unfold advanced
  repeat' split
  all_goals exact ⟨rfl, rfl, rfl⟩

theorem advanced_open (isOpen : r.state = .isOpen) : (r.advanced reg).state = .isOpen := by
  rw [advanced, if_pos isOpen, isOpen]

theorem advanced_forwards : r.state.rank ≤ (r.advanced reg).state.rank := by
  cases state : r.state with
  | isOpen => rw [advanced_open reg r state]
  | proofReceived | requestSent =>
    unfold advanced
    repeat' split
    all_goals simp_all [LinkState.rank]
  | closed => exact Nat.zero_le _

theorem noted_slow :
    ((({ r with hops := reg.pkg.hops } : Record).counted reg nowS).learned reg).slow = r.slow :=
  (learned_slow reg _).trans (counted_slow reg nowS _)

theorem touched_evolves : Evolves [reg] r (r.touched reg nowS) := by
  have noted := noted_slow reg nowS r
  have mac := touched_remoteMac reg nowS r
  have id := touched_id reg nowS r
  unfold touched at mac id ⊢
  generalize (({ r with hops := reg.pkg.hops } : Record).counted reg nowS).learned reg = n at *
  simp only [slow, Prod.mk.injEq] at noted
  obtain ⟨-, destination, firstseen, mtu, state⟩ := noted
  obtain ⟨destination1, firstseen1, state1⟩ := resized_root reg n
  obtain ⟨destination2, firstseen2, mtu2⟩ := advanced_root reg (n.resized reg)
  have before : (n.resized reg).state = r.state := state1.trans state
  exact
    { id := id
      destination := destination2.trans (destination1.trans destination)
      firstseen := firstseen2.trans (firstseen1.trans firstseen)
      forwards := by
        rw [← before]
        exact advanced_forwards reg (n.resized reg)
      stays_open := by
        rw [← before]
        exact advanced_open reg (n.resized reg)
      mtu := by
        rw [mtu2, ← mtu]
        intro changed
        exact ⟨reg, List.mem_singleton_self reg, resized_mtu reg n changed⟩
      mac := by
        rw [mac]
        intro known changed
        refine ⟨reg, List.mem_singleton_self reg, ?_⟩
        by_contra neither
        refine changed (learnedMac_kept ?_)
        by_cases told : reg.remoteMac = none
        · exact .inl told
        · refine .inr ⟨Bool.eq_false_iff.mpr fun me => neither ⟨me, told⟩, ?_⟩
          exact of_decide_eq_false known
      others := fun none => absurd none (List.cons_ne_nil reg []) }

end Record

def DbOp.about (id : LinkId) : DbOp → List Registration
  | .register reg _ _ => if reg.pkg.linkId = id then [reg] else []
  | .sweep _ => []

def registrationsOf (id : LinkId) (ops : List DbOp) : List Registration := ops.flatMap (DbOp.about id)

namespace WellDb

def step (d : WellDb) : DbOp → WellDb
  | .register reg nowS malloc => (d.register reg nowS malloc).2
  | .sweep nowS => d.sweep nowS

def run (d : WellDb) (ops : List DbOp) : WellDb := ops.foldl step d

def Lives (id : LinkId) (d : WellDb) (ops : List DbOp) : Prop :=
  ∀ done, done <+: ops → (d.run done).record id ≠ none

variable {id : LinkId} {d : WellDb} {r s : Record}

theorem step_evolves (op : DbOp) (held : d.record id = some r)
    (left : (d.step op).record id = some s) : r.Evolves (op.about id) s := by
  cases op with
  | sweep nowS =>
    change (d.sweep nowS).record id = some s at left
    rw [sweep_record] at left
    rw [LinkMap.sweep_survivor held left]
    exact .refl [] r
  | register reg nowS malloc =>
    change (d.register reg nowS malloc).2.record id = some s at left
    rw [register_record] at left
    rcases LinkMap.register_survivor held left with ⟨other, rfl⟩ | ⟨same, rfl⟩
    · rw [DbOp.about, if_neg other]
      exact .refl [] s
    · rw [DbOp.about, if_pos same]
      exact r.touched_evolves reg nowS

theorem Lives.tail {op : DbOp} {ops : List DbOp} (lives : Lives id d (op :: ops)) :
    Lives id (d.step op) ops := by
  intro done part
  exact lives (op :: done) (List.cons_prefix_cons.mpr ⟨rfl, part⟩)

theorem link_record_evolves (id : LinkId) (d : WellDb) (ops : List DbOp) (r s : Record)
    (lives : Lives id d ops) (held : d.record id = some r)
    (left : (d.run ops).record id = some s) : r.Evolves (registrationsOf id ops) s := by
  induction ops generalizing d r with
  | nil =>
    obtain rfl : r = s := Option.some.inj (held.symm.trans left)
    exact .refl [] r
  | cons op ops ih =>
    obtain ⟨t, next⟩ := Option.ne_none_iff_exists'.mp (lives [op] ⟨ops, rfl⟩)
    have first : r.Evolves (op.about id) t := step_evolves op held next
    have later : t.Evolves (registrationsOf id ops) s := ih (d.step op) t lives.tail next left
    exact first.trans later

end WellDb

section Opening

def quietLink : LinkId := Vector.replicate truncatedHashLen 0x22#8

def quietInfo (packetType : PacketType) (destinationType : DestinationType) : PacketInfo :=
  { hops := 1
    destinationType := destinationType
    packetType := packetType
    context := 0x00#8
    payloadLen := 67
    destination := quietLink
    linkId := quietLink
    valid := true }

def requestOut : Registration := ⟨quietInfo .linkrequest .single, .tx, none, 500, true, false⟩

def answerIn : Registration :=
  ⟨quietInfo .data .link, .rx, some ⟨2, 0, 0, 0, 0, 2⟩, 0, false, true⟩

def requested : WellDb := (WellDb.init.register requestOut 5 true).2

theorem requested_record :
    requested.record quietLink = some ((Record.fresh requestOut 5).touched requestOut 5) := by
  have empty : WellDb.init.record = LinkMap.empty := WellDb.record_eq LinkDb.Refines.init
  rw [requested, WellDb.register_record, empty]
  refine LinkMap.register_absent rfl (by decide) rfl ?_ rfl
  rw [LinkDb.Refines.init.size]
  decide

theorem answered_record :
    (requested.run [.register answerIn 6 true]).record quietLink =
      some (((Record.fresh requestOut 5).touched requestOut 5).touched answerIn 6) := by
  change (requested.register answerIn 6 true).2.record quietLink = _
  rw [WellDb.register_record]
  exact LinkMap.register_present rfl (by decide) requested_record

theorem requested_lives : WellDb.Lives quietLink requested [.register answerIn 6 true] := by
  intro done part
  rcases List.prefix_cons_iff.mp part with rfl | ⟨rest, rfl, inner⟩
  · change requested.record quietLink ≠ none
    rw [requested_record]
    exact Option.some_ne_none _
  · rw [List.prefix_nil.mp inner, answered_record]
    exact Option.some_ne_none _

theorem link_record_evolves_answered :
    ∃ r s, requested.record quietLink = some r ∧ r.state = .requestSent ∧ r.effectiveMtu = 500 ∧
      (requested.run [.register answerIn 6 true]).record quietLink = some s ∧
      s.state = .isOpen ∧ s.remoteMac = ⟨2, 0, 0, 0, 0, 2⟩ ∧
      r.Evolves [answerIn] s :=
  ⟨_, _, requested_record, by decide, by decide, answered_record, by decide, by decide,
    WellDb.link_record_evolves quietLink requested [.register answerIn 6 true] _ _ requested_lives
      requested_record answered_record⟩

end Opening

end RnodeHalow.Rns
