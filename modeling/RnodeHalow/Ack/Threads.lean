import RnodeHalow.Ack.Still

set_option autoImplicit false

namespace RnodeHalow.Ack

open Resumption
open Function (update update_idem update_of_ne update_self)

variable {ρ : Type} [Platform ρ]

def collect {α : Type} (pick : Event → Option α) (i : PeerIx) : History → List α
  | [] => []
  | (_, e) :: older => if e.opens i then [] else (pick e).toList ++ collect pick i older

def pickAppended (t : Nat) (i : PeerIx) : Event → Option (List Byte)
  | .appended u k payload => if u = t ∧ k = i then some payload else none
  | _ => none

def pickBundled (t : Nat) (i : PeerIx) : Event → Option (List Byte)
  | .bundled u k payload => if u = t ∧ k = i then some payload else none
  | _ => none

def appendedBy (t : Nat) (i : PeerIx) : History → List (List Byte) :=
  collect (pickAppended t i) i

def bundledBy (t : Nat) (i : PeerIx) : History → List (List Byte) :=
  collect (pickBundled t i) i

def Settled (t : Nat) (trace : History) : Prop :=
  ∀ i, appendedBy t i trace = bundledBy t i trace

def Owed (t : Nat) (i : PeerIx) (payload : List Byte) (trace : History) : Prop :=
  (∀ k, k ≠ i → appendedBy t k trace = bundledBy t k trace) ∧
    appendedBy t i trace = payload :: bundledBy t i trace

def Sampled (t : Nat) (now : Jiffy) (trace : History) : Prop :=
  ∃ τ, lastSample t trace = some τ ∧ now = BitVec.ofNat 32 τ

def Flight (t : Nat) (j : BufIx) (buf : AckBuf) (c : Core) : Prop :=
  c.bufs j = some buf ∧ buf.state = .sending ∧ c.sender j = t

def Here (i : PeerIx) (mac : Mac) (c : Core) : Prop :=
  (c.peers i).inUse = true ∧ (c.peers i).mac = mac

structure Extends (t : Nat) (news older trace : History) : Prop where
  eq : trace = news ++ older
  own : ∀ e ∈ news, e.2.actor = none ∨ e.2.actor = some t

theorem Extends.nothing (t : Nat) (trace : History) : Extends t [] trace trace :=
  ⟨rfl, by simp⟩

theorem Extends.one {t τ : Nat} {e : Event} (own : e.actor = none ∨ e.actor = some t)
    (trace : History) : Extends t [(τ, e)] trace ((τ, e) :: trace) :=
  ⟨rfl, by simpa using own⟩

variable {c c' : Core} {t u : Nat} {i : PeerIx} {news older trace : History}
    {buf : AckBuf}

theorem Calm.extends (move : Calm c c') (t : Nat) : ∃ news, Extends t news c.trace c'.trace := by
  cases move with
  | elapse | peer | governor | measured => exact ⟨[], .nothing t _⟩
  | air | kick | opened | forget => exact ⟨_, .one (.inl rfl) _⟩

theorem Micro.extends (move : Micro t c c') : ∃ news, Extends t news c.trace c'.trace := by
  cases move with
  | calm move => exact move.extends t
  | sample | accept | due | append | touch | hold | hear | meet | deliver =>
    exact ⟨_, .one (.inr rfl) _⟩
  | expire j buf life τ =>
    exact ⟨[(c.clock, .deadlineDropped t j life), (c.clock, .landed j)], rfl, by simp [Event.actor]⟩
  | stage i j blk cap n1 n2 payload =>
    exact ⟨[(n2, .appended t i payload), (n2, .stamped i), (n1, .born j)], rfl,
      by simp [Event.actor]⟩
  | launch i j buf p n1 n2 n3 =>
    exact ⟨[(n3, .flushed i _ _), (n2, .born j), (n1, .txStamped j)], rfl, by simp [Event.actor]⟩
  | plain i j blk payload n1 n2 =>
    exact ⟨[(n2, .txStamped j), (n1, .born j)], rfl, by simp [Event.actor]⟩
  | mark | sentOff => exact ⟨[], .nothing t _⟩
  | handOff | release | reconfig | reject => exact ⟨_, .one (.inl rfl) _⟩

theorem actor_ne {t u v : Nat} (ne : u ≠ t) (own : some v = none ∨ some v = some u) : v ≠ t := by
  rcases own with none | same
  · cases none
  · cases same
    exact ne

theorem picks_none (ne : u ≠ t) {e : Event} (own : e.actor = none ∨ e.actor = some u) (i : PeerIx) :
    pickAppended t i e = none ∧ pickBundled t i e = none := by
  cases e with
  | appended v k payload => exact ⟨if_neg fun hit => actor_ne ne own hit.1, rfl⟩
  | bundled v k payload => exact ⟨rfl, if_neg fun hit => actor_ne ne own hit.1⟩
  | _ => exact ⟨rfl, rfl⟩

theorem collect_congr {α : Type} {p q : Event → Option α}
    (silent : ∀ e ∈ news, p e.2 = none ∧ q e.2 = none)
    (same : collect p i older = collect q i older) :
    collect p i (news ++ older) = collect q i (news ++ older) := by
  induction news with
  | nil => exact same
  | cons e rest ih =>
    have head := silent e (by simp)
    have tail := ih fun x member => silent x (by simp [member])
    simp only [List.cons_append, collect, head.1, head.2, tail]

theorem Settled.cons {t τ : Nat} {e : Event} (settled : Settled t trace)
    (silent : ∀ i, pickAppended t i e = none ∧ pickBundled t i e = none) :
    Settled t ((τ, e) :: trace) := by
  intro i
  have event (x : Nat × Event) (member : x ∈ [(τ, e)]) :
      pickAppended t i x.2 = none ∧ pickBundled t i x.2 = none := by
    rw [List.mem_singleton.mp member]
    exact silent i
  exact collect_congr event (settled i)

theorem settled_extends (ne : u ≠ t) (ext : Extends u news older trace)
    (same : appendedBy t i older = bundledBy t i older) :
    appendedBy t i trace = bundledBy t i trace := by
  rw [ext.eq]
  exact collect_congr (fun e member => picks_none ne (ext.own e member) i) same

theorem latest_append {p : Event → Bool} (silent : ∀ e ∈ news, p e.2 = false) :
    latest p (news ++ older) = latest p older := by
  induction news with
  | nil => rfl
  | cons e rest ih =>
    have head := silent e (by simp)
    have tail := ih fun x member => silent x (by simp [member])
    simp [latest, head, tail]

theorem lastSample_extends (ne : u ≠ t) (ext : Extends u news older trace) :
    lastSample t trace = lastSample t older := by
  rw [ext.eq]
  apply latest_append
  intro e member
  have own := ext.own e member
  have other : e.2 ≠ .sampled t := by
    intro h
    rw [h] at own
    simp only [Event.actor, Option.some.injEq, reduceCtorEq, false_or] at own
    exact ne own.symm
  simp [other]

theorem cleared_extends (ne : u ≠ t) (ext : Extends u news older trace) (src : Mac)
    (payload : List Byte) : cleared t src payload trace = cleared t src payload older := by
  obtain ⟨rfl, own⟩ := ext
  induction news with
  | nil => rfl
  | cons e rest ih =>
    obtain ⟨τ, e⟩ := e
    have tail := ih fun x member => own x (by simp [member])
    have head := own (τ, e) (by simp)
    rw [List.cons_append, ← tail]
    cases e with
    | heard | delivered => exact if_neg fun hit => actor_ne ne head hit.1
    | _ => rfl

def Keeps (t : Nat) (P : Core → Prop) : Prop :=
  ∀ u, u ≠ t → ∀ c c', Inv c → Micro u c c' → P c → P c'

theorem Keeps.and {P Q : Core → Prop} (p : Keeps t P) (q : Keeps t Q) :
    Keeps t fun c => P c ∧ Q c :=
  fun u ne c c' inv move h => ⟨p u ne c c' inv move h.1, q u ne c c' inv move h.2⟩

theorem settled_keeps (t : Nat) : Keeps t fun c => Settled t c.trace := by
  intro u ne c c' _ move h i
  obtain ⟨news, ext⟩ := move.extends
  exact settled_extends ne ext (h i)

theorem sampled_keeps (t : Nat) (now : Jiffy) : Keeps t fun c => Sampled t now c.trace := by
  intro u ne c c' _ move h
  obtain ⟨τ, last, eq⟩ := h
  obtain ⟨news, ext⟩ := move.extends
  exact ⟨τ, (lastSample_extends ne ext).trans last, eq⟩

theorem cleared_keeps (t : Nat) (src : Mac) (payload : List Byte) :
    Keeps t fun c => cleared t src payload c.trace = true := by
  intro u ne c c' _ move h
  obtain ⟨news, ext⟩ := move.extends
  exact (cleared_extends ne ext src payload).trans h

theorem not_staging (sending : buf.state = .sending) : buf.state ≠ .staging := by
  rw [sending]
  decide

theorem Micro.flight (ne : u ≠ t) (inv : Inv c) (move : Micro u c c') {j : BufIx}
    (flight : Flight t j buf c) : Flight t j buf c' := by
  obtain ⟨held, sending, sender⟩ := flight
  have other {k : BufIx} {x : Option AckBuf} (diff : c.bufs k ≠ some buf) :
      update c.bufs k x j = some buf := by
    rw [update_of_ne, held]
    rintro rfl
    exact diff held
  have otherSender {k : BufIx} (diff : c.bufs k ≠ some buf) (w : Nat) :
      update c.sender k w j = t := by
    rw [update_of_ne, sender]
    rintro rfl
    exact diff held
  have inflight_ne {k : BufIx} {old : AckBuf} (there : c.bufs k = some old)
      (state : old.state = .inflight) : c.bufs k ≠ some buf := by
    rw [there]
    rintro ⟨⟩
    rw [sending] at state
    cases state
  have named_ne {i : PeerIx} {k : BufIx} {old : AckBuf} (inUse : (c.peers i).inUse = true)
      (agg : (c.peers i).aggIdx = some k) (there : c.bufs k = some old) :
      c.bufs k ≠ some buf := by
    rw [there]
    rintro ⟨⟩
    exact not_staging sending (inv.rep.named inUse agg there).1
  have empty_ne {k : BufIx} (empty : c.bufs k = none) : c.bufs k ≠ some buf := by
    rw [empty]
    rintro ⟨⟩
  cases move with
  | calm move =>
    cases move with
    | kick k old due there state => exact ⟨other (inflight_ne there state), sending, sender⟩
    | elapse | air | peer | opened | governor | measured | forget => exact ⟨held, sending, sender⟩
  | sample | accept | due | handOff | reconfig | reject | hear | meet | deliver =>
    exact ⟨held, sending, sender⟩
  | expire k old life τ there state | touch k old τ there state | release k old why there state =>
    exact ⟨other (inflight_ne there state), sending, sender⟩
  | stage i k blk cap n1 n2 payload inUse idle empty =>
    refine ⟨?_, sending, sender⟩
    simp only [Core.appendAt, Core.stageAt, Core.setBuf, Core.setPeer, Core.note,
      update_idem]
    exact other (empty_ne empty)
  | append i k old payload inUse agg there | hold i k old τ inUse agg there =>
    exact ⟨other (named_ne inUse agg there), sending, sender⟩
  | launch i k old p n1 n2 n3 inUse agg there =>
    exact ⟨other (named_ne inUse agg there), sending, otherSender (named_ne inUse agg there) u⟩
  | plain i k blk payload n1 n2 inUse empty =>
    exact ⟨other (empty_ne empty), sending, otherSender (empty_ne empty) u⟩
  | mark k old τ there state =>
    exact ⟨other (inflight_ne there state), sending, otherSender (inflight_ne there state) u⟩
  | sentOff k old there _ own =>
    have diff : k ≠ j := by
      rintro rfl
      exact ne (own.symm.trans sender)
    refine ⟨?_, sending, sender⟩
    simpa only [Core.setBuf, update_of_ne (Ne.symm diff)] using held

theorem flight_keeps (t : Nat) (j : BufIx) (buf : AckBuf) : Keeps t (Flight t j buf) :=
  fun _ ne _ _ inv move h => move.flight ne inv h

theorem Here.setPeer {i k : PeerIx} {mac : Mac} {p : AckPeer} (here : Here i mac c)
    (same : SamePlace (c.peers k) p) : Here i mac (c.setPeer k p) := by
  by_cases eq : i = k
  · subst eq
    simpa [Here, Core.setPeer, same.inUse, same.mac] using here
  · simpa [Here, Core.setPeer, update_of_ne eq] using here

theorem Calm.here (move : Calm c c') {mac : Mac} (here : Here i mac c) {j : BufIx}
    (held : c.bufs j = some buf) (dest : buf.destMac = mac) :
    Here i mac c' ∧ ∀ t, ∃ news, Extends t news c.trace c'.trace ∧
      ∀ e ∈ news, e.2.opens i = false := by
  cases move with
  | elapse | governor | measured => exact ⟨here, fun t => ⟨[], .nothing t _, by simp⟩⟩
  | air | kick => exact ⟨here, fun t => ⟨_, .one (.inl rfl) _, by simp [Event.opens]⟩⟩
  | peer k p same => exact ⟨here.setPeer same, fun t => ⟨[], .nothing t _, by simp⟩⟩
  | opened k p mac' fresh new bare =>
    have ne : k ≠ i := by
      rintro rfl
      exact bare here.1 j buf held (dest.trans here.2.symm)
    refine ⟨?_, fun t => ⟨_, .one (.inl rfl) _, by simp [Event.opens, ne]⟩⟩
    simpa [Here, Core.setPeer, Core.note, update_of_ne (Ne.symm ne)] using here
  | forget k p mac' inUse named same =>
    exact ⟨here.setPeer same, fun t => ⟨_, .one (.inl rfl) _, by simp [Event.opens]⟩⟩

theorem Micro.here (move : Micro t c c') {mac : Mac} (here : Here i mac c) {j : BufIx}
    (held : c.bufs j = some buf) (dest : buf.destMac = mac) :
    Here i mac c' ∧ ∃ news, Extends t news c.trace c'.trace ∧ ∀ e ∈ news, e.2.opens i = false := by
  have kept {k : PeerIx} {p : AckPeer} (inUse : p.inUse = (c.peers k).inUse)
      (same : p.mac = (c.peers k).mac) :
      (update c.peers k p i).inUse = true ∧ (update c.peers k p i).mac = mac := by
    by_cases eq : i = k
    · subst eq
      rw [update_self, inUse, same]
      exact here
    · rw [update_of_ne eq]
      exact here
  cases move with
  | calm move =>
    have both := move.here here held dest
    exact ⟨both.1, both.2 t⟩
  | sample | accept | due | touch | meet | deliver =>
    exact ⟨here, _, .one (.inr rfl) _, by simp [Event.opens]⟩
  | expire k old life τ =>
    exact ⟨here, [(c.clock, .deadlineDropped t k life), (c.clock, .landed k)],
      ⟨rfl, by simp [Event.actor]⟩, by simp [Event.opens]⟩
  | stage k m blk cap n1 n2 payload =>
    refine ⟨?_, [(n2, .appended t k payload), (n2, .stamped k), (n1, .born m)],
      ⟨rfl, by simp [Event.actor]⟩, by simp [Event.opens]⟩
    simp only [Here, Core.appendAt, Core.stageAt, Core.setBuf, Core.setPeer, Core.note,
      update_idem]
    exact kept (by simp [AckPeer.aggGrow, AckPeer.aggOpen]) (by simp [AckPeer.aggGrow, AckPeer.aggOpen])
  | append | hold => exact ⟨kept rfl rfl, _, .one (.inr rfl) _, by simp [Event.opens]⟩
  | launch k m old p n1 n2 n3 _ _ _ _ _ _ _ same =>
    exact ⟨kept same.inUse same.mac, [(n3, .flushed k _ _), (n2, .born m), (n1, .txStamped m)],
      ⟨rfl, by simp [Event.actor]⟩, by simp [Event.opens]⟩
  | plain k m blk payload n1 n2 =>
    exact ⟨here, [(n2, .txStamped m), (n1, .born m)], ⟨rfl, by simp [Event.actor]⟩,
      by simp [Event.opens]⟩
  | mark | sentOff => exact ⟨here, [], .nothing t _, by simp⟩
  | handOff | release | reconfig | reject =>
    exact ⟨here, _, .one (.inl rfl) _, by simp [Event.opens]⟩
  | hear k src payload undefinedShl =>
    exact ⟨here.setPeer (peerRxSeq_place _ _ _), _, .one (.inr rfl) _, by simp [Event.opens]⟩

theorem collect_silent {α : Type} {p : Event → Option α} (silent : ∀ e ∈ news, p e.2 = none)
    (stays : ∀ e ∈ news, e.2.opens i = false) :
    collect p i (news ++ older) = collect p i older := by
  induction news with
  | nil => rfl
  | cons e rest ih =>
    have tail := ih (fun x member => silent x (by simp [member]))
      fun x member => stays x (by simp [member])
    simp [collect, silent e (by simp), stays e (by simp), tail]

def AtHome (t : Nat) (i : PeerIx) (mac : Mac) (j : BufIx) (buf : AckBuf) (c : Core) : Prop :=
  Flight t j buf c ∧ buf.destMac = mac ∧ Here i mac c

theorem atHome_keeps (t : Nat) (i : PeerIx) (mac : Mac) (j : BufIx) (buf : AckBuf) :
    Keeps t (AtHome t i mac j buf) := by
  rintro u ne c c' inv move ⟨flight, dest, here⟩
  exact ⟨move.flight ne inv flight, dest, (move.here here flight.1 dest).1⟩

theorem owed_keeps (t : Nat) (i : PeerIx) (mac : Mac) (j : BufIx) (buf : AckBuf)
    (payload : List Byte) : Keeps t fun c => AtHome t i mac j buf c ∧ Owed t i payload c.trace := by
  rintro u ne c c' inv move ⟨home, others, own⟩
  have stays := atHome_keeps t i mac j buf u ne c c' inv move home
  obtain ⟨news, ext, quiet⟩ := (move.here home.2.2 home.1.1 home.2.1).2
  refine ⟨stays, fun k diff => settled_extends ne ext (others k diff), ?_⟩
  have silent (e : Nat × Event) (member : e ∈ news) := picks_none ne (ext.own e member) i
  have app : appendedBy t i c'.trace = appendedBy t i c.trace := by
    rw [ext.eq]
    exact collect_silent (fun e member => (silent e member).1) quiet
  have bun : bundledBy t i c'.trace = bundledBy t i c.trace := by
    rw [ext.eq]
    exact collect_silent (fun e member => (silent e member).2) quiet
  rw [app, bun, own]

theorem Chain.kept {P : Core → Prop} (keeps : Keeps t P) (ne : u ≠ t) (inv : Inv c)
    (chain : Chain u c c') (h : P c) : P c' :=
  chain.keeps (fun a b inv move => keeps u ne a b inv move) inv h

theorem drift_chain {b b' : Body ρ} (moved : drift b b') (t : Nat) :
    Chain t (core b) (core b') := by
  obtain ⟨r, later, rfl⟩ := moved
  exact .single (.calm (.elapse (Platform.jiffies r) later))

def ackDiscipline : Discipline (bodyMachine (drift (ρ := ρ))) where
  inv b := Inv (core b)
  act t b b' := Chain t (core b) (core b')
  idle t b := Settled t b.trace
  act_refl _ _ := .refl
  act_enter _ _ := .refl
  act_trans := Relation.ReflTransGen.trans
  act_inv inv chain := chain.inv inv
  drift_inv inv moved := (drift_chain moved 0).inv inv
  idle_act ne inv chain h := Chain.kept (settled_keeps _) ne inv chain h
  idle_drift := by
    intro t b b' inv moved h
    exact Chain.kept (settled_keeps t) (show t + 1 ≠ t by omega) inv (drift_chain moved (t + 1)) h

theorem Keeps.stable {P : Core → Prop} (keeps : Keeps t P) :
    (ackDiscipline (ρ := ρ)).Stable t fun b => P (core b) := by
  rintro b b' ⟨inv, ⟨u, ne, chain⟩ | moved⟩ h
  · exact Chain.kept keeps ne inv chain h
  · exact Chain.kept keeps (show t + 1 ≠ t by omega) inv (drift_chain moved (t + 1)) h

end RnodeHalow.Ack
