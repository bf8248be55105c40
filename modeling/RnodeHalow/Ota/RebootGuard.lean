import RnodeHalow.Ota.Firmware
import RnodeHalow.Radio.Watchdog

set_option autoImplicit false

namespace RnodeHalow.Ota

open Radio

def webApiRebootPost (s : Updater) (env : Env) (wotaActive : Bool) : Updater × Bool :=
  let fw := otaFwActive s env
  (fw.1, !(fw.2 || wotaActive))

structure Guarded (s : Updater) (env : Env) : Prop where
  active : (otaFwActive s env).2 = true
  api : ∀ wotaActive, (webApiRebootPost s env wotaActive).2 = false
  watchdog : ∀ (wotaActive : Bool) (now : Jiffies) (w : Watchdog) (m : Lmac),
    m.otaActive = (wotaActive || (otaFwActive s env).2) →
      (txWatchdogHardWedge now w m).2.rebooted = m.rebooted

theorem txWatchdogWedgePurge_rebooted (now : Jiffies) (acpdMoved : Bool) (stuckMs : Nat)
    (w : Watchdog) (m : Lmac) :
    (txWatchdogWedgePurge now acpdMoved stuckMs w m).2.rebooted = m.rebooted := by
  dsimp only [txWatchdogWedgePurge]
  generalize (if acpdMoved = true then 0 else w.deadStrikes + 1) = strikes
  split
  next => rfl
  next => rfl

theorem txWatchdogHardWedge_rebooted (now : Jiffies) (w : Watchdog) {m : Lmac}
    (ota : m.otaActive = true) : (txWatchdogHardWedge now w m).2.rebooted = m.rebooted := by
  have choose {c : Prop} [Decidable c] {r r' : Watchdog × Lmac}
      (yes : c → r.2.rebooted = m.rebooted) (no : r'.2.rebooted = m.rebooted) :
      (if c then r else r').2.rebooted = m.rebooted := by
    split
    next taken => exact yes taken
    next => exact no
  refine choose (fun _ => rfl) (choose (fun _ => rfl) (choose (fun _ => ?_) (choose ?_ rfl)))
  · exact txWatchdogWedgePurge_rebooted ..
  · intro dead
    rw [ota] at dead
    exact absurd dead.2.2 (by decide)

theorem guarded_iff {s : Updater} {env : Env} : Guarded s env ↔ (otaFwActive s env).2 = true := by
  constructor
  · exact Guarded.active
  · intro active
    refine ⟨active, ?_, ?_⟩
    · intro wotaActive
      simp [webApiRebootPost, active]
    · intro wotaActive now w m ota
      rw [active, Bool.or_true] at ota
      exact txWatchdogHardWedge_rebooted now w ota

theorem otaFwActive_iff {s : Updater} {env : Env} : (otaFwActive s env).2 = true ↔
    s.fw.active = true ∧ env.timeMs - s.beginMs ≤ otaFwSessionTimeoutMs := by
  unfold otaFwActive
  by_cases active : s.fw.active = true
  · by_cases late : otaFwSessionTimeoutMs < env.timeMs - s.beginMs
    · simp [active, late, not_le.mpr late]
    · simp [active, late, not_lt.mp late]
  · simp [active]

def Event.frame? (e : Event) : Option (List Byte) :=
  match e.call with
  | .fwData true (some frame) => if fwHeader frame && fwAdmits frame then some frame else none
  | _ => none

def writeResult (s : Updater) (e : Event) (frame : List Byte) : Int :=
  (fwDataWrite (s.note (.chunk (fwOff frame))) e.env frame).2

def Ends (s : Updater) (e : Event) : Prop :=
  ∃ frame, e.frame? = some frame ∧
    (writeResult s e frame ≠ 0 ∨ fwTotal frame ≤ fwEnd frame)

def Opens (s : Updater) (e : Event) : Prop :=
  ∃ frame, e.frame? = some frame ∧ fwOff frame = 0#32 ∧ writeResult s e frame = 0

def Event.OfUpdate (e : Event) : Prop := e.call = .query ∨ ∃ nif data, e.call = .fwData nif data

def Running (s : Updater) (events : List Event) : Prop :=
  Runs.Along step (fun s e => ¬Ends s e) s events

section Frame

variable {s s' : Updater} {env : Env}

structure SameGuard (s s' : Updater) : Prop where
  fw : s'.fw = s.fw
  beginMs : s'.beginMs = s.beginMs

theorem otaFalPartGet_same {found : Option Part} (got : otaFalPartGet s env = (s', found)) :
    SameGuard s s' := by
  unfold otaFalPartGet at got
  split at got
  next =>
    cases got
    exact ⟨rfl, rfl⟩
  next =>
    cases got
    exact ⟨rfl, rfl⟩

theorem otaFalEraseIfNeeded_same (s : Updater) (env : Env) (p : Part) (total off : BitVec 32) :
    SameGuard s (otaFalEraseIfNeeded s env p total off).1 := by
  unfold otaFalEraseIfNeeded
  by_cases first : off = 0#32
  · simp only [first, if_true]
    rw [if_neg Bool.false_ne_true, if_neg (by simp)]
    split
    next => exact ⟨rfl, rfl⟩
    split
    next => exact ⟨rfl, rfl⟩
    split
    next => exact ⟨rfl, rfl⟩
    next => exact ⟨rfl, rfl⟩
  · simp only [first, if_false]
    split
    next =>
      split
      next => exact ⟨rfl, rfl⟩
      next => exact ⟨rfl, rfl⟩
    next => exact ⟨rfl, rfl⟩

theorem libotaWriteFwAh_same (s : Updater) (env : Env) (totLen off : BitVec 32) (data : Bool)
    (len : BitVec 16) : SameGuard s (libotaWriteFwAh s env totLen off data len).1 := by
  unfold libotaWriteFwAh
  split
  next => exact ⟨rfl, rfl⟩
  split
  next => exact ⟨rfl, rfl⟩
  split
  next s1 got => exact otaFalPartGet_same got
  next s1 p got =>
    have found := otaFalPartGet_same got
    split
    next => exact found
    split
    next s2 er erase =>
      have readied := otaFalEraseIfNeeded_same s1 env p totLen off
      rw [erase] at readied
      have both : SameGuard s s2 :=
        ⟨readied.fw.trans found.fw, readied.beginMs.trans found.beginMs⟩
      split
      next => exact both
      split
      next => exact ⟨both.fw, both.beginMs⟩
      split
      next => exact ⟨both.fw, both.beginMs⟩
      next => exact ⟨both.fw, both.beginMs⟩

theorem fwDataWrite_beginMs (frame : List Byte) :
    (fwDataWrite s env frame).1.beginMs = s.beginMs := by
  unfold fwDataWrite
  generalize armed : (if fwOff frame = 0#32 then
    { s with fw := ⟨true, fwTotal frame, s.fw.expectCrc32⟩ } else s) = s1
  have kept : s1.beginMs = s.beginMs := by
    rw [← armed]
    split
    next => rfl
    next => rfl
  have wrote := libotaWriteFwAh_same s1 env (fwTotal frame) (fwOff frame) true (fwLen frame)
  dsimp only
  split
  next => exact wrote.beginMs.trans kept
  split
  next => exact wrote.beginMs.trans kept
  next => exact wrote.beginMs.trans kept

theorem fwDataWrite_active {frame : List Byte} (wrote : (fwDataWrite s env frame).2 = 0)
    (more : ¬fwTotal frame ≤ fwEnd frame) (armed : fwOff frame = 0#32 ∨ s.fw.active = true) :
    (fwDataWrite s env frame).1.fw.active = true := by
  unfold fwDataWrite at wrote ⊢
  generalize begun : (if fwOff frame = 0#32 then
    { s with fw := ⟨true, fwTotal frame, s.fw.expectCrc32⟩ } else s) = s1 at wrote ⊢
  have active : s1.fw.active = true := by
    rw [← begun]
    split
    next => rfl
    next later => exact armed.resolve_left later
  have same := libotaWriteFwAh_same s1 env (fwTotal frame) (fwOff frame) true (fwLen frame)
  dsimp only at wrote ⊢
  split at wrote
  next error => exact absurd wrote error
  next fine =>
    rw [if_neg fine, if_neg more, same.fw]
    exact active

end Frame

section Events

variable {s : Updater} {e : Event}

theorem step_fwData {frame : List Byte} (given : e.frame? = some frame) :
    step s e = (fwDataWrite (s.note (.chunk (fwOff frame))) e.env frame).1 := by
  obtain ⟨call, env⟩ := e
  unfold Event.frame? at given
  dsimp only at given
  split at given
  next frame' =>
    split at given
    next passed =>
      cases given
      rw [Bool.and_eq_true] at passed
      simp only [step, otaCmdFirmwareData, passed.1, passed.2, Bool.true_eq_false, if_false]
      split
      next => rfl
      split
      next => rfl
      next => rfl
    next => cases given
  next => cases given

theorem step_refused {nif : Bool} {data : Option (List Byte)} (call : e.call = .fwData nif data)
    (refused : e.frame? = none) : SameGuard s (step s e) := by
  unfold Event.frame? at refused
  unfold step
  rw [call] at refused ⊢
  dsimp only at refused ⊢
  unfold otaCmdFirmwareData
  split
  next frame =>
    dsimp only at refused
    split at refused
    next => cases refused
    next failed =>
      rw [Bool.and_eq_true, not_and_or] at failed
      split
      next => exact ⟨rfl, rfl⟩
      next header =>
        have admits := failed.resolve_left fun no => header (Bool.eq_false_of_not_eq_true no)
        rw [if_pos (Bool.eq_false_of_not_eq_true admits)]
        exact ⟨rfl, rfl⟩
  next => exact ⟨rfl, rfl⟩

theorem step_beginMs (update : e.OfUpdate) : (step s e).beginMs = s.beginMs := by
  rcases update with query | ⟨nif, data, call⟩
  · unfold step
    rw [query]
    dsimp only
    unfold otaFwActive
    split
    next => rfl
    split
    next => rfl
    next => rfl
  · cases given : e.frame? with
    | none => exact (step_refused call given).beginMs
    | some frame =>
      rw [step_fwData given]
      exact fwDataWrite_beginMs frame

theorem step_active (update : e.OfUpdate) (active : s.fw.active = true) (runs : ¬Ends s e)
    (timely : e.call = .query → e.env.timeMs - s.beginMs ≤ otaFwSessionTimeoutMs) :
    (step s e).fw.active = true := by
  rcases update with query | ⟨nif, data, call⟩
  · unfold step
    rw [query]
    dsimp only
    unfold otaFwActive
    rw [if_neg (by simp [active]), if_neg (not_lt.mpr (timely query))]
    exact active
  · cases given : e.frame? with
    | none =>
      rw [(step_refused call given).fw]
      exact active
    | some frame =>
      rw [step_fwData given]
      apply fwDataWrite_active
      · by_contra error
        exact runs ⟨frame, given, .inl error⟩
      · exact fun last => runs ⟨frame, given, .inr last⟩
      · exact .inr active

theorem Opens.active (opens : Opens s e) (runs : ¬Ends s e) : (step s e).fw.active = true := by
  obtain ⟨frame, given, first, wrote⟩ := opens
  rw [step_fwData given]
  exact fwDataWrite_active wrote (fun last => runs ⟨frame, given, .inr last⟩) (.inl first)

theorem Opens.ofUpdate (opens : Opens s e) : e.OfUpdate := by
  obtain ⟨frame, given, -, -⟩ := opens
  unfold Event.frame? at given
  split at given
  next frame' call => exact .inr ⟨true, some frame', call⟩
  next => cases given

end Events

theorem after_beginMs {s : Updater} {events : List Event} (update : ∀ e ∈ events, e.OfUpdate) :
    (after s events).beginMs = s.beginMs :=
  (Runs.along_of_forall update).holds (P := fun t : Updater => t.beginMs = s.beginMs) rfl
    fun _ _ same ofUpdate => (step_beginMs ofUpdate).trans same

theorem Opens.after_active {s : Updater} {first : Event} {before : List Event}
    (opens : Opens s first) (running : Running s (first :: before))
    (update : ∀ e ∈ before, e.OfUpdate)
    (timely : ∀ early e late, before = early ++ e :: late → e.call = .query →
      e.env.timeMs - s.beginMs ≤ otaFwSessionTimeoutMs) :
    (after s (first :: before)).fw.active = true := by
  have along : Runs.Along step (fun t e => e.OfUpdate ∧ ¬Ends t e ∧
      (e.call = .query → e.env.timeMs - s.beginMs ≤ otaFwSessionTimeoutMs)) (step s first)
      before := by
    intro early e late split
    have member : e ∈ before := split ▸ List.mem_append_right _ List.mem_cons_self
    exact ⟨update e member, running.tail early e late split, timely early e late split⟩
  have armed := along.holds
    (P := fun t : Updater => t.fw.active = true ∧ t.beginMs = s.beginMs)
    ⟨opens.active running.head, step_beginMs opens.ofUpdate⟩ ?_
  · exact armed.1
  · rintro t e ⟨active, same⟩ ⟨ofUpdate, runs, intime⟩
    exact ⟨step_active ofUpdate active runs (same ▸ intime), (step_beginMs ofUpdate).trans same⟩

theorem eth_update_guarded_iff {s : Updater} {first : Event} {rest : List Event}
    (opens : Opens s first) (update : ∀ e ∈ rest, e.OfUpdate) :
    (∀ before q later, rest = before ++ q :: later → q.call = .query →
      Running s (first :: before) → Guarded (after s (first :: before)) q.env) ↔
    ∀ before q later, rest = before ++ q :: later → q.call = .query →
      Running s (first :: before) → q.env.timeMs - s.beginMs ≤ otaFwSessionTimeoutMs := by
  have ofUpdate {before : List Event} {q : Event} {later : List Event}
      (split : rest = before ++ q :: later) (e : Event) (member : e ∈ before) : e.OfUpdate :=
    update e (split ▸ List.mem_append_left _ member)
  have started {before : List Event} {q : Event} {later : List Event}
      (split : rest = before ++ q :: later) : (after s (first :: before)).beginMs = s.beginMs := by
    apply after_beginMs
    intro e member
    rcases List.mem_cons.mp member with rfl | member
    · exact opens.ofUpdate
    · exact ofUpdate split e member
  constructor
  · intro guarded before q later split query running
    have asked := otaFwActive_iff.mp (guarded before q later split query running).active
    rw [started split] at asked
    exact asked.2
  · intro timely before q later split query running
    rw [guarded_iff, otaFwActive_iff, started split]
    refine ⟨?_, timely before q later split query running⟩
    apply opens.after_active running (ofUpdate split)
    intro early e late found asks
    apply timely early e (late ++ q :: later) _ asks
    · rw [found, ← List.cons_append] at running
      exact Runs.Along.left running
    · rw [split, found, List.append_assoc, List.cons_append]

def ethFrame (off : Byte) : List Byte :=
  List.replicate 12 0#8 ++ [0x48#8, 0x47#8, 4#8, 0#8] ++ List.replicate 4 0#8 ++
    [0#8, 0#8, 0#8, off] ++ [0#8, 0#8, 0#8, 100#8] ++ [0#8, 50#8] ++ List.replicate 56 0#8

def ethChunk (off : Byte) (timeMs : Int) : Event :=
  ⟨.fwData true (some (ethFrame off)), workingEnv 50 timeMs⟩

def ethQuery (timeMs : Int) : Event := ⟨.query, workingEnv 0 timeMs⟩

theorem ethChunk_opens (timeMs : Int) : Opens .boot (ethChunk 0#8 timeMs) :=
  ⟨ethFrame 0#8, rfl, by decide, rfl⟩

theorem ethChunk_running (timeMs : Int) : Running .boot [ethChunk 0#8 timeMs] := by
  intro before e later split ends
  obtain ⟨rfl, rfl, rfl⟩ : before = [] ∧ e = ethChunk 0#8 timeMs ∧ later = [] := by
    cases before with
    | nil =>
      obtain ⟨same, none⟩ := List.cons.inj split
      exact ⟨rfl, same.symm, none.symm⟩
    | cons d before =>
      have none := (List.cons.inj split).2
      cases before <;> cases none
  obtain ⟨frame, given, ends⟩ := ends
  obtain rfl : ethFrame 0#8 = frame := Option.some.inj given
  rcases ends with error | last
  · exact error rfl
  · exact absurd last (by decide)

theorem eth_update_guarded_early :
    Guarded (after .boot [ethChunk 0#8 60000]) (workingEnv 0 61000) := by
  have update : ∀ e ∈ [ethQuery 61000, ethChunk 50#8 62000], e.OfUpdate := by
    intro e member
    simp only [List.mem_cons, List.not_mem_nil, or_false] at member
    rcases member with rfl | rfl
    · exact .inl rfl
    · exact .inr ⟨true, some (ethFrame 50#8), rfl⟩
  refine (eth_update_guarded_iff (ethChunk_opens 60000) update).mpr ?_ [] (ethQuery 61000)
    [ethChunk 50#8 62000] rfl rfl (ethChunk_running 60000)
  intro before q later split _ _
  have member : q ∈ [ethQuery 61000, ethChunk 50#8 62000] :=
    split ▸ List.mem_append_right _ List.mem_cons_self
  simp only [List.mem_cons, List.not_mem_nil, or_false] at member
  rcases member with rfl | rfl <;> decide

theorem eth_update_unguarded :
    Opens .boot (ethChunk 0#8 660000) ∧ Running .boot [ethChunk 0#8 660000] ∧
    (otaFwActive (after .boot [ethChunk 0#8 660000]) (workingEnv 0 661000)).2 = false ∧
    (webApiRebootPost (after .boot [ethChunk 0#8 660000]) (workingEnv 0 661000) false).2 = true ∧
    writeResult (after .boot [ethChunk 0#8 660000, ethQuery 661000]) (ethChunk 50#8 662000)
      (ethFrame 50#8) = 0 :=
  ⟨ethChunk_opens 660000, ethChunk_running 660000, by decide, by decide, by decide⟩

end RnodeHalow.Ota
