import RnodeHalow.Wire

set_option autoImplicit false

namespace RnodeHalow.Radio

structure MacGeneratorConfig where
  rotationMinutes : BitVec 16
  broadcastMac : Byte

structure MacGenerator where
  cfg : MacGeneratorConfig
  wmac : Mac
  efuse : Mac
  rotNextMs : BitVec 32

def genRandomMac (efuse : Mac) (jiffies : BitVec 32) : Mac :=
  let next (s : BitVec 32) (b : Byte) := s * 1103515245#32 + 12345#32 + b.setWidth 32
  let byte (s : BitVec 32) : Byte := (s >>> 16).setWidth 8
  let s0 := next jiffies efuse.b0
  let s1 := next s0 efuse.b1
  let s2 := next s1 efuse.b2
  let s3 := next s2 efuse.b3
  let s4 := next s3 efuse.b4
  let s5 := next s4 efuse.b5
  ⟨(byte s0 &&& 0xFC#8) ||| 0x02#8, byte s1, byte s2, byte s3, byte s4, byte s5⟩

def loadOrCreateWmac (stored : Option Mac) (efuse : Mac) (jiffies : BitVec 32) : Mac :=
  match stored with
  | some mac => if mac = ⟨0, 0, 0, 0, 0, 0⟩ then genRandomMac efuse jiffies else mac
  | none => genRandomMac efuse jiffies

namespace MacGenerator

def init (efuse : Mac) (cfg : MacGeneratorConfig) (stored : Option Mac) (jiffies : BitVec 32) :
    MacGenerator :=
  ⟨cfg, loadOrCreateWmac stored efuse jiffies, efuse, 0⟩

def configApply (g : MacGenerator) (cfg : MacGeneratorConfig) (stored : Option Mac)
    (jiffies : BitVec 32) : MacGenerator :=
  init g.efuse cfg stored jiffies

def renews (g : MacGenerator) (now : Nat) : Bool :=
  g.cfg.broadcastMac == 0 && g.cfg.rotationMinutes != 0 && g.rotNextMs ≤ BitVec.ofNat 32 now

structure Reading where
  now : Nat
  jiffies : BitVec 32

def get (g : MacGenerator) (r : Reading) : MacGenerator × Mac :=
  if g.renews r.now then
    let wmac := genRandomMac g.efuse r.jiffies
    ({ g with
        wmac := wmac
        rotNextMs := BitVec.ofNat 32 r.now + g.cfg.rotationMinutes.setWidth 32 * 60000#32 }, wmac)
  else (g, if g.cfg.broadcastMac = 0 then g.wmac else macBroadcast)

structure Call where
  now : Nat
  last : Nat
  before : Mac
  mac : Mac
  renewed : Bool

def callsFrom (g : MacGenerator) (last : Nat) (before : Mac) : List Reading → List Call
  | [] => []
  | r :: rest =>
    ⟨r.now, last, before, (g.get r).2, g.renews r.now⟩ ::
      callsFrom (g.get r).1 (if g.renews r.now then r.now else last) (g.get r).2 rest

def calls (g : MacGenerator) (first : Reading) (rest : List Reading) : List Call :=
  callsFrom (g.get first).1 first.now (g.get first).2 rest

end MacGenerator

def MacGeneratorConfig.period (cfg : MacGeneratorConfig) : Nat := cfg.rotationMinutes.toNat * 60000

-- The comparison comes out as it would on a clock that does not wrap.
def Punctual (deadline now : Nat) : Prop :=
  deadline / 2 ^ 32 = now / 2 ^ 32 ∨ (deadline ≤ now ∧ deadline % 2 ^ 32 ≤ now % 2 ^ 32)

theorem punctual_iff {deadline now : Nat} (near : deadline < now + 2 ^ 32) :
    (BitVec.ofNat 32 deadline ≤ BitVec.ofNat 32 now ↔ deadline ≤ now) ↔ Punctual deadline now := by
  rw [BitVec.le_def, BitVec.toNat_ofNat, BitVec.toNat_ofNat, Punctual]
  simp only [Nat.reducePow] at near ⊢
  omega

namespace MacGenerator

variable {g : MacGenerator} {cfg : MacGeneratorConfig} {last : Nat} {r : Reading} {before : Mac}

structure Rotating (cfg : MacGeneratorConfig) (g : MacGenerator) (last : Nat) (before : Mac) :
    Prop where
  cfg_eq : g.cfg = cfg
  next : g.rotNextMs = BitVec.ofNat 32 (last + cfg.period)
  wmac : g.wmac = before

theorem get_renewed (cfgEq : g.cfg = cfg) (due : g.renews r.now = true) :
    Rotating cfg (g.get r).1 r.now (g.get r).2 where
  cfg_eq := by simp [get, due, cfgEq]
  next := by
    have minutes : cfg.rotationMinutes.setWidth 32 * 60000#32 = BitVec.ofNat 32 cfg.period := by
      rw [MacGeneratorConfig.period, BitVec.ofNat_mul, BitVec.ofNat_toNat]
    simp [get, due, cfgEq, minutes, BitVec.ofNat_add]
  wmac := by simp [get, due]

theorem get_kept (plain : cfg.broadcastMac = 0) (rot : Rotating cfg g last before)
    (early : g.renews r.now = false) :
    Rotating cfg (g.get r).1 last (g.get r).2 ∧ (g.get r).2 = before := by
  have same : g.get r = (g, before) := by simp [get, early, rot.cfg_eq, plain, rot.wmac]
  rw [same]
  exact ⟨rot, rfl⟩

theorem renews_iff (plain : cfg.broadcastMac = 0) (on : cfg.rotationMinutes ≠ 0#16)
    (rot : Rotating cfg g last before) (now : Nat) :
    g.renews now = true ↔ BitVec.ofNat 32 (last + cfg.period) ≤ BitVec.ofNat 32 now := by
  simp [renews, rot.cfg_eq, plain, on, rot.next]

theorem callsFrom_punctual (plain : cfg.broadcastMac = 0) (on : cfg.rotationMinutes ≠ 0#16)
    (short : cfg.period < 2 ^ 32) (rot : Rotating cfg g last before) {rest : List Reading}
    (order : (last :: rest.map (·.now)).Pairwise (· ≤ ·)) {call : Call}
    (made : call ∈ callsFrom g last before rest) :
    ((call.renewed = true ↔ cfg.period ≤ call.now - call.last) ↔
        Punctual (call.last + cfg.period) call.now) ∧
      (call.renewed = false → call.mac = call.before) := by
  induction rest generalizing g last before with
  | nil => cases made
  | cons r rest ih =>
    obtain ⟨past, later⟩ := List.pairwise_cons.mp order
    have since : last ≤ r.now := past _ List.mem_cons_self
    rcases List.mem_cons.mp made with rfl | made
    · refine ⟨?_, fun early => (get_kept plain rot early).2⟩
      have near : last + cfg.period < r.now + 2 ^ 32 := by omega
      change ((g.renews r.now = true ↔ _ ≤ r.now - last) ↔ Punctual (last + _) r.now)
      rw [← punctual_iff near, renews_iff plain on rot, Nat.le_sub_iff_add_le' since]
    · cases due : g.renews r.now with
      | true =>
        rw [due, if_pos rfl] at made
        exact ih (get_renewed rot.cfg_eq due) later made
      | false =>
        rw [due, if_neg Bool.false_ne_true] at made
        apply ih (get_kept plain rot due).1 _ made
        refine List.pairwise_cons.mpr ⟨?_, (List.pairwise_cons.mp later).2⟩
        exact fun t member => past t (List.mem_cons_of_mem _ member)

-- The clock has to stand to the deadline as it would without wrapping.
theorem renewed_iff_elapsed (efuse : Mac) (cfg : MacGeneratorConfig) (stored : Option Mac)
    (boot : BitVec 32) (plain : cfg.broadcastMac = 0)
    (range : 1 ≤ cfg.rotationMinutes.toNat ∧ cfg.rotationMinutes.toNat ≤ 10080)
    (first : Reading) (rest : List Reading)
    (order : ((first :: rest).map (·.now)).Pairwise (· ≤ ·)) :
    (init efuse cfg stored boot).renews first.now = true ∧
      ∀ call ∈ (init efuse cfg stored boot).calls first rest,
        ((call.renewed = true ↔ cfg.period ≤ call.now - call.last) ↔
            Punctual (call.last + cfg.period) call.now) ∧
          (call.renewed = false → call.mac = call.before) := by
  have on : cfg.rotationMinutes ≠ 0#16 := by
    rintro off
    rw [off] at range
    exact absurd range.1 (by decide)
  have due : (init efuse cfg stored boot).renews first.now = true := by
    simp [renews, init, plain, on]
  refine ⟨due, fun call made => ?_⟩
  have short : cfg.period < 2 ^ 32 := by
    rw [MacGeneratorConfig.period]
    omega
  exact callsFrom_punctual plain on short (get_renewed rfl due) order made

def ownMac : Mac := ⟨0x02, 0x11, 0x22, 0x33, 0x44, 0x55⟩

def minutely : MacGenerator := init ownMac ⟨1, 0⟩ none 0

theorem renewed_iff_elapsed_minutely : minutely.renews 5 = true ∧
    ∀ call ∈ minutely.calls ⟨5, 5⟩ [⟨60004, 60004⟩, ⟨60005, 60005⟩],
      ((call.renewed = true ↔ 60000 ≤ call.now - call.last) ↔
          Punctual (call.last + 60000) call.now) ∧
        (call.renewed = false → call.mac = call.before) :=
  renewed_iff_elapsed ownMac ⟨1, 0⟩ none 0 rfl (by decide) ⟨5, 5⟩ _ (by simp)

theorem renewed_early_and_late :
    ((minutely.calls ⟨2 ^ 32 - 30000, 0⟩ [⟨2 ^ 32 - 29999, 1⟩]).map
        fun call => (call.renewed, call.now - call.last)) = [(true, 1)] ∧
      ((minutely.calls ⟨2 ^ 32 - 60001, 0⟩ [⟨2 ^ 32, 1⟩]).map
        fun call => (call.renewed, call.now - call.last)) = [(false, 60001)] := by
  decide

end MacGenerator

end RnodeHalow.Radio
