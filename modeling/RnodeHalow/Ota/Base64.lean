import RnodeHalow.Wire

set_option autoImplicit false

namespace RnodeHalow.Ota

def b64Inv (c : Byte) : Int :=
  if 0x41#8 ≤ c ∧ c ≤ 0x5A#8 then c.toNat - 0x41
  else if 0x61#8 ≤ c ∧ c ≤ 0x7A#8 then c.toNat - 0x61 + 26
  else if 0x30#8 ≤ c ∧ c ≤ 0x39#8 then c.toNat - 0x30 + 52
  else if c = 0x2B#8 then 62
  else if c = 0x2F#8 then 63
  else if c = 0x3D#8 then -2
  else -1

def uint8 (w : BitVec 32) : Byte := w.setWidth 8

def b64Put (outMax : Nat) (out : List Byte) (byte : BitVec 32) : Option (List Byte) :=
  if out.length + 1 > outMax then none else some (out ++ [uint8 byte])

def b64Round (outMax : Nat) (out : List Byte) (c0 c1 c2 c3 : Byte) : Option (List Byte) :=
  let v0 := b64Inv c0
  let v1 := b64Inv c1
  let v2 := b64Inv c2
  let v3 := b64Inv c3
  let bits := BitVec.ofInt 32
  if v0 < 0 ∨ v1 < 0 then none
  else if v2 = -1 ∨ v3 = -1 then none
  else if v2 = -2 ∧ v3 ≠ -2 then none
  else do
    let out ← b64Put outMax out (bits v0 <<< 2 ||| bits v1 >>> 4)
    if v2 ≠ -2 then
      let out ← b64Put outMax out (bits v1 <<< 4 ||| bits v2 >>> 2)
      if v3 ≠ -2 then b64Put outMax out (bits v2 <<< 6 ||| bits v3) else some out
    else some out

def b64Loop (outMax : Nat) : List Byte → List Byte → Option (List Byte)
  | [], out => some out
  | c0 :: c1 :: c2 :: c3 :: rest, out =>
    (b64Round outMax out c0 c1 c2 c3).bind fun out => b64Loop outMax rest out
  | _, _ => none

def b64Decode (outMax : Nat) (text : List Byte) : Option (List Byte) := b64Loop outMax text []

def b64Alphabet : List Byte :=
  (List.range' 0x41 26 ++ List.range' 0x61 26 ++ List.range' 0x30 10 ++ [0x2B, 0x2F]).map
    (BitVec.ofNat 8)

def b64Pad : Byte := 0x3D#8

def b64Char (v : BitVec 6) : Byte := b64Alphabet.getD v.toNat 0

inductive B64Kind where
  | sextet (v : BitVec 6)
  | pad
  | other
  deriving DecidableEq

def b64Kind (c : Byte) : B64Kind :=
  match b64Alphabet.idxOf? c with
  | some i => .sextet (BitVec.ofNat 6 i)
  | none => if c = b64Pad then .pad else .other

def octet1 (v0 v1 : BitVec 6) : Byte := (v0 ++ v1).extractLsb' 4 8
def octet2 (v1 v2 : BitVec 6) : Byte := (v1 ++ v2).extractLsb' 2 8
def octet3 (v2 v3 : BitVec 6) : Byte := (v2 ++ v3).extractLsb' 0 8

def sextet1 (a : Byte) : BitVec 6 := a.extractLsb' 2 6
def sextet2 (a b : Byte) : BitVec 6 := (a ++ b).extractLsb' 4 6
def sextet3 (b c : Byte) : BitVec 6 := (b ++ c).extractLsb' 6 6
def sextet4 (c : Byte) : BitVec 6 := c.extractLsb' 0 6

def b64Quad : B64Kind → B64Kind → B64Kind → B64Kind → Option (List Byte)
  | .sextet v0, .sextet v1, .sextet v2, .sextet v3 =>
    some [octet1 v0 v1, octet2 v1 v2, octet3 v2 v3]
  | .sextet v0, .sextet v1, .sextet v2, .pad => some [octet1 v0 v1, octet2 v1 v2]
  | .sextet v0, .sextet v1, .pad, .pad => some [octet1 v0 v1]
  | _, _, _, _ => none

def b64Groups : List Byte → Option (List Byte)
  | [] => some []
  | c0 :: c1 :: c2 :: c3 :: rest =>
    (b64Quad (b64Kind c0) (b64Kind c1) (b64Kind c2) (b64Kind c3)).bind fun bytes =>
      (b64Groups rest).map (bytes ++ ·)
  | _ => none

def padsLast : List Byte → Bool
  | _ :: _ :: _ :: c3 :: rest => (c3 != b64Pad || rest.isEmpty) && padsLast rest
  | _ => true

def GroupForm (c0 c1 c2 c3 : Byte) : Prop :=
  c0 ∈ b64Alphabet ∧ c1 ∈ b64Alphabet ∧
    (c2 ∈ b64Alphabet ∧ (c3 ∈ b64Alphabet ∨ c3 = b64Pad) ∨ c2 = b64Pad ∧ c3 = b64Pad)

-- Groups of four, each of them well formed on its own.
def WellGrouped : List Byte → Prop
  | [] => True
  | c0 :: c1 :: c2 :: c3 :: rest => GroupForm c0 c1 c2 c3 ∧ WellGrouped rest
  | _ => False

def b64Standard (text : List Byte) : Option (List Byte) :=
  if padsLast text then b64Groups text else none

def b64Encode : List Byte → List Byte
  | [] => []
  | [a] => [b64Char (sextet1 a), b64Char (sextet2 a 0), b64Pad, b64Pad]
  | [a, b] => [b64Char (sextet1 a), b64Char (sextet2 a b), b64Char (sextet3 b 0), b64Pad]
  | a :: b :: c :: rest =>
    b64Char (sextet1 a) :: b64Char (sextet2 a b) :: b64Char (sextet3 b c) :: b64Char (sextet4 c) ::
      b64Encode rest

def B64Kind.value : B64Kind → Int
  | sextet v => v.toNat
  | pad => -2
  | other => -1

theorem b64Inv_eq : ∀ c : Byte, b64Inv c = (b64Kind c).value := by
  decide +kernel

theorem b64Kind_char : ∀ v : BitVec 6, b64Kind (b64Char v) = .sextet v := by
  decide +kernel

theorem B64Kind.value_sextet (v : BitVec 6) : ¬ (sextet v).value < 0 ∧ (sextet v).value ≠ -1 ∧
    (sextet v).value ≠ -2 := by
  simp only [value]
  omega

theorem octet1_eq : ∀ v0 v1 : BitVec 6, uint8 (BitVec.ofInt 32 (B64Kind.sextet v0).value <<< 2 |||
    BitVec.ofInt 32 (B64Kind.sextet v1).value >>> 4) = octet1 v0 v1 := by
  decide +kernel

theorem octet2_eq : ∀ v1 v2 : BitVec 6, uint8 (BitVec.ofInt 32 (B64Kind.sextet v1).value <<< 4 |||
    BitVec.ofInt 32 (B64Kind.sextet v2).value >>> 2) = octet2 v1 v2 := by
  decide +kernel

theorem octet3_eq : ∀ v2 v3 : BitVec 6, uint8 (BitVec.ofInt 32 (B64Kind.sextet v2).value <<< 6 |||
    BitVec.ofInt 32 (B64Kind.sextet v3).value) = octet3 v2 v3 := by
  decide +kernel

theorem octets_sextets (a b c : Byte) :
    octet1 (sextet1 a) (sextet2 a b) = a ∧ octet2 (sextet2 a b) (sextet3 b c) = b ∧
      octet3 (sextet3 b c) (sextet4 c) = c := by
  refine ⟨?_, ?_, ?_⟩ <;> ext i inside
  · simp only [octet1, sextet1, sextet2, BitVec.getElem_extractLsb', BitVec.getLsbD_append,
      BitVec.getLsbD_extractLsb']
    grind
  · simp only [octet2, sextet2, sextet3, BitVec.getElem_extractLsb', BitVec.getLsbD_append,
      BitVec.getLsbD_extractLsb']
    grind
  · simp only [octet3, sextet3, sextet4, BitVec.getElem_extractLsb', BitVec.getLsbD_append,
      BitVec.getLsbD_extractLsb']
    grind

variable {outMax : Nat} {out text : List Byte} {c0 c1 c2 c3 : Byte}

theorem b64Put_room (room : out.length + 1 ≤ outMax) (byte : BitVec 32) :
    b64Put outMax out byte = some (out ++ [uint8 byte]) := if_neg (by omega)

theorem b64Round_eq (room : out.length + 3 ≤ outMax) :
    b64Round outMax out c0 c1 c2 c3 =
      (b64Quad (b64Kind c0) (b64Kind c1) (b64Kind c2) (b64Kind c3)).map (out ++ ·) := by
  have put1 : ∀ byte, b64Put outMax out byte = _ := b64Put_room (by omega)
  have put2 (b : Byte) : ∀ byte, b64Put outMax (out ++ [b]) byte = _ :=
    b64Put_room (by simp; omega)
  have put3 (b b' : Byte) : ∀ byte, b64Put outMax (out ++ [b, b']) byte = _ :=
    b64Put_room (by simp; omega)
  have pad : B64Kind.pad.value = -2 := rfl
  have other : B64Kind.other.value = -1 := rfl
  unfold b64Round
  simp only [b64Inv_eq]
  rcases b64Kind c0 with v0 | _ | _
  · rcases b64Kind c1 with v1 | _ | _
    · rcases b64Kind c2 with v2 | _ | _ <;> rcases b64Kind c3 with v3 | _ | _ <;>
        simp [B64Kind.value_sextet, pad, other, b64Quad, put1, put2, put3, octet1_eq, octet2_eq,
          octet3_eq]
    all_goals simp [pad, other, b64Quad]
  all_goals simp [pad, other, b64Quad]

theorem b64Quad_length {k0 k1 k2 k3 : B64Kind} {bytes : List Byte}
    (read : b64Quad k0 k1 k2 k3 = some bytes) : bytes.length ≤ 3 := by
  unfold b64Quad at read
  split at read <;> cases read <;> simp

theorem b64Loop_eq (room : out.length + text.length / 4 * 3 ≤ outMax) :
    b64Loop outMax text out = (b64Groups text).map (out ++ ·) := by
  fun_induction b64Groups text generalizing out with
  | case1 => simp [b64Loop]
  | case2 c0 c1 c2 c3 rest ih =>
    simp only [List.length_cons] at room
    rw [b64Loop, b64Round_eq (by omega)]
    cases read : b64Quad (b64Kind c0) (b64Kind c1) (b64Kind c2) (b64Kind c3) with
    | none => rfl
    | some bytes =>
      have short := b64Quad_length read
      have later : (out ++ bytes).length + rest.length / 4 * 3 ≤ outMax := by
        rw [List.length_append]
        omega
      simp [ih later, Function.comp_def]
  | case3 text empty short =>
    unfold b64Loop
    split
    · exact absurd rfl empty
    · exact absurd rfl (short _ _ _ _ _)
    · rfl

theorem b64Groups_length {bytes : List Byte} (read : b64Groups text = some bytes) :
    bytes.length ≤ text.length / 4 * 3 := by
  fun_induction b64Groups text generalizing bytes with
  | case1 =>
    cases read
    exact Nat.le_refl _
  | case2 c0 c1 c2 c3 rest ih =>
    obtain ⟨group, first, others⟩ := Option.bind_eq_some_iff.mp read
    obtain ⟨tail, later, rfl⟩ := Option.map_eq_some_iff.mp others
    have three := b64Quad_length first
    have bound := ih later
    simp only [List.length_append, List.length_cons]
    omega
  | case3 => cases read

theorem b64Kind_sextet_iff : ∀ c : Byte, c ∈ b64Alphabet ↔ ∃ v, b64Kind c = .sextet v := by
  decide +kernel

theorem b64Kind_pad_iff : ∀ c : Byte, c = b64Pad ↔ b64Kind c = .pad := by
  decide +kernel

theorem b64Quad_isSome :
    (b64Quad (b64Kind c0) (b64Kind c1) (b64Kind c2) (b64Kind c3)).isSome ↔
      GroupForm c0 c1 c2 c3 := by
  simp only [GroupForm, b64Kind_sextet_iff, b64Kind_pad_iff]
  cases b64Kind c0 <;> cases b64Kind c1 <;> cases b64Kind c2 <;> cases b64Kind c3 <;>
    simp [b64Quad]

theorem b64Groups_isSome : (b64Groups text).isSome ↔ WellGrouped text := by
  fun_induction b64Groups text with
  | case1 => simp [WellGrouped]
  | case2 c0 c1 c2 c3 rest ih =>
    rw [WellGrouped, ← b64Quad_isSome, ← ih]
    cases b64Quad (b64Kind c0) (b64Kind c1) (b64Kind c2) (b64Kind c3) <;> simp
  | case3 text empty short =>
    unfold WellGrouped
    split
    · exact absurd rfl empty
    · exact absurd rfl (short _ _ _ _ _)
    · simp

theorem b64Groups_encode (bytes : List Byte) :
    b64Groups (b64Encode bytes) = some bytes ∧ padsLast (b64Encode bytes) = true := by
  have pad : b64Kind b64Pad = .pad := by decide
  have inner : ∀ v : BitVec 6, b64Char v ≠ b64Pad := by decide +kernel
  have back := octets_sextets
  fun_induction b64Encode bytes with
  | case1 => exact ⟨rfl, rfl⟩
  | case2 a => simp [b64Groups, padsLast, b64Kind_char, pad, b64Quad, back a 0#8 0#8]
  | case3 a b => simp [b64Groups, padsLast, b64Kind_char, pad, b64Quad, back a b 0#8]
  | case4 a b c rest ih =>
    simp [b64Groups, padsLast, b64Kind_char, b64Quad, back a b c, inner, ih]

theorem b64Decode_standard (outMax : Nat) (text : List Byte)
    (room : text.length / 4 * 3 ≤ outMax) :
    ((b64Decode outMax text).isSome ↔ WellGrouped text) ∧
      (b64Decode outMax text = b64Standard text ↔ (WellGrouped text → padsLast text = true)) ∧
      (∀ bytes, b64Decode outMax text = some bytes → bytes.length ≤ text.length / 4 * 3) ∧
      ∀ bytes, text = b64Encode bytes → b64Decode outMax text = some bytes := by
  have groups : b64Decode outMax text = b64Groups text := by
    rw [b64Decode, b64Loop_eq (by simpa using room)]
    simp
  rw [groups, b64Standard]
  refine ⟨b64Groups_isSome, ?_, fun bytes => b64Groups_length, ?_⟩
  · rw [← b64Groups_isSome]
    by_cases pads : padsLast text = true <;> simp [pads]
  · rintro bytes rfl
    exact (b64Groups_encode bytes).1

-- "QUJDRA==", the encoding of "ABCD"
def twoGroups : List Byte := [0x51, 0x55, 0x4A, 0x44, 0x52, 0x41, 0x3D, 0x3D]

theorem b64Decode_standard_twoGroups :
    b64Decode 6 twoGroups = some [0x41, 0x42, 0x43, 0x44] ∧
      b64Decode 6 twoGroups = b64Standard twoGroups ∧
      b64Decode 6 (twoGroups.set 5 b64Pad) = none := by
  obtain ⟨-, standard, -, decodes⟩ := b64Decode_standard 6 twoGroups (by decide)
  obtain ⟨accepts, -⟩ := b64Decode_standard 6 (twoGroups.set 5 b64Pad) (by decide)
  refine ⟨decodes _ (by decide), standard.mpr fun _ => by decide, ?_⟩
  rw [← Option.not_isSome_iff_eq_none, accepts]
  rintro ⟨-, ⟨-, pad, -⟩, -⟩
  exact absurd pad (by decide)

theorem b64Decode_inner_pad :
    b64Decode 6 (b64Encode [0x41] ++ b64Encode [0x41]) = some [0x41, 0x41] ∧
      b64Standard (b64Encode [0x41] ++ b64Encode [0x41]) = none := by
  decide

end RnodeHalow.Ota
