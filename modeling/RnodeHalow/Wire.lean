import Mathlib.Data.BitVec

set_option autoImplicit false

namespace RnodeHalow

abbrev Byte := BitVec 8

structure Mac where
  b0 : Byte
  b1 : Byte
  b2 : Byte
  b3 : Byte
  b4 : Byte
  b5 : Byte
  deriving DecidableEq, Repr

def macEq (a b : Mac) : Bool :=
  ((a.b0 ^^^ b.b0) ||| (a.b1 ^^^ b.b1) ||| (a.b2 ^^^ b.b2) |||
    (a.b3 ^^^ b.b3) ||| (a.b4 ^^^ b.b4) ||| (a.b5 ^^^ b.b5)) == 0#8

theorem macEq_iff (a b : Mac) : macEq a b = true ↔ a = b := by
  cases a
  cases b
  simp [macEq, BitVec.xor_eq_zero_iff, and_assoc]

def isBroadcast (m : Mac) : Bool :=
  (m.b0 &&& m.b1 &&& m.b2 &&& m.b3 &&& m.b4 &&& m.b5) == 0xFF#8

def macBroadcast : Mac := ⟨0xFF#8, 0xFF#8, 0xFF#8, 0xFF#8, 0xFF#8, 0xFF#8⟩

-- `d[k]`; every reader below checks the length first.
def byteAt (d : List Byte) (k : Nat) : Byte := d.getD k 0#8

def le16 (d : List Byte) (k : Nat) : BitVec 16 :=
  (byteAt d k).setWidth 16 ||| (byteAt d (k + 1)).setWidth 16 <<< 8

def lo8 (v : BitVec 16) : Byte := v.setWidth 8

def hi8 (v : BitVec 16) : Byte := (v >>> 8).setWidth 8

theorem le16_lo_hi (v : BitVec 16) : (lo8 v).setWidth 16 ||| (hi8 v).setWidth 16 <<< 8 = v := by
  ext i hi
  simp only [lo8, hi8, BitVec.getElem_or, BitVec.getElem_setWidth, BitVec.getElem_shiftLeft,
    BitVec.getLsbD_setWidth, BitVec.getLsbD_ushiftRight]
  by_cases low : i < 8
  · simp [low, BitVec.getLsbD_eq_getElem hi]
  · have back : 8 + (i - 8) = i := by omega
    simp [low, back, show i - 8 < 8 by omega, BitVec.getLsbD_eq_getElem hi]

def fnv1a (p : List Byte) : BitVec 32 :=
  p.foldl (fun h b => (h ^^^ b.setWidth 32) * 16777619#32) 2166136261#32

def ackMagic0 : Byte := 0xA5#8
def ackMagic1 : Byte := 0x5A#8
def envVer : Nat := 1
def envTypeBundle : Nat := 0
def envTypeAck : Nat := 1
def envBundleHdr : Nat := 6
def envAckLen : Nat := 14
def ackFidsMax : Nat := 16
def ackLenMin : Nat := 5
def ackLenMax : Nat := 3 + 2 * ackFidsMax

def halowEnvVer (d : List Byte) : Nat := (byteAt d 2).toNat >>> 4

def halowEnvType (d : List Byte) : Nat := (byteAt d 2).toNat &&& 0x0F

def isAckFrame (d : List Byte) : Bool :=
  ackLenMin ≤ d.length && d.length ≤ ackLenMax && (d.length - 3) &&& 1 == 0 &&
    byteAt d 0 == ackMagic0 && byteAt d 1 == ackMagic1 && 0x80#8 ≤ byteAt d 2

def isEnvFrame (d : List Byte) : Bool :=
  3 ≤ d.length && byteAt d 0 == ackMagic0 && byteAt d 1 == ackMagic1 && byteAt d 2 < 0x80#8

end RnodeHalow
