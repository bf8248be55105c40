import Mathlib.Data.List.DropRight
import RnodeHalow.Wire

set_option autoImplicit false

namespace RnodeHalow.Config

def ascii (s : String) : List Byte := s.toList.map fun c => BitVec.ofNat 8 c.toNat

def space : Byte := 0x20#8
def slash : Byte := 0x2F#8

def httpGetMethod (header : List Byte) : List Byte :=
  if space ∈ header then (header.takeWhile (· ≠ space)).take 7 else []

def httpGetUri (header : List Byte) : List Byte :=
  match header.dropWhile (· ≠ space) with
  | [] => []
  | _ :: rest => if space ∈ rest then (rest.takeWhile (· ≠ space)).take 31 else []

def cutQuery (target : List Byte) : List Byte := target.takeWhile fun b => b ≠ 0x3F#8 ∧ b ≠ 0x23#8

structure Route where
  endpoint : String
  get : Bool
  post : Bool
  deriving DecidableEq

structure Target where
  bytes : List Byte
  unspaced : space ∉ bytes
  noNul : 0#8 ∉ bytes

inductive Method where
  | get
  | post
  deriving DecidableEq

def Method.name : Method → List Byte
  | .get => ascii "GET"
  | .post => ascii "POST"

def Target.path (t : Target) : List Byte := cutQuery t.bytes

def PathOf (e : String) (path : List Byte) : Prop :=
  ∃ k, path = ascii "/api/" ++ ascii e ++ List.replicate k slash

variable {l path : List Byte} {e : String}

theorem PathOf.take (named : PathOf e path) (short : (ascii e).length ≤ 26) :
    PathOf e (path.take 31) := by
  obtain ⟨k, rfl⟩ := named
  have five : (ascii "/api/").length = 5 := rfl
  refine ⟨min (31 - (ascii "/api/" ++ ascii e).length) k, ?_⟩
  rw [List.take_append, List.take_of_length_le, List.take_replicate]
  rw [List.length_append, five]
  omega

end RnodeHalow.Config
