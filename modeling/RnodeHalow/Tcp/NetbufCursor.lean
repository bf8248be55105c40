import RnodeHalow.Tcp.ClientLoop

set_option autoImplicit false

namespace RnodeHalow.Tcp

open Ack (txThrottle)
open RnodeHalow.Stream

-- `g_rx_cb` over the state of its user: the status and `*consumed`.
abbrev RxCb (σ : Type) := List Byte → σ → (Int × Nat) × σ

structure Pass (σ : Type) where
  status : Int
  cursor : Cursor
  user : σ
  -- what the callback consumed of each offer
  pieces : List (List Byte)
  -- no offer started behind the end of its chunk
  inside : Bool

variable {cap : Nat} {σ : Type}

-- `ci`, `*chunk` and `*ofs` are `uint16_t`.
def passFrom (cb : RxCb σ) : List (List Byte) → Nat → Cursor → σ → Pass σ
  | [], _, cur, s => ⟨0, cur, s, [], true⟩
  | data :: later, ci, cur, s =>
    if ci > cur.chunk ∨ (ci = cur.chunk ∧ cur.ofs < data.length) then
      let offered := data.drop cur.ofs
      let r := cb offered s
      if r.1.1 = txThrottle then
        let left := data.length - cur.ofs
        let adv := if r.1.2 > left then left else r.1.2
        let ofs := (cur.ofs + adv) % 2 ^ 16
        { status := r.1.1
          cursor := if ofs ≥ data.length then ⟨(ci + 1) % 2 ^ 16, 0⟩ else ⟨cur.chunk, ofs⟩
          user := r.2
          pieces := [offered.take adv]
          inside := decide (cur.ofs ≤ data.length) }
      else
        let rest := passFrom cb later ((ci + 1) % 2 ^ 16) ⟨(ci + 1) % 2 ^ 16, 0⟩ r.2
        { rest with
          pieces := offered :: rest.pieces
          inside := decide (cur.ofs ≤ data.length) && rest.inside }
    else passFrom cb later ((ci + 1) % 2 ^ 16) cur s

def passNetbuf (cb : RxCb σ) (nb : Netbuf) (cur : Cursor) (s : σ) : Pass σ :=
  passFrom cb nb.chunks 0 cur s

structure PassOk (chunks : List (List Byte)) (cur : Cursor) (r : Pass σ) : Prop where
  answer : r.status = txThrottle ∨ r.status = 0
  bytes : r.pieces.flatten ++ unread chunks r.cursor = unread chunks cur
  ok : r.cursor.Ok chunks
  through : r.status = 0 → unread chunks r.cursor = []
  inside : r.inside = true

section Places

variable {chunks : List (List Byte)} {ci : Nat} {data : List Byte}

theorem scan_short (short : chunks.flatten.length < 2 ^ 16) (few : chunks.length < 2 ^ 16)
    (here : chunks[ci]? = some data) : data.length < 2 ^ 16 ∧ (ci + 1) % 2 ^ 16 = ci + 1 := by
  obtain ⟨bound, -⟩ := List.getElem?_eq_some_iff.mp here
  have part := (List.sublist_flatten_of_mem (List.mem_of_getElem? here)).length_le
  exact ⟨by omega, Nat.mod_eq_of_lt (by omega)⟩

end Places

section Calls

variable {chunks : List (List Byte)} (short : chunks.flatten.length < 2 ^ 16)
  (few : chunks.length < 2 ^ 16)

include short few

theorem passFrom_ok (cb : RxCb σ) (rest : List (List Byte)) (ci : Nat) (cur : Cursor) (s : σ)
    (left : chunks.drop ci = rest) (ok : cur.Ok chunks) (ahead : cur.Ahead chunks ci) :
    PassOk chunks cur (passFrom cb rest ci cur s) := by
  induction rest generalizing ci cur s with
  | nil => exact ⟨.inr rfl, rfl, ok, fun _ => unread_end left ahead, rfl⟩
  | cons data later ih =>
    obtain ⟨here, next⟩ := scan_here left
    obtain ⟨small, cast⟩ := scan_short short few here
    rw [passFrom, cast]
    split
    · rename_i takes
      have bytes := unread_here here ok ahead takes
      have inside : cur.ofs ≤ data.length := ok.inside here ahead takes
      dsimp only
      split
      · rename_i no
        generalize (cb (data.drop cur.ofs) s).1.2 = consumed
        have adv : (if consumed > data.length - cur.ofs then data.length - cur.ofs
            else consumed) = min consumed (data.length - cur.ofs) := by
          split <;> omega
        have fits : (cur.ofs + min consumed (data.length - cur.ofs)) % 2 ^ 16 =
            cur.ofs + min consumed (data.length - cur.ofs) := Nat.mod_eq_of_lt (by omega)
        rw [adv, fits]
        refine ⟨.inl no, ?_, .advance here ahead takes,
          fun zero => absurd (no.symm.trans zero) txThrottle_ne.1, decide_eq_true inside⟩
        rw [bytes, List.flatten_singleton]
        split
        · rename_i all
          rw [List.take_of_length_le (by rw [List.length_drop]; omega)]
        · rename_i some
          rw [Nat.not_le] at some
          have moved : Cursor.Ok chunks (if cur.ofs + min consumed (data.length - cur.ofs) ≥
              data.length then ⟨ci + 1, 0⟩
              else ⟨cur.chunk, cur.ofs + min consumed (data.length - cur.ofs)⟩) :=
            .advance here ahead takes
          rw [if_neg (Nat.not_le.mpr some)] at moved
          have takes' : ci > cur.chunk ∨ ci = cur.chunk ∧
              cur.ofs + min consumed (data.length - cur.ofs) < data.length :=
            takes.imp_right fun same => ⟨same.1, some⟩
          rw [unread_here here moved ahead takes', ← List.append_assoc, ← List.drop_drop,
            List.take_append_drop]
      · obtain ⟨answer, bytes', ok', through, inside'⟩ := ih (ci + 1) ⟨ci + 1, 0⟩
          (cb (data.drop cur.ofs) s).2 next (.inl rfl) (.inl (Nat.le_refl _))
        refine ⟨answer, ?_, ok', through, by simp [inside, inside']⟩
        rw [bytes, ← bytes', List.flatten_cons, List.append_assoc]
    · rename_i passes
      exact ih (ci + 1) cur s next ok (ok.skip here ahead passes)

def decoderCb (cb : FrameCb σ) : RxCb (Decoder cap × σ) := fun data s =>
  let r := tcpToHalowSend cb s.1 data s.2
  ((r.status, r.consumed), r.decoder, r.user)

theorem passFrom_decoder (cb : FrameCb σ) (rest : List (List Byte)) (ci : Nat) (cur : Cursor)
    (d : Decoder cap) (s : σ) (left : chunks.drop ci = rest) (ok : cur.Ok chunks)
    (ahead : cur.Ahead chunks ci) :
    let r := passFrom (decoderCb cb) rest ci cur (d, s)
    feedFrom cb rest ci cur d s = ⟨r.status, r.cursor, r.user.1, r.user.2⟩ := by
  induction rest generalizing ci cur d s with
  | nil => rfl
  | cons data later ih =>
    obtain ⟨here, next⟩ := scan_here left
    obtain ⟨small, cast⟩ := scan_short short few here
    rw [passFrom, feedFrom, cast]
    dsimp only
    by_cases takes : ci > cur.chunk ∨ ci = cur.chunk ∧ cur.ofs < data.length
    · have inside : cur.ofs ≤ data.length := ok.inside here ahead takes
      rw [if_pos takes, if_pos takes]
      have call : decoderCb cb (data.drop cur.ofs) (d, s) =
          (((tcpToHalowSend cb d (data.drop cur.ofs) s).status,
            (tcpToHalowSend cb d (data.drop cur.ofs) s).consumed),
            (tcpToHalowSend cb d (data.drop cur.ofs) s).decoder,
            (tcpToHalowSend cb d (data.drop cur.ofs) s).user) := rfl
      rw [call]
      generalize tcpToHalowSend cb d (data.drop cur.ofs) s = r
      by_cases no : r.status = txThrottle
      · have fits : (cur.ofs + if r.consumed > data.length - cur.ofs then data.length - cur.ofs
            else r.consumed) % 2 ^ 16 =
            cur.ofs + if r.consumed > data.length - cur.ofs then data.length - cur.ofs
              else r.consumed := by
          apply Nat.mod_eq_of_lt
          split <;> omega
        rw [if_pos no, if_pos no, fits]
      · rw [if_neg no, if_neg no]
        exact ih (ci + 1) ⟨ci + 1, 0⟩ _ _ next (.inl rfl) (.inl (Nat.le_refl _))
    · rw [if_neg takes, if_neg takes]
      exact ih (ci + 1) cur d s next ok (ok.skip here ahead takes)

end Calls

structure Calls (σ : Type) where
  done : Bool
  cursor : Cursor
  user : σ
  pieces : List (List Byte)
  inside : Bool

namespace Calls

def start (s : σ) : Calls σ := ⟨false, ⟨0, 0⟩, s, [], true⟩

def again (cb : RxCb σ) (nb : Netbuf) (c : Calls σ) : Calls σ :=
  if c.done then c
  else
    let r := passNetbuf cb nb c.cursor c.user
    ⟨decide (r.status = 0), r.cursor, r.user, c.pieces ++ r.pieces, c.inside && r.inside⟩

-- Nothing of the buffer is skipped, repeated or reordered.
structure Exact (nb : Netbuf) (c : Calls σ) : Prop where
  bytes : c.pieces.flatten ++ unread nb.chunks c.cursor = nb.chunks.flatten
  ok : c.cursor.Ok nb.chunks
  whole : c.done = true → c.pieces.flatten = nb.chunks.flatten
  inside : c.inside = true

variable (cb : RxCb σ) (nb : Netbuf)

theorem start_exact (s : σ) : Exact nb (start s) :=
  ⟨rfl, .inl rfl, nofun, rfl⟩

theorem passNetbuf_ok {cur : Cursor} (s : σ) (ok : cur.Ok nb.chunks) :
    PassOk nb.chunks cur (passNetbuf cb nb cur s) :=
  passFrom_ok nb.short nb.few cb nb.chunks 0 cur s rfl ok (.inl (Nat.zero_le _))

theorem again_exact {nb : Netbuf} {c : Calls σ} (exact : Exact nb c) :
    Exact nb (c.again cb nb) := by
  unfold again
  split
  · exact exact
  · have pass := passNetbuf_ok cb nb c.user exact.ok
    have bytes : (c.pieces ++ (passNetbuf cb nb c.cursor c.user).pieces).flatten ++
        unread nb.chunks (passNetbuf cb nb c.cursor c.user).cursor = nb.chunks.flatten := by
      rw [List.flatten_append, List.append_assoc, pass.bytes, exact.bytes]
    refine ⟨bytes, pass.ok, fun zero => ?_, by simp [exact.inside, pass.inside]⟩
    rw [pass.through (of_decide_eq_true zero), List.append_nil] at bytes
    exact bytes

theorem iterate_exact (n : Nat) {c : Calls σ} (exact : Exact nb c) :
    Exact nb ((again cb nb)^[n] c) := by
  induction n generalizing c with
  | zero => exact exact
  | succ n ih =>
    rw [Function.iterate_succ_apply]
    exact ih (again_exact cb exact)

end Calls

abbrev Script := List (Option Nat)

def scripted : RxCb Script
  | offered, [] => ((0, offered.length), [])
  | offered, none :: later => ((0, offered.length), later)
  | _, some n :: later => ((txThrottle, n), later)

theorem scripted_spends (offered : List Byte) (script : Script) :
    (scripted offered script).2.length ≤ script.length ∧
      ((scripted offered script).1.1 = txThrottle →
        (scripted offered script).2.length < script.length) := by
  rcases script with _ | ⟨_ | n, later⟩
  · exact ⟨Nat.le_refl _, fun no => absurd no.symm txThrottle_ne.1⟩
  · exact ⟨Nat.le_succ _, fun no => absurd no.symm txThrottle_ne.1⟩
  · exact ⟨Nat.le_succ _, fun _ => Nat.lt_succ_self _⟩

theorem passFrom_spends (rest : List (List Byte)) (ci : Nat) (cur : Cursor) (script : Script) :
    (passFrom scripted rest ci cur script).user.length ≤ script.length ∧
      ((passFrom scripted rest ci cur script).status ≠ 0 →
        (passFrom scripted rest ci cur script).user.length < script.length) := by
  induction rest generalizing ci cur script with
  | nil => exact ⟨Nat.le_refl _, fun no => absurd rfl no⟩
  | cons data later ih =>
    rw [passFrom]
    dsimp only
    obtain ⟨less, fewer⟩ := scripted_spends (data.drop cur.ofs) script
    split
    · split
      · rename_i no
        exact ⟨less, fun _ => fewer no⟩
      · obtain ⟨less', fewer'⟩ := ih ((ci + 1) % 2 ^ 16) ⟨(ci + 1) % 2 ^ 16, 0⟩
          (scripted (data.drop cur.ofs) script).2
        exact ⟨less'.trans less, fun no => (fewer' no).trans_le less⟩
    · exact ih _ cur script

theorem Calls.iterate_spends (nb : Netbuf) (n : Nat) (c : Calls Script) :
    ((again scripted nb)^[n] c).done = true ∨
      ((again scripted nb)^[n] c).user.length + n ≤ c.user.length := by
  induction n generalizing c with
  | zero => exact .inr (Nat.le_refl _)
  | succ n ih =>
    rw [Function.iterate_succ_apply]
    rcases ih (c.again scripted nb) with done | spent
    · exact .inl done
    · by_cases done : (c.again scripted nb).done = true
      · left
        have fixed : again scripted nb (c.again scripted nb) = c.again scripted nb := if_pos done
        rw [Function.iterate_fixed fixed n]
        exact done
      · right
        have now : (c.again scripted nb).user.length < c.user.length := by
          unfold again at done ⊢
          split at done
          · contradiction
          · rename_i before
            rw [if_neg before]
            exact (passFrom_spends nb.chunks 0 c.cursor c.user).2 fun zero =>
              done (decide_eq_true zero)
        omega

theorem netbuf_cursor_exact (nb : Netbuf) :
    (∀ (σ : Type) (cb : RxCb σ) (s : σ) (n : Nat),
      let c := (Calls.again cb nb)^[n] (.start s)
      c.pieces.flatten ++ unread nb.chunks c.cursor = nb.chunks.flatten ∧
        (c.done = true → c.pieces.flatten = nb.chunks.flatten) ∧ c.inside = true) ∧
    ∀ script : Script,
      ((Calls.again scripted nb)^[script.length + 1] (.start script)).done = true := by
  constructor
  · intro σ cb s n c
    have exact := Calls.iterate_exact cb nb n (Calls.start_exact nb s)
    exact ⟨exact.bytes, exact.whole, exact.inside⟩
  · intro script
    rcases Calls.iterate_spends nb (script.length + 1) (.start script) with done | spent
    · exact done
    · change _ + (script.length + 1) ≤ script.length at spent
      omega

end RnodeHalow.Tcp
