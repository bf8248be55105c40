import RnodeHalow.Ack.Bundling

set_option autoImplicit false

namespace RnodeHalow.Ack

open Resumption

variable {ρ : Type} [Platform ρ]

structure Fitted (p : AckPeer) (buf : AckBuf) (payloads : List (List Byte)) : Prop where
  count : p.aggNsub = payloads.length
  subs : p.aggNsub ≤ 8
  len : p.aggLen = 6 + (payloads.map fun q => 2 + q.length).sum
  inside : p.aggLen ≤ buf.cap
  cap_le : buf.cap ≤ 4022
  block : buf.data.length = buf.cap
  net : payloadSum p = (payloads.map List.length).sum

theorem StagedAs.len {p : AckPeer} {buf : AckBuf} {payloads : List (List Byte)}
    (staged : StagedAs p buf payloads) (inside : p.aggLen ≤ buf.data.length) :
    p.aggLen = ackAggReserve + (payloads.map fun q => 2 + q.length).sum := by
  obtain ⟨hdr, header, bytes⟩ := staged.bytes
  have total := congrArg List.length bytes
  rw [List.length_take, Nat.min_eq_left inside, List.length_append, header, packed_length] at total
  exact total

theorem payloadSum_exact {p : AckPeer} (reserve : ackAggReserve + 2 * p.aggNsub ≤ p.aggLen)
    (small : p.aggLen ≤ ackWireMax) :
    ackAggReserve + 2 * p.aggNsub + payloadSum p = p.aggLen := by
  have bound : ackWireMax < 2 ^ 32 := by decide
  simp only [payloadSum, sub32]
  omega

theorem StagedAs.fitted {p : AckPeer} {buf : AckBuf} {payloads : List (List Byte)}
    (staged : StagedAs p buf payloads) (ok : StagedOk p buf) (block : BlockOk buf) :
    Fitted p buf payloads := by
  have cap := block.cap_le
  have len := staged.len (Nat.le_trans ok.inside (Nat.le_of_eq block.size.symm))
  have net := payloadSum_exact ok.reserve (Nat.le_trans ok.inside cap)
  have headers := sum_headers payloads
  have count := staged.count
  exact
    { count := count.symm
      subs := ok.subs
      len := len
      inside := ok.inside
      cap_le := cap
      block := block.size
      net := by omega }

theorem append_exact {p : AckPeer} {sb : AckBuf} {len effPayload : Nat} (cap_le : sb.cap ≤ 4022)
    (fits : bundleFullFor p sb len effPayload = false) :
    p.aggLen + 2 + len ≤ sb.cap ∧
      (p.aggLen + 2 + len) % 2 ^ 16 = p.aggLen + 2 + len ∧
      (p.aggNsub + 1) % 2 ^ 8 = p.aggNsub + 1 ∧ p.aggNsub + 1 ≤ 8 := by
  simp only [bundleFullFor, Bool.or_eq_false_iff, decide_eq_false_iff_not, Nat.not_lt] at fits
  obtain ⟨⟨_, room⟩, subs⟩ := fits
  have most : aggMaxSub = 8 := rfl
  rw [most] at subs
  exact ⟨room, Nat.mod_eq_of_lt (by omega), Nat.mod_eq_of_lt (by omega), subs⟩

theorem open_exact {len : Nat} (small : ackAggReserve + 2 + len ≤ ackWireMax) (effPayload : Nat) :
    (6 + 2 + len) % 2 ^ 16 = 6 + 2 + len ∧ 6 + 2 + len ≤ 4022 ∧
      stagingAllocCap effPayload ≤ 4022 := by
  have reserve : ackAggReserve = 6 := rfl
  have wire : ackWireMax = 4022 := rfl
  rw [reserve, wire] at small
  exact ⟨Nat.mod_eq_of_lt (by omega), small, (stagingAllocCap_le effPayload).2⟩

theorem staging_arithmetic (c : Threads ρ) (h : Reachable c) (t : Nat) (b : Body ρ)
    (inside : Chain t (core c.body) (core b)) :
    (∀ i j, (b.peers i).inUse = true → (b.peers i).aggIdx = some j →
      ∃ buf, b.bufs j = some buf ∧ buf.state = .staging) ∧
      (∀ j buf, b.bufs j = some buf → buf.state = .staging → ∃ i,
        (b.peers i).inUse = true ∧ (b.peers i).aggIdx = some j ∧
          Fitted (b.peers i) buf (pendingOf i b.trace) ∧
          ∀ len effPayload, bundleFullFor (b.peers i) buf len effPayload = false →
            (b.peers i).aggLen + 2 + len ≤ buf.cap ∧
              ((b.peers i).aggLen + 2 + len) % 2 ^ 16 = (b.peers i).aggLen + 2 + len ∧
              ((b.peers i).aggNsub + 1) % 2 ^ 8 = (b.peers i).aggNsub + 1 ∧
              (b.peers i).aggNsub + 1 ≤ 8) ∧
      (∀ e ∈ b.trace, e.2 ≠ .overrun ∧ e.2 ≠ .nullDeref) ∧
      ∀ len dest u i effPayload, (txRoute len dest u b).1 = .bundle i effPayload →
        (6 + 2 + len) % 2 ^ 16 = 6 + 2 + len ∧ 6 + 2 + len ≤ 4022 ∧
          stagingAllocCap effPayload ≤ 4022 := by
  have inv : Inv (core b) := inside.inv h.inv
  have books := Chain.keeps (t := t)
    (fun _ _ inv move books => move.books pendingOf_account inv books) inside h.inv
    (h.books pendingOf_account)
  refine ⟨fun i j inUse named => ?_, fun j buf held staging => ?_,
    fun e member => (inv.faultless e member).symm, ?_⟩
  · obtain ⟨buf, held, staging, _⟩ := (inv.rep.agg_iff i inUse j).mp named
    exact ⟨buf, held, staging⟩
  · obtain ⟨i, inUse, mac⟩ := inv.rep.owned j buf held
    have named := (inv.rep.agg_iff i inUse j).mpr ⟨buf, held, staging, mac.symm⟩
    obtain ⟨payloads, staged, history⟩ := books.staged inUse named held
    have fitted := staged.fitted (inv.layout.staged i j buf inUse named held)
      (inv.layout.block j buf held)
    rw [← history] at fitted
    exact ⟨i, inUse, named, fitted, fun len effPayload fits => append_exact fitted.cap_le fits⟩
  · intro len dest u i effPayload route
    have routed : Routed len dest (core (txRoute len dest u b).2) (txRoute len dest u b).1 :=
      (txRoute_does inv b rfl).2
    rw [route] at routed
    exact open_exact routed.2 effPayload

theorem staging_arithmetic_threePayloads : ∃ c, playAll threePayloads quietNode = some c ∧
    ((c.body.peers 0).inUse = true ∧ (c.body.peers 0).aggIdx = some 1 ∧
      pendingOf 0 c.body.trace = [[5, 6]]) ∧
    ∃ buf, c.body.bufs 1 = some buf ∧ ∃ i, (c.body.peers i).aggIdx = some 1 ∧
      Fitted (c.body.peers i) buf (pendingOf i c.body.trace) := by
  refine played_then (by decide +kernel) fun c reach ⟨inUse, named, _⟩ => ?_
  obtain ⟨slot, fit, _⟩ := staging_arithmetic c reach 1 c.body .refl
  obtain ⟨buf, held, staging⟩ := slot 0 1 inUse named
  obtain ⟨i, _, owner, fitted, _⟩ := fit 1 buf held staging
  exact ⟨buf, held, i, owner, fitted⟩

end RnodeHalow.Ack
