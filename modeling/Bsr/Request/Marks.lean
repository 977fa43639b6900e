import Bsr.Request.Frame

/-!
# Acknowledged or marked

`bsr_req_destroy` decides from the flags of a write which slots of the bitmap it has to mark.

* `PeerOk` is what the flags of one peer say: `RQ_NET_OK` stands for an ack, for protocol A's
  pretended one, or for a slot that is marked already; the out-of-sync flags stand for a marked
  slot;
* `destroyMarks_slot` is what the destruction does to each slot;
* `Covered` is the outcome.
-/

namespace Bsr.Request

/-! ## The flags of one peer -/

/-- `acked`: the peer acknowledged the data; `marked`: its slot is marked. -/
@[grind cases]
structure PeerOk (acked marked : Prop) (f : NetFlags) : Prop where
  ok : f.ok = true → acked ∨
    (f.expBarrAck = true ∧ f.done = false ∧ f.expReceiveAck = false ∧ f.expWriteAck = false) ∨
    (f.expBarrAck = false ∧ marked)
  oos : f.oosPending = true ∨ f.oosNetQueued = true ∨ f.oosLocalDone = true →
    f.expBarrAck = false ∧ marked
  sis : f.sis = true → f.expBarrAck = true
  pending : f.pending = true → f.expBarrAck = true ∨ marked
  again : f.expBarrAck = true → f.done = true → f.pending = true →
    f.expReceiveAck = true ∨ f.expWriteAck = true

namespace PeerOk

variable {acked marked : Prop} {f : NetFlags} (h : PeerOk acked marked f)

include h

theorem mono {acked' marked' : Prop} (ha : acked → acked')
    (hm : marked → marked') : PeerOk acked' marked' f where
  ok hok := (h.ok hok).imp ha (Or.imp id fun hb => ⟨hb.1, hm hb.2⟩)
  oos ho := ⟨(h.oos ho).1, hm (h.oos ho).2⟩
  sis := h.sis
  pending hp := (h.pending hp).imp id hm
  again := h.again

/-- Slots of peers that data was sent to may be cleared: their flags do not rely on the marking. -/
theorem unmark (hsent : f.expBarrAck = true) : PeerOk acked False f := by
  constructor <;> grind

open NetFlags

theorem leftQueue : PeerOk acked marked (f.apply { queued := true } {}) := by
  constructor <;> grind [apply]

theorem pretend (hsent : f.expBarrAck = true) (hp : f.pending = true)
    (hr : f.expReceiveAck = false) (hw : f.expWriteAck = false) :
    PeerOk acked marked (f.apply { queued := true, pending := true } { sent := true, ok := true }) := by
  constructor <;> grind [apply]

theorem handed : PeerOk acked marked (f.apply { queued := true } { sent := true }) := by
  constructor <;> grind [apply]

theorem oosHanded (hsent : f.expBarrAck = false) :
    PeerOk acked marked (f.apply { queued := true } { done := true }) := by
  constructor <;> grind [apply]

/-- The connection is lost, or the peer failed to write. -/
theorem lost : PeerOk False marked (f.apply { ok := true, pending := true } { done := true }) := by
  constructor <;> grind [apply]

theorem acks (ha : acked) (d : Bool) :
    PeerOk acked marked (f.apply { pending := true } { ok := true, done := d }) := by
  constructor <;> grind [apply]

theorem setSis (hsent : f.expBarrAck = true) : PeerOk acked marked { f with sis := true } :=
  { h with sis := fun _ => hsent }

/-- An early barrier ack of a request that was not sent finds the slot marked. -/
theorem barrierEarly (ha : acked ∨ f.expBarrAck = false)
    (hp : f.pending = true) : PeerOk acked marked (f.apply { pending := true } { ok := true }) := by
  constructor <;> grind [apply]

theorem barrierDone
    (ha : acked ∨ f.expBarrAck = false ∨ f.expReceiveAck = true ∨ f.expWriteAck = true)
    (hp : f.pending = false) (d : Bool) : PeerOk acked marked (f.apply {} { done := d }) := by
  constructor <;> grind [apply]

/-- Sent once more, which is for protocols B and C only. -/
theorem resend (hsent : f.expBarrAck = true) (hbc : f.expReceiveAck = true ∨ f.expWriteAck = true) :
    PeerOk acked marked (f.apply {} { queued := true, pending := true }) := by
  constructor <;> grind [apply]

section

variable (hm : marked) (hsent : f.expBarrAck = false)

include hm hsent

theorem queueOos : PeerOk acked marked (f.apply { oosPending := true, pending := true }
      { oosNetQueued := true, queued := true }) := by
  constructor <;> grind [apply]

theorem pendOos : PeerOk acked marked (f.apply {} { oosPending := true, pending := true }) := by
  constructor <;> grind [apply]

theorem markLocal : PeerOk acked marked (f.apply {} { oosLocalDone := true }) := by
  constructor <;> grind [apply]

end

omit h in
theorem sendData (hok : f.ok = false) (hdone : f.done = false)
    (hoos : f.oosPending = false ∧ f.oosNetQueued = false ∧ f.oosLocalDone = false)
    (w : WireProtocol) : PeerOk acked marked (((expectAck f w).apply {} { pending := true }).apply {}
      { queued := true, expBarrAck := true }) := by
  cases w <;> constructor <;> grind [apply, expectAck]

theorem same : PeerOk acked marked (f.apply {} {}) := by
  simpa [apply] using h

end PeerOk

/-! ## The bits -/

/-- The slots fit the bitmap, and every node has its own. With 32 slots the mask of `bsr_set_sync`
overflows. -/
structure DeviceMd.Slots (md : DeviceMd) : Prop where
  lt_32 : md.bmMaxPeers < 32
  index_lt : ∀ p slot, md.bitmapIndex p = some slot → slot < md.bmMaxPeers
  index_inj : ∀ p q slot, md.bitmapIndex p = some slot → md.bitmapIndex q = some slot → p = q

/-- A write of some sectors of the device. -/
structure IsWrite (md : DeviceMd) (s : ReqState) : Prop where
  op : s.op.isWrite = true
  size_pos : s.size ≠ 0
  size_le : s.size ≤ bsrMaxBatchBioSize
  aligned : s.size % 512 = 0
  inside : s.sector + s.size / 512 ≤ md.nrSectors

/-- Every bit the write touches is set in this slot. -/
def SlotMarked (s : ReqState) (slot : Nat) : Prop :=
  ∀ b, bmSectToBit s.sector ≤ b → b ≤ bmSectToBit (s.sector + s.size / 512 - 1) → s.oos slot b = true

def Marked (md : DeviceMd) (s : ReqState) (p : Nat) : Prop :=
  ∀ slot, md.bitmapIndex p = some slot → SlotMarked s slot

section

variable {md : DeviceMd} {env : Env} {s : ReqState}

theorem IsWrite.kept {t : ReqState} (h : IsWrite md s) (hk : Kept s t) : IsWrite md t := by
  obtain ⟨h1, h2, h3, h4, h5⟩ := h
  constructor
  · rw [hk.op]
    exact h1
  · rw [hk.size]
    exact h2
  · rw [hk.size]
    exact h3
  · rw [hk.size]
    exact h4
  · rw [hk.sector, hk.size]
    exact h5

theorem IsWrite.sectors_pos (h : IsWrite md s) : 0 < s.size / 512 := by
  have h1 := h.size_pos
  have h2 := h.aligned
  omega

theorem IsWrite.esector_eq (h : IsWrite md s) : s.esector md = s.sector + s.size / 512 - 1 := by
  have h1 := h.inside
  have h2 := h.sectors_pos
  rw [ReqState.esector, if_pos (by omega)]

section

variable (hw : IsWrite md s) (hdisk : env.getLdev = true)

include hw hdisk

theorem bsrSetOutOfSync_oos (p slot b : Nat) : (bsrSetOutOfSync md env s p).1.oos slot b =
      if md.bitmapIndex p = some slot ∧ bmSectToBit s.sector ≤ b ∧
        b ≤ bmSectToBit (s.sector + s.size / 512 - 1) then true else s.oos slot b := by
  have hins := hw.inside
  have hpos := hw.sectors_pos
  unfold bsrSetOutOfSync
  cases hidx : md.bitmapIndex p with
  | none => simp
  | some i =>
    dsimp only
    rw [if_neg (by have := hw.size_pos; have := hw.size_le; have := hw.aligned; omega), hdisk,
      if_neg Bool.noConfusion, if_neg (by omega), hw.esector_eq]
    simp only [writeBits, Option.some.injEq]
    simp only [eq_comm]

theorem bsrSetOutOfSync_marked (p : Nat) : Marked md (bsrSetOutOfSync md env s p).1 p := by
  obtain ⟨hk, _, _⟩ := bsrSetOutOfSync_kept md env s p
  intro _ hslot b h1 h2
  rw [hk.sector] at h1
  rw [hk.sector, hk.size] at h2
  rw [bsrSetOutOfSync_oos hw hdisk, if_pos ⟨hslot, h1, h2⟩]

theorem SlotMarked.setOutOfSync {p slot : Nat}
    (h : SlotMarked s slot) : SlotMarked (bsrSetOutOfSync md env s p).1 slot := by
  obtain ⟨hk, _, _⟩ := bsrSetOutOfSync_kept md env s p
  intro b h1 h2
  rw [hk.sector] at h1
  rw [hk.sector, hk.size] at h2
  rw [bsrSetOutOfSync_oos hw hdisk]
  split_ifs
  · rfl
  · exact h b h1 h2

/-! ## Destruction -/

omit hw hdisk in
theorem slotMask_of_lt {n slot : Nat} (hn : n < 32) (h : slot < n) : slotMask n slot = true := by
  rw [slotMask, Nat.mod_eq_of_lt hn, Nat.testBit_two_pow_sub_one]
  exact decide_eq_true h

omit hw hdisk in
/-- `bits` loses the slots of the nodes in sync, `mask` those of the others that are accounted
for. -/
theorem destroyMasks_iff (md : DeviceMd) (s : ReqState) (l : List Nat) (slot : Nat) :
    ((destroyMasks md s l).1 slot = true ↔ ∀ node ∈ l, accountedFor (s.net node) = true →
      md.bitmapIndex node = some slot → (s.net node).sis = false) ∧
    ((destroyMasks md s l).2 slot = true ↔ ∀ node ∈ l, accountedFor (s.net node) = true →
      md.bitmapIndex node = some slot → (s.net node).sis = true) := by
  induction l with
  | nil => simp [destroyMasks]
  | cons node l ih =>
    rw [destroyMasks]
    cases hacc : accountedFor (s.net node) with
    | false => simp [ih, hacc]
    | true =>
      cases hidx : md.bitmapIndex node with
      | none => simp [ih, hidx]
      | some i =>
        cases hsis : (s.net node).sis <;> rcases eq_or_ne slot i with rfl | _
        all_goals simp [*, Ne.symm]

/-- The write is not one that was pushed back before anything happened to it. -/
def WasStarted (s : ReqState) : Prop :=
  ¬ (s.postponed = true ∧ s.loc.masked = false)

omit hw hdisk in
theorem getLdevIfState_detaching (hdisk : env.getLdev = true) :
    env.getLdevIfState .detaching = true := by
  rw [Env.getLdev, Env.getLdevIfState, decide_eq_true_eq] at hdisk
  rw [Env.getLdevIfState, decide_eq_true_eq]
  exact Nat.le_trans (by decide) hdisk

theorem destroyMarks_eq (hs : WasStarted s) : destroyMarks md env s = bsrSetSync md env s
      (destroyMasks md s (List.range (md.maxNodeId + 1))).1
      (destroyMasks md s (List.range (md.maxNodeId + 1))).2 := by
  unfold destroyMarks
  rw [if_pos ⟨hw.op, hs, hw.size_pos, getLdevIfState_detaching hdisk⟩]

theorem bsrSetSync_oos (bits mask : Nat → Bool) (slot b : Nat) :
    (bsrSetSync md env s bits mask).oos slot b =
      if (mask slot && slotMask md.bmMaxPeers slot) = false then s.oos slot b
      else if bits slot then
        writeBits s.oos slot (bmSectToBit s.sector) (bmSectToBit (s.esector md)) true slot b
      else
        match clearRange md s with
        | none => s.oos slot b
        | some (lo, hi) => writeBits s.oos slot lo hi false slot b := by
  have hins := hw.inside
  have hsize : ¬ (s.size = 0 ∨ s.size % 512 ≠ 0) := by
    have := hw.size_pos
    have := hw.aligned
    omega
  have hldev : ¬ env.getLdev = false := by simp [hdisk]
  have hsector : ¬ md.nrSectors ≤ s.sector := by omega
  have hset : bsrSetSync md env s bits mask = _ :=
    (if_neg hsize).trans ((if_neg hldev).trans (if_neg hsector))
  exact (congrArg (fun s' : ReqState => s'.oos slot b) hset).trans rfl

/-- A slot whose node is accounted for and not in sync is left as it is. -/
theorem destroyMarks_keeps {p slot : Nat}
    (hp : p ≤ md.maxNodeId) (hidx : md.bitmapIndex p = some slot)
    (hacc : accountedFor (s.net p) = true) (hsis : (s.net p).sis = false) (b : Nat) :
    (destroyMarks md env s).oos slot b = s.oos slot b := by
  by_cases hs : WasStarted s
  · rw [destroyMarks_eq hw hdisk hs, bsrSetSync_oos hw hdisk, if_pos]
    rw [Bool.and_eq_false_iff]
    left
    cases hmask : (destroyMasks md s (List.range (md.maxNodeId + 1))).2 slot with
    | false => rfl
    | true =>
      have := (destroyMasks_iff md s _ slot).2.1 hmask p (List.mem_range.2 (by omega)) hacc hidx
      rw [hsis] at this
      exact this.symm
  · rw [destroyMarks, if_neg fun h => hs h.2.1]

end

theorem destroyMarks_sets (hmd : md.Slots) (hw : IsWrite md s) (hdisk : env.getLdev = true)
    (hs : WasStarted s) {slot : Nat} (hslot : slot < md.bmMaxPeers)
    (hnone : ∀ p ≤ md.maxNodeId, md.bitmapIndex p = some slot → accountedFor (s.net p) = false) :
    SlotMarked (destroyMarks md env s) slot := by
  have hkept : (destroyMarks md env s).sector = s.sector ∧ (destroyMarks md env s).size = s.size := by
    obtain ⟨_, h⟩ := destroyMarks_frame md env s
    rw [h]
    exact ⟨rfl, rfl⟩
  have hno : ∀ node ∈ List.range (md.maxNodeId + 1), accountedFor (s.net node) = true →
      md.bitmapIndex node = some slot → False := by
    intro node hnode hacc hidx
    rw [hnone node (by have := List.mem_range.1 hnode; omega) hidx] at hacc
    exact Bool.false_ne_true hacc
  have hmask := (destroyMasks_iff md s _ slot).2.2 fun node hn ha hi => (hno node hn ha hi).elim
  have hbits := (destroyMasks_iff md s _ slot).1.2 fun node hn ha hi => (hno node hn ha hi).elim
  intro b h1 h2
  rw [hkept.1] at h1
  rw [hkept.1, hkept.2] at h2
  rw [destroyMarks_eq hw hdisk hs, bsrSetSync_oos hw hdisk, hmask,
    slotMask_of_lt hmd.lt_32 hslot, hbits, hw.esector_eq]
  simp [writeBits, h1, h2]

/-- A mark that the flags of a peer rely on survives the destruction. -/
theorem Marked.destroyMarks (hmd : md.Slots) (hw : IsWrite md s) (hdisk : env.getLdev = true)
    {p : Nat} (hsis : (s.net p).sis = false) (h : Marked md s p) :
    Marked md (destroyMarks md env s) p := by
  intro slot hidx
  by_cases hs : WasStarted s
  · by_cases hacc : p ≤ md.maxNodeId ∧ accountedFor (s.net p) = true
    · obtain ⟨_, hframe⟩ := destroyMarks_frame md env s
      intro b h1 h2
      rw [destroyMarks_keeps hw hdisk hacc.1 hidx hacc.2 hsis]
      rw [hframe] at h1 h2
      exact h slot hidx b h1 h2
    · refine destroyMarks_sets hmd hw hdisk hs (hmd.index_lt p slot hidx) fun q hq hidx' => ?_
      rw [hmd.index_inj q p slot hidx' hidx] at hq ⊢
      exact Bool.eq_false_of_not_eq_true fun ha => hacc ⟨hq, ha⟩
  · rw [Request.destroyMarks, if_neg fun h => hs h.2.1]
    exact h slot hidx

end

end Bsr.Request
