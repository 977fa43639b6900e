import Bsr.Bitmap.Sync

/-!
# The slots that `bsr_set_sync` changes

The mask names the slots, `bits` the value each of them gets. Slots are visited through the peer
devices first, then the rest of the mask through the indexes that no peer device has.

* `Synced` says what a part of the mask has made of the bitmap; parts compose;
* `set_sync_slots` is the whole call. The mask is clipped with a 32-bit shift by `bm_max_peers`, and
  with 32 slots nothing is left of it.
-/

namespace Bsr.Bitmap

/-- The bits that get the value `v`: from the first to before the second. -/
def SyncRange.span (range : SyncRange) (v : Bool) : Nat × Nat :=
  if v then (range.setStart, range.setEnd + 1)
  else if range.skipClear then (0, 0)
  else (range.clearStart, range.clearEnd + 1)

/-- The bit that a call asks for: that of `bits` inside the range of a slot of the mask. -/
def requested (range : SyncRange) (bits : BitVec 64) (mask : Nat → Bool) (b : BsrBitmap) (slot i : Nat) : Bool :=
  let span := range.span (bits.getLsbD slot)
  if mask slot ∧ span.1 ≤ i ∧ i < span.2 ∧ i < b.bmBits then bits.getLsbD slot else b.bit slot i

/-- The slots of the mask are as requested, the others as they were. -/
structure Synced (range : SyncRange) (bits : BitVec 64) (mask : Nat → Bool) (b b' : BsrBitmap) : Prop where
  shape : b.SameShape b'
  bits : ∀ slot < b.bmMaxPeers.val, ∀ i, b'.bit slot i = requested range bits mask b slot i

section

variable {range : SyncRange} {bits : BitVec 64} {b b' b'' : BsrBitmap}

theorem Synced.refl (range : SyncRange) (bits : BitVec 64) (b : BsrBitmap) :
    Synced range bits (fun _ => false) b b :=
  ⟨.rfl, fun _ _ _ => by simp [requested]⟩

theorem Synced.trans {m m' : Nat → Bool} (h : Synced range bits m b b')
    (h' : Synced range bits m' b' b'') : Synced range bits (fun j => m j || m' j) b b'' := by
  refine ⟨h.shape.trans h'.shape, fun slot hslot i => ?_⟩
  rw [h'.bits slot (by rw [h.shape.maxPeers]; exact hslot) i]
  have hfirst := h.bits slot hslot i
  unfold requested at hfirst ⊢
  rw [h.shape.bits]
  grind

theorem Marked.synced {idx : Nat} (h : Marked (bits.getLsbD idx) b b' idx (range.span (bits.getLsbD idx)).1
    (range.span (bits.getLsbD idx)).2) : Synced range bits (fun j => decide (j = idx)) b b' := by
  refine ⟨h.shape, fun slot hslot i => ?_⟩
  rw [h.bits slot hslot i]
  unfold requested
  by_cases hidx : slot = idx
  · simp [hidx]
  · simp [hidx]

/-- What one slot needs of the bitmap. -/
structure SlotOf (b : BsrBitmap) (idx : Nat) : Prop where
  valid : b.Valid
  bits : 0 < b.bmBits
  idx : idx < b.bmMaxPeers.val

theorem SlotOf.next {idx : Nat} (h : SlotOf b idx) (hs : b.SameShape b') : SlotOf b' idx :=
  ⟨h.valid.of_sameShape hs, by rw [hs.bits]; exact h.bits, by rw [hs.maxPeers]; exact h.idx⟩

theorem markRange_span {idx : Nat} (range : SyncRange) (v : Bool) {α : Type} (out : α → BsrBitmap)
    {run : Nat → Nat → Except Fault α} (none : α) (hnone : out none = b)
    (hrun : ∀ lo last, ∃ r, run lo last = .ok r ∧ Marked v b (out r) idx lo (last + 1)) :
    ∃ r, (if v then run range.setStart range.setEnd
        else if range.clearStart ≤ range.clearEnd ∧ !range.skipClear then run range.clearStart range.clearEnd
        else .ok none) = .ok r ∧ Marked v b (out r) idx (range.span v).1 (range.span v).2 := by
  unfold SyncRange.span
  cases v with
  | true => exact hrun _ _
  | false =>
    simp only [Bool.false_eq_true, if_false]
    by_cases hskip : range.skipClear = true
    · refine ⟨none, if_neg (by simp [hskip]), ?_⟩
      rw [if_pos hskip, hnone]
      exact .refl b _ idx (Nat.le_refl 0)
    rw [if_neg hskip]
    split_ifs with hle
    · exact hrun _ _
    refine ⟨none, rfl, ?_⟩
    rw [hnone]
    exact .refl b _ idx (Nat.lt_of_not_le fun h => hle ⟨h, by simpa using hskip⟩)

theorem setSyncPeers_synced (range : SyncRange) (bits : BitVec 64) (peers : List (Option Nat))
    {mask : BitVec 64} (hmask : ∀ j, mask.getLsbD j = true → SlotOf b j) (setBits : BitVec 32) :
    ∃ b' rest setBits' done, setSyncPeers range bits peers b mask setBits = .ok (b', rest, setBits') ∧
      Synced range bits done b b' ∧ ∀ j, mask.getLsbD j = (done j || rest.getLsbD j) := by
  induction peers generalizing b mask setBits with
  | nil => exact ⟨b, mask, setBits, _, rfl, .refl range bits b, fun _ => rfl⟩
  | cons p peers ih =>
    cases p with
    | none => exact ih hmask setBits
    | some idx =>
      rw [setSyncPeers_some]
      split_ifs with hidx
      · have hslot := hmask idx hidx
        have hlt : idx < 64 := BitVec.lt_of_getLsbD hidx
        obtain ⟨r, hrun, hmark⟩ := markRange_span range (bits.getLsbD idx) Prod.fst (b, 0) rfl
          fun lo last => updateSyncBits_marked hslot.valid hslot.bits hslot.idx (bits.getLsbD idx) lo last
        have hmode : markRange b idx range (bits.getLsbD idx) = .ok r := by
          rw [← hrun]
          cases bits.getLsbD idx <;> rfl
        have hcleared : ∀ j, (mask &&& ~~~ onePeer idx).getLsbD j = (mask.getLsbD j && !decide (idx = j)) := by
          intro j
          rw [BitVec.getLsbD_and, BitVec.getLsbD_not, getLsbD_onePeer hlt]
          by_cases hj : j < 64
          · simp [hj]
          · simp [BitVec.getLsbD_of_ge mask j (by omega)]
        obtain ⟨b', rest, setBits', done, hpeers, hsynced, hsplit⟩ :=
          @ih r.1 (mask &&& ~~~ onePeer idx) (fun j hj => by
            rw [hcleared, Bool.and_eq_true] at hj
            exact (hmask j hj.1).next hmark.shape)
            (if bits.getLsbD idx ∧ 0 < r.2 then setBits ||| 1#32 <<< (idx % 32) else setBits)
        rw [hmode]
        refine ⟨b', rest, setBits', _, hpeers, hmark.synced.trans hsynced, fun j => ?_⟩
        have hj := hsplit j
        rw [hcleared] at hj
        by_cases hji : j = idx
        · simp [hji, hidx]
        · simpa [hji, Ne.symm hji] using hj
      · exact ih hmask setBits

theorem setSyncRest_synced (range : SyncRange) (bits : BitVec 64) (l : List Nat) {mask : BitVec 64}
    (hmask : ∀ j, mask.getLsbD j = true → SlotOf b j) :
    ∃ b', setSyncRest range bits mask l b = .ok b' ∧
      Synced range bits (fun j => mask.getLsbD j && decide (j ∈ l)) b b' := by
  induction l generalizing b with
  | nil => exact ⟨b, rfl, by simpa using Synced.refl range bits b⟩
  | cons idx l ih =>
    by_cases hidx : mask.getLsbD idx = true
    · have hslot := hmask idx hidx
      obtain ⟨r, hrun, hmark⟩ := markRange_span range (bits.getLsbD idx) BmResult.bitmap ⟨b, 0, []⟩ rfl
        fun lo last => bmOp_marked hslot.valid hslot.bits hslot.idx (bits.getLsbD idx) lo last
      obtain ⟨b', hrest, hsynced⟩ := ih fun j hj => (hmask j hj).next hmark.shape
      refine ⟨b', ?_, ?_⟩
      · rw [setSyncRest, if_pos hidx, ← hrest]
        cases hbit : bits.getLsbD idx with
        | true =>
          rw [hbit] at hrun
          rw [if_pos rfl, show bmOp b idx _ _ .set [] = _ from hrun]
        | false =>
          rw [hbit, if_neg nofun] at hrun
          rw [if_neg nofun]
          split_ifs at hrun ⊢
          · rw [show bmOp b idx _ _ .clear [] = _ from hrun]
          · rw [← Except.ok.inj hrun]
      · have hall := hmark.synced.trans hsynced
        convert hall using 2 with j
        by_cases hj : j = idx
        · simp [hj, hidx]
        · simp [hj]
    · obtain ⟨b', hrest, hsynced⟩ := ih hmask
      refine ⟨b', by rw [setSyncRest, if_neg hidx, hrest], ?_⟩
      convert hsynced using 2 with j
      by_cases hj : j = idx
      · simp [hj, hidx]
      · simp [hj]

end

/-- The mask is clipped to the slots, or to nothing if there are 32. -/
theorem getLsbD_clipped (slots : PeerSlots) (mask : BitVec 64) (j : Nat) :
    (mask &&& peersMask slots.val).getLsbD j = (mask.getLsbD j && decide (j < slots.val ∧ slots.val < 32)) := by
  have hall : ∀ m : Fin 33, ∀ i : Fin 64, (peersMask m).getLsbD i = decide (i.val < m.val ∧ m.val < 32) := by
    decide +kernel
  by_cases hj : j < 64
  · rw [BitVec.getLsbD_and, hall ⟨slots.val, Nat.lt_succ_of_le slots.le_max⟩ ⟨j, hj⟩]
  · rw [BitVec.getLsbD_of_ge _ j (by omega), BitVec.getLsbD_of_ge mask j (by omega), Bool.false_and]

section

variable {d : SyncDevice} {sector : Nat} {size : Int} (hv : d.bitmap.Valid)
  (hcap : d.bitmap.bmDevCapacity = d.capacity) (hldev : d.hasLdev = true) (hsize : 0 < size ∧ size % 512 = 0)
  (hlt : sector < d.capacity)

include hv hcap hldev hsize hlt

theorem setSync_synced (bits mask : BitVec 64) :
    ∃ b' setBits, setSync d sector size bits mask = .ok (b', setBits) ∧
      Synced (syncRange d.capacity sector size) bits
        (mask &&& peersMask d.bitmap.bmMaxPeers.val).getLsbD d.bitmap b' := by
  have hclip : ∀ j, (mask &&& peersMask d.bitmap.bmMaxPeers.val).getLsbD j = true → SlotOf d.bitmap j := by
    intro j hj
    rw [getLsbD_clipped, Bool.and_eq_true, decide_eq_true_eq] at hj
    exact ⟨hv, by rw [hv.bits_eq]; omega, hj.2.1⟩
  obtain ⟨b₁, rest, setBits, _, hpeers, hsynced, hsplit⟩ :=
    setSyncPeers_synced (syncRange d.capacity sector size) bits d.peers hclip 0
  have hleft : ∀ j, rest.getLsbD j = true → SlotOf b₁ j := fun j hj =>
    (hclip j (by rw [hsplit, hj, Bool.or_true])).next hsynced.shape
  obtain ⟨b', hrest, hsynced'⟩ :=
    setSyncRest_synced (syncRange d.capacity sector size) bits (List.range 64) hleft
  refine ⟨b', setBits, ?_, ?_⟩
  · unfold setSync
    rw [if_neg (by omega), hldev]
    simp only
    rw [if_neg (not_not.2 hlt), hpeers]
    dsimp only
    rw [hrest]
    rfl
  · convert hsynced.trans hsynced' using 2 with j
    rw [hsplit]
    by_cases hj : rest.getLsbD j = true
    · simp [BitVec.lt_of_getLsbD hj]
    · simp [hj]

/-- Every slot of the mask gets the value of `bits` and the others keep theirs if there are fewer
than 32 slots; with 32, if that asks for no change. -/
theorem set_sync_slots (bits mask : BitVec 64) :
    ∃ b' setBits, setSync d sector size bits mask = .ok (b', setBits) ∧
      ((∀ slot < d.bitmap.bmMaxPeers.val, ∀ i, b'.bit slot i =
          requested (syncRange d.capacity sector size) bits mask.getLsbD d.bitmap slot i) ↔
        d.bitmap.bmMaxPeers.val < 32 ∨ ∀ slot < d.bitmap.bmMaxPeers.val, ∀ i, d.bitmap.bit slot i =
          requested (syncRange d.capacity sector size) bits mask.getLsbD d.bitmap slot i) := by
  obtain ⟨b', setBits, hrun, hsynced⟩ := setSync_synced hv hcap hldev hsize hlt bits mask
  refine ⟨b', setBits, hrun, ?_⟩
  have hbits := hsynced.bits
  simp only [requested, getLsbD_clipped] at hbits ⊢
  by_cases hmax : d.bitmap.bmMaxPeers.val < 32
  · refine iff_of_true (fun slot hslot i => ?_) (.inl hmax)
    simp [hbits slot hslot i, hslot, hmax]
  rw [or_iff_right hmax]
  refine forall_congr' fun slot => forall_congr' fun hslot => forall_congr' fun i => ?_
  simp [hbits slot hslot i, hmax]

end

/-- All three slots, of which the first is to be out of sync. -/
theorem set_sync_slots_three :
    ∃ b' setBits, setSync smallDevice 5 (24 * 512) (onePeer 0) 7 = .ok (b', setBits) ∧
      ∀ slot < 3, ∀ i, b'.bit slot i =
        requested (syncRange 512 5 (24 * 512)) (onePeer 0) (7 : BitVec 64).getLsbD smallDevice.bitmap slot i := by
  obtain ⟨b', setBits, hrun, hiff⟩ := @set_sync_slots smallDevice 5 (24 * 512)
    threePeers_valid rfl rfl (by decide) (by decide) (onePeer 0) 7
  exact ⟨b', setBits, hrun, hiff.mpr (.inl (by decide))⟩

/-- With 32 slots, the bit of slot 31 is asked for and not set. -/
theorem set_sync_slots_full : fullDevice.bitmap.Valid ∧ fullDevice.bitmap.bmMaxPeers.val = 32 ∧
      setSync fullDevice 0 4096 (onePeer 31) (onePeer 31) = .ok (fullDevice.bitmap, 0) ∧
      requested (syncRange 8 0 4096) (onePeer 31)
      (onePeer 31).getLsbD fullDevice.bitmap 31 0 = true ∧ fullDevice.bitmap.bit 31 0 = false := by
  refine ⟨⟨rfl, rfl, rfl, by decide⟩, rfl, ?_, by decide, by decide⟩
  rfl

end Bsr.Bitmap
