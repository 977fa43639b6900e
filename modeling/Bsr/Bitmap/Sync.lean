import Bsr.Bitmap.Fill
import Bsr.Bitmap.Refine

/-!
# Marking ranges of sectors

`__bsr_change_sync` and `bsr_set_sync` mark a range of sectors in the bitmap of a peer: out of sync
with the bits of all blocks that the range touches, in sync with the bits of the blocks that lie
inside the range.

* `updateSyncBits` is `update_sync_bits`, which works within the resync extents;
* `changeSync` and `setSync` are the two entry points;
* `Marked` says what became of every bit, and `sync_marks_exact` which bits these are.
-/

namespace Bsr.Bitmap

open Lib

/-! ## Model -/

/-- `update_sync_bits_mode`. -/
inductive SyncMode where
  | recordRsFailed
  | setOutOfSync
  | setInSync
  deriving DecidableEq, Repr

/-- The call of the bitmap that a mode makes. -/
def SyncMode.op : SyncMode → BmOp
  | recordRsFailed => .count
  | setInSync => .clear
  | setOutOfSync => .set

/-- What marking uses of a device. -/
structure SyncDevice where
  /-- `bsr_get_vdisk_capacity`. -/
  capacity : Nat
  bitmap : BsrBitmap
  /-- `get_ldev`. -/
  hasLdev : Bool := true
  /-- `bitmap_index` of the peer devices; `none` is `-1`. -/
  peers : List (Option Nat)

/-- The loop of `update_sync_bits`: the bitmap and the number of bits changed or counted. -/
def updateSyncLoop (idx ebnr : Nat) (mode : SyncMode) : Nat → BsrBitmap → Nat → Nat → Except Fault (BsrBitmap × Nat)
  | 0, b, _, count => .ok (b, count)
  | fuel + 1, b, sbnr, count =>
    if sbnr ≤ ebnr then
      -- the last bit of the resync extent, or of the range
      let tbnr := min ebnr (sbnr ||| 32767)
      match bmOp b idx sbnr tbnr mode.op [] with
      | .error f => .error f
      | .ok r => updateSyncLoop idx ebnr mode fuel r.bitmap (tbnr + 1) (count + r.ret)
    else .ok (b, count)

def updateSyncBits (b : BsrBitmap) (idx sbnr ebnr : Nat) (mode : SyncMode) : Except Fault (BsrBitmap × Nat) :=
  updateSyncLoop idx ebnr mode (ebnr + 1 - sbnr) b sbnr 0

def maxBatchBioSize : Int := 64 / 2 * 2 ^ 22

def plausibleRequestSize (size : Int) : Bool :=
  decide (0 < size) && decide (size ≤ maxBatchBioSize) && decide (size % 512 = 0)

def bmSectToBit (sector : Nat) : Nat :=
  sector >>> 3

/-- The last sector of a range, cut at the end of the device. -/
def endSector (capacity sector : Nat) (size : Int) : Nat :=
  let esector := sector + (size / 512).toNat - 1
  if esector < capacity then esector else capacity - 1

/-- `__bsr_change_sync` for the peer with bitmap index `idx`. -/
def changeSync (d : SyncDevice) (idx sector : Nat) (size : Int) (mode : SyncMode) :
    Except Fault (BsrBitmap × Nat) :=
  if mode = .setOutOfSync ∧ size = 0 then .ok (d.bitmap, 0)
  else if !plausibleRequestSize size then .ok (d.bitmap, 0)
  else if !d.hasLdev then .ok (d.bitmap, 0)
  else if ¬ sector < d.capacity then .ok (d.bitmap, 0)
  else
    let esector := endSector d.capacity sector size
    let lbnr := bmSectToBit (d.capacity - 1)
    if mode = .setInSync then
      if esector < 7 then .ok (d.bitmap, 0)
      else
        let ebnr := if esector = d.capacity - 1 then lbnr else bmSectToBit (esector - 7)
        updateSyncBits d.bitmap idx (bmSectToBit (sector + 8 - 1)) ebnr mode
    else updateSyncBits d.bitmap idx (bmSectToBit sector) (bmSectToBit esector) mode

/-- The bits that `bsr_set_sync` works with. -/
structure SyncRange where
  setStart : Nat
  setEnd : Nat
  clearStart : Nat
  clearEnd : Nat
  skipClear : Bool

def syncRange (capacity sector : Nat) (size : Int) : SyncRange :=
  let esector := endSector capacity sector size
  let next := bmSectToBit (esector + 1)
  { setStart := bmSectToBit sector
    setEnd := bmSectToBit esector
    clearStart := bmSectToBit (sector + 8 - 1)
    clearEnd := if esector = capacity - 1 then bmSectToBit esector else if next = 0 then next else next - 1
    skipClear := decide (esector ≠ capacity - 1 ∧ next = 0) }

/-- The loop over the peer devices: the bitmap, the bits of the mask that are left and
`set_bits`. -/
def setSyncPeers (range : SyncRange) (bits : BitVec 64) :
    List (Option Nat) → BsrBitmap → BitVec 64 → BitVec 32 → Except Fault (BsrBitmap × BitVec 64 × BitVec 32)
  | [], b, mask, setBits => .ok (b, mask, setBits)
  | none :: peers, b, mask, setBits => setSyncPeers range bits peers b mask setBits
  | some idx :: peers, b, mask, setBits =>
    if mask.getLsbD idx then
      let mask := mask &&& ~~~ (1#64 <<< idx)
      if bits.getLsbD idx then
        match updateSyncBits b idx range.setStart range.setEnd .setOutOfSync with
        | .error f => .error f
        | .ok (b, count) =>
          setSyncPeers range bits peers b mask (if 0 < count then setBits ||| 1#32 <<< (idx % 32) else setBits)
      else if range.clearStart ≤ range.clearEnd ∧ !range.skipClear then
        match updateSyncBits b idx range.clearStart range.clearEnd .setInSync with
        | .error f => .error f
        | .ok (b, _) => setSyncPeers range bits peers b mask setBits
      else setSyncPeers range bits peers b mask setBits
    else setSyncPeers range bits peers b mask setBits

/-- The bits of the mask that belong to no peer device. -/
def setSyncRest (range : SyncRange) (bits mask : BitVec 64) : List Nat → BsrBitmap → Except Fault BsrBitmap
  | [], b => .ok b
  | idx :: rest, b =>
    if mask.getLsbD idx then
      if bits.getLsbD idx then
        match bmOp b idx range.setStart range.setEnd .set [] with
        | .error f => .error f
        | .ok r => setSyncRest range bits mask rest r.bitmap
      else if range.clearStart ≤ range.clearEnd ∧ !range.skipClear then
        match bmOp b idx range.clearStart range.clearEnd .clear [] with
        | .error f => .error f
        | .ok r => setSyncRest range bits mask rest r.bitmap
      else setSyncRest range bits mask rest b
    else setSyncRest range bits mask rest b

/-- `(1 << bm_max_peers) - 1` as an `int`; the processor takes the count of a shift modulo 32. -/
def peersMask (maxPeers : Nat) : BitVec 64 :=
  (1#32 <<< (maxPeers % 32) - 1#32).signExtend 64

def setSync (d : SyncDevice) (sector : Nat) (size : Int) (bits mask : BitVec 64) :
    Except Fault (BsrBitmap × BitVec 32) :=
  if size ≤ 0 ∨ size % 512 ≠ 0 then .ok (d.bitmap, 0)
  else if !d.hasLdev then .ok (d.bitmap, 0)
  else if ¬ sector < d.capacity then .ok (d.bitmap, 0)
  else
    let range := syncRange d.capacity sector size
    let mask := mask &&& peersMask d.bitmap.bmMaxPeers.val
    match setSyncPeers range bits d.peers d.bitmap mask 0 with
    | .error f => .error f
    | .ok (b, rest, setBits) => (setSyncRest range bits rest (List.range 64) b).map fun b => (b, setBits)

/-! ## Bits -/

/-- The bits of slot `idx` from `lo` to before `hi` became `v`, and nothing else changed. -/
structure Marked (v : Bool) (b b' : BsrBitmap) (idx lo hi : Nat) : Prop where
  shape : b.SameShape b'
  bits : ∀ slot < b.bmMaxPeers.val, ∀ i, b'.bit slot i =
    if slot = idx ∧ lo ≤ i ∧ i < hi ∧ i < b.bmBits then v else b.bit slot i

/-- The mode that sets bits, or clears them. -/
def markMode (v : Bool) : SyncMode :=
  if v then .setOutOfSync else .setInSync

section

variable {b b' b'' : BsrBitmap} {idx lo mid hi : Nat} {v : Bool}

theorem Marked.refl (b : BsrBitmap) (v : Bool) (idx : Nat) (h : hi ≤ lo) : Marked v b b idx lo hi := by
  refine ⟨.rfl, fun slot _ i => ?_⟩
  rw [if_neg (by omega)]

theorem Marked.trans (h : Marked v b b' idx lo mid) (h' : Marked v b' b'' idx mid hi)
    (hlo : lo ≤ mid) (hhi : mid ≤ hi) : Marked v b b'' idx lo hi := by
  refine ⟨h.shape.trans h'.shape, fun slot hslot i => ?_⟩
  rw [h'.bits slot (by rw [h.shape.maxPeers]; exact hslot) i, h.bits slot hslot i, h.shape.bits]
  by_cases hin : slot = idx ∧ lo ≤ i ∧ i < hi ∧ i < b.bmBits
  · rw [if_pos hin]
    split_ifs with hright hleft
    · rfl
    · rfl
    · exact absurd hin (by omega)
  · rw [if_neg hin, if_neg (by omega), if_neg (by omega)]

variable (hv : b.Valid) (hbits : 0 < b.bmBits) (hidx : idx < b.bmMaxPeers.val)

include hv hbits hidx

theorem bmOp_marked (v : Bool) (lo last : Nat) :
    ∃ r, bmOp b idx lo last (markMode v).op [] = .ok r ∧ Marked v b r.bitmap idx lo (last + 1) := by
  have hop : (markMode v).op = .set ∧ v = true ∨ (markMode v).op = .clear ∧ v = false := by
    cases v
    · exact .inr ⟨rfl, rfl⟩
    · exact .inl ⟨rfl, rfl⟩
  generalize (markMode v).op = op at hop ⊢
  have hplain : op ≠ .merge ∧ op ≠ .extract ∧ op ≠ .test ∧ op.isFind = false := by
    rcases hop with ⟨rfl, -⟩ | ⟨rfl, -⟩ <;> exact ⟨nofun, nofun, nofun, rfl⟩
  have hnew : ∀ old src, op.newBit old src = v := by
    rcases hop with ⟨rfl, rfl⟩ | ⟨rfl, rfl⟩ <;> intro _ _ <;> rfl
  obtain ⟨r, hrun, hdone⟩ := bmOpInner_done op lo last [] hv hbits hidx hplain.2.2.1 hplain.2.2.2
    (bufferOk_plain hplain.1 hplain.2.1)
  refine ⟨r, by rw [bmOp_eq hv hbits, hrun], hdone.shape, fun slot hslot i => ?_⟩
  rw [hdone.bits slot hslot i, hnew]
  by_cases hin : slot = idx ∧ lo ≤ i ∧ i < last + 1 ∧ i < b.bmBits
  · rw [if_pos hin, if_pos ⟨hin.1, hin.2.1, Nat.lt_min.2 hin.2.2⟩]
  · rw [if_neg hin, if_neg fun h => hin ⟨h.1, h.2.1, Nat.lt_min.1 h.2.2⟩]

theorem updateSyncLoop_marked (v : Bool) {fuel sbnr ebnr count : Nat} (hfuel : ebnr + 1 ≤ sbnr + fuel) :
    ∃ r, updateSyncLoop idx ebnr (markMode v) fuel b sbnr count = .ok r ∧
      Marked v b r.1 idx sbnr (ebnr + 1) := by
  induction fuel generalizing b sbnr count with
  | zero => exact ⟨(b, count), rfl, .refl b v idx (by omega)⟩
  | succ fuel ih =>
    unfold updateSyncLoop
    split_ifs with hle
    · have hmono : sbnr ≤ sbnr ||| 32767 := Nat.left_le_or
      generalize (sbnr ||| 32767) = last at hmono ⊢
      obtain ⟨r, hrun, hmark⟩ := bmOp_marked hv hbits hidx v sbnr (min ebnr last)
      have hshape := hmark.shape
      have hrest : ∃ r', updateSyncLoop idx ebnr (markMode v) fuel r.bitmap (min ebnr last + 1)
          (count + r.ret) = .ok r' ∧ Marked v r.bitmap r'.1 idx (min ebnr last + 1) (ebnr + 1) :=
        ih (hv.of_sameShape hshape) (by rw [hshape.bits]; exact hbits)
          (by rw [hshape.maxPeers]; exact hidx) (by omega)
      obtain ⟨r', hrun', hmark'⟩ := hrest
      refine ⟨r', ?_, hmark.trans hmark' (by omega) (by omega)⟩
      simp only [hrun]
      exact hrun'
    · exact ⟨(b, count), rfl, .refl b v idx (by omega)⟩

theorem updateSyncBits_marked (v : Bool) (sbnr ebnr : Nat) :
    ∃ r, updateSyncBits b idx sbnr ebnr (markMode v) = .ok r ∧ Marked v b r.1 idx sbnr (ebnr + 1) :=
  updateSyncLoop_marked hv hbits hidx v (by omega)

end

/-! ## Blocks -/

/-- The sectors of block `i`, cut at the end of the device. -/
def blockSectors (capacity i : Nat) : Set Nat :=
  Set.Ico (8 * i) (min (8 * i + 8) capacity)

/-- The sectors of a range. -/
def rangeSectors (sector : Nat) (size : Int) : Set Nat :=
  Set.Ico sector (sector + (size / 512).toNat)

/-- The blocks of the device that lie inside the range as a whole. -/
def wholeBlocks (capacity sector : Nat) (size : Int) : Set Nat :=
  { i | 8 * i < capacity ∧ blockSectors capacity i ⊆ rangeSectors sector size }

/-- The blocks that the range touches. -/
def touchedBlocks (capacity sector : Nat) (size : Int) : Set Nat :=
  { i | (blockSectors capacity i ∩ rangeSectors sector size).Nonempty }

theorem bmSectToBit_eq (x : Nat) : bmSectToBit x = x / 8 :=
  Nat.shiftRight_eq_div_pow x 3

section

variable {capacity sector : Nat} {size : Int}

theorem endSector_eq (hpos : 0 < (size / 512).toNat) (hin : sector + (size / 512).toNat ≤ capacity) :
    endSector capacity sector size = sector + (size / 512).toNat - 1 :=
  if_pos (by omega)

theorem mem_wholeBlocks {i : Nat} : i ∈ wholeBlocks capacity sector size ↔
    8 * i < capacity ∧ sector ≤ 8 * i ∧ min (8 * i + 8) capacity ≤ sector + (size / 512).toNat := by
  constructor
  · rintro ⟨hlt, hsub⟩
    exact ⟨hlt, (Set.Ico_subset_Ico_iff (by omega)).1 hsub⟩
  · rintro ⟨hlt, hsub⟩
    exact ⟨hlt, (Set.Ico_subset_Ico_iff (by omega)).2 hsub⟩

theorem mem_touchedBlocks (hpos : 0 < (size / 512).toNat) (hin : sector + (size / 512).toNat ≤ capacity) {i : Nat} :
    i ∈ touchedBlocks capacity sector size ↔ sector / 8 ≤ i ∧ i ≤ (sector + (size / 512).toNat - 1) / 8 := by
  unfold touchedBlocks blockSectors rangeSectors
  constructor
  · rintro ⟨x, ⟨_, _⟩, _, _⟩
    omega
  · intro h
    refine ⟨max sector (8 * i), ⟨?_, ?_⟩, ?_, ?_⟩ <;> omega

theorem sectors_pos (hsize : plausibleRequestSize size = true) : 0 < (size / 512).toNat := by
  unfold plausibleRequestSize at hsize
  simp only [Bool.and_eq_true, decide_eq_true_eq] at hsize
  omega

theorem syncRange_skipClear (h8 : 8 ≤ capacity) :
    (syncRange capacity sector size).skipClear = decide (endSector capacity sector size < 7) := by
  unfold syncRange
  simp only [bmSectToBit_eq, decide_eq_decide]
  omega

theorem syncRange_clearEnd (hge : ¬ endSector capacity sector size < 7) :
    (syncRange capacity sector size).clearEnd =
      if endSector capacity sector size = capacity - 1 then bmSectToBit (capacity - 1)
      else bmSectToBit (endSector capacity sector size - 7) := by
  unfold syncRange
  simp only [bmSectToBit_eq]
  split_ifs <;> omega

theorem updateSyncBits_empty {b : BsrBitmap} {idx sbnr ebnr : Nat} (mode : SyncMode)
    (h : ebnr < sbnr) : updateSyncBits b idx sbnr ebnr mode = .ok (b, 0) := by
  unfold updateSyncBits
  rw [Nat.sub_eq_zero_of_le h]
  rfl

end

/-- What `bsr_set_sync` does for a peer whose bit in `bits` is `v`. -/
def markRange (b : BsrBitmap) (idx : Nat) (range : SyncRange) (v : Bool) : Except Fault (BsrBitmap × Nat) :=
  if v then updateSyncBits b idx range.setStart range.setEnd .setOutOfSync
  else if range.clearStart ≤ range.clearEnd ∧ !range.skipClear then
    updateSyncBits b idx range.clearStart range.clearEnd .setInSync
  else .ok (b, 0)

section

variable {d : SyncDevice} {sector idx : Nat} {size : Int}

theorem changeSync_eq (h8 : 8 ≤ d.capacity) (hldev : d.hasLdev = true) (hsize : plausibleRequestSize size = true)
    (hin : sector + (size / 512).toNat ≤ d.capacity) (idx : Nat) (v : Bool) :
    changeSync d idx sector size (markMode v) = markRange d.bitmap idx (syncRange d.capacity sector size) v := by
  have hpos := sectors_pos hsize
  have hzero : size ≠ 0 := by
    omega
  have hlt : sector < d.capacity := by omega
  unfold changeSync
  rw [if_neg fun h => hzero h.2, hsize, hldev]
  rw [if_neg (not_not.2 hlt)]
  cases v with
  | true => rfl
  | false =>
    unfold markRange
    rw [syncRange_skipClear h8]
    change (if endSector d.capacity sector size < 7 then _ else _) = if _ ∧ _ then _ else _
    by_cases hsmall : endSector d.capacity sector size < 7
    · rw [if_pos hsmall, if_neg (by simp [hsmall])]
    rw [← syncRange_clearEnd hsmall]
    split_ifs with hle
    · rfl
    · exact updateSyncBits_empty _ (Nat.lt_of_not_le fun h => hle ⟨h, by simp [hsmall]⟩)

/-- The mask of one peer. -/
def onePeer (idx : Nat) : BitVec 64 :=
  1#64 <<< idx

theorem getLsbD_onePeer (hidx : idx < 64) (j : Nat) : (onePeer idx).getLsbD j = decide (idx = j) := by
  unfold onePeer
  rw [← BitVec.twoPow_eq]
  simp [hidx]

theorem onePeer_and_peersMask {maxPeers : Nat} (hidx : idx < maxPeers) (hmax : maxPeers < 32) :
    onePeer idx &&& peersMask maxPeers = onePeer idx := by
  have hall : ∀ m : Fin 32, ∀ i : Fin 32, i < m → onePeer i &&& peersMask m = onePeer i := by decide +kernel
  exact hall ⟨maxPeers, hmax⟩ ⟨idx, by omega⟩ hidx

variable (range : SyncRange)

theorem setSyncPeers_some (bits : BitVec 64) (j : Nat) (peers : List (Option Nat))
    (b : BsrBitmap) (mask : BitVec 64) (setBits : BitVec 32) :
    setSyncPeers range bits (some j :: peers) b mask setBits =
      if mask.getLsbD j then
        match markRange b j range (bits.getLsbD j) with
        | .error f => .error f
        | .ok (b', count) => setSyncPeers range bits peers b' (mask &&& ~~~ onePeer j)
          (if bits.getLsbD j ∧ 0 < count then setBits ||| 1#32 <<< (j % 32) else setBits)
      else setSyncPeers range bits peers b mask setBits := by
  rw [setSyncPeers]
  unfold markRange onePeer
  cases bits.getLsbD j
  · simp only [Bool.false_eq_true, if_false, false_and]
    split_ifs <;> rfl
  · simp only [if_true, true_and]

theorem setSyncPeers_zero (bits : BitVec 64) (peers : List (Option Nat)) (b : BsrBitmap)
    (setBits : BitVec 32) : setSyncPeers range bits peers b 0 setBits = .ok (b, 0, setBits) := by
  induction peers with
  | nil => rfl
  | cons p peers ih =>
    cases p with
    | none => exact ih
    | some j =>
      unfold setSyncPeers
      have hzero : (0 : BitVec 64).getLsbD j = false := BitVec.getLsbD_zero
      rw [hzero]
      exact ih

theorem setSyncPeers_onePeer {bits : BitVec 64} {peers : List (Option Nat)} (hidx : idx < 64)
    (hpeer : some idx ∈ peers) {b b' : BsrBitmap} {count : Nat}
    (hmark : markRange b idx range (bits.getLsbD idx) = .ok (b', count)) :
    ∃ setBits, setSyncPeers range bits peers b (onePeer idx) 0 = .ok (b', 0, setBits) := by
  induction peers with
  | nil => exact absurd hpeer List.not_mem_nil
  | cons p peers ih =>
    cases p with
    | none => exact ih (by simpa using hpeer)
    | some j =>
      rw [setSyncPeers_some, getLsbD_onePeer hidx]
      by_cases hj : idx = j
      · subst hj
        have hcleared : onePeer idx &&& ~~~ onePeer idx = 0 := BitVec.and_not_self _
        rw [if_pos (by simp), hmark, hcleared]
        exact ⟨_, setSyncPeers_zero ..⟩
      · rw [if_neg (by simpa using hj)]
        refine ih ?_
        rcases List.mem_cons.1 hpeer with heq | hpeer
        · exact absurd (Option.some.inj heq) hj
        · exact hpeer

theorem setSync_onePeer (hldev : d.hasLdev = true) (hsize : plausibleRequestSize size = true)
    (hlt : sector < d.capacity) (hidx : idx < d.bitmap.bmMaxPeers.val) (hmax : d.bitmap.bmMaxPeers.val < 32)
    (hpeer : some idx ∈ d.peers) {bits : BitVec 64} {b' : BsrBitmap} {count : Nat}
    (hmark : markRange d.bitmap idx (syncRange d.capacity sector size) (bits.getLsbD idx) = .ok (b', count)) :
    ∃ setBits, setSync d sector size bits (onePeer idx) = .ok (b', setBits) := by
  obtain ⟨setBits, hpeers⟩ := setSyncPeers_onePeer _ (by omega) hpeer hmark
  have hsize' : ¬ (size ≤ 0 ∨ size % 512 ≠ 0) := by
    unfold plausibleRequestSize at hsize
    simp only [Bool.and_eq_true, decide_eq_true_eq] at hsize
    omega
  unfold setSync
  rw [if_neg hsize', hldev]
  simp only
  rw [if_neg (not_not.2 hlt), onePeer_and_peersMask hidx hmax, hpeers]
  dsimp only
  exact ⟨setBits, rfl⟩

/-! ## Result -/

/-- The bits of a slot after a range was marked. -/
def marks (capacity sector : Nat) (size : Int) (v : Bool) (S : Set Nat) : Set Nat :=
  if v then S ∪ touchedBlocks capacity sector size else S \ wholeBlocks capacity sector size

theorem Marked.updatesSlot {b b' : BsrBitmap} {v : Bool} {lo hi : Nat} (h : Marked v b b' idx lo hi)
    (hidx : idx < b.bmMaxPeers.val) {new : Set Nat}
    (hnew : ∀ i, (if lo ≤ i ∧ i < hi ∧ i < b.bmBits then v = true else b.bit idx i = true) ↔ i ∈ new) :
    UpdatesSlot b b' idx new := by
  refine ⟨h.shape, ?_, fun slot hslot hne => ?_⟩
  · ext i
    rw [BsrBitmap.mem_slotSet, h.bits idx hidx i, ← hnew]
    simp
  · ext i
    rw [BsrBitmap.mem_slotSet, BsrBitmap.mem_slotSet, h.bits slot hslot i, if_neg fun hin => hne hin.1]

theorem markRange_spec (hv : d.bitmap.Valid) (hcap : d.bitmap.bmDevCapacity = d.capacity) (h8 : 8 ≤ d.capacity)
    (hidx : idx < d.bitmap.bmMaxPeers.val) (hsize : plausibleRequestSize size = true)
    (hin : sector + (size / 512).toNat ≤ d.capacity) (v : Bool) :
    ∃ b' count, markRange d.bitmap idx (syncRange d.capacity sector size) v = .ok (b', count) ∧
      UpdatesSlot d.bitmap b' idx (marks d.capacity sector size v (d.bitmap.slotSet idx)) := by
  have hpos := sectors_pos hsize
  have hbits : d.bitmap.bmBits = (d.capacity + 7) / 8 := by rw [hv.bits_eq, hcap]
  have hend := endSector_eq hpos hin
  cases v with
  | true =>
    obtain ⟨r, hrun, hmark⟩ := updateSyncBits_marked hv (by omega) hidx true
      (syncRange d.capacity sector size).setStart (syncRange d.capacity sector size).setEnd
    refine ⟨r.1, r.2, hrun, hmark.updatesSlot hidx fun i => ?_⟩
    have htouched := mem_touchedBlocks hpos hin (i := i)
    unfold syncRange marks
    simp only [bmSectToBit_eq, hend, if_true, Set.mem_union, htouched, hbits]
    split_ifs with hrange
    · simp only [true_iff]
      exact .inr (by omega)
    · exact (or_iff_left (by omega)).symm
  | false =>
    unfold markRange
    rw [syncRange_skipClear h8]
    by_cases hsmall : endSector d.capacity sector size < 7
    · -- the range ends before the first block does
      refine ⟨d.bitmap, 0, by simp [hsmall], (Marked.refl d.bitmap false idx (Nat.le_refl 0)).updatesSlot hidx ?_⟩
      intro i
      have hnone : i ∉ wholeBlocks d.capacity sector size := fun h => by
        have hmem := mem_wholeBlocks.1 h
        omega
      exact (and_iff_left hnone).symm
    · obtain ⟨r, hrun, hmark⟩ := updateSyncBits_marked hv (by omega) hidx false
        (syncRange d.capacity sector size).clearStart (syncRange d.capacity sector size).clearEnd
      refine ⟨r.1, r.2, ?_, hmark.updatesSlot hidx fun i => ?_⟩
      · rw [if_neg nofun]
        split_ifs with hle
        · exact hrun
        · rw [← hrun]
          exact (updateSyncBits_empty _ (Nat.lt_of_not_le fun h => hle ⟨h, by simp [hsmall]⟩)).symm
      have hwhole : i ∈ wholeBlocks d.capacity sector size ↔ _ := mem_wholeBlocks
      rw [syncRange_clearEnd hsmall]
      unfold syncRange marks
      simp only [bmSectToBit_eq, Bool.false_eq_true, if_false, Set.mem_sdiff, hwhole, hbits]
      split_ifs with hlast hrange hrange
      · simp only [false_iff]
        intro _
        omega
      · exact (and_iff_left (by omega)).symm
      · simp only [false_iff]
        intro _
        omega
      · exact (and_iff_left (by omega)).symm

/-- For a peer with a slot, both functions mark the same bits: in sync the bits of the blocks that
lie inside the range, out of sync those of the blocks that it touches. -/
theorem sync_marks_exact (hv : d.bitmap.Valid) (hcap : d.bitmap.bmDevCapacity = d.capacity) (h8 : 8 ≤ d.capacity)
    (hldev : d.hasLdev = true) (hpeer : some idx ∈ d.peers) (hidx : idx < d.bitmap.bmMaxPeers.val)
    (hmax : d.bitmap.bmMaxPeers.val < 32) (hsize : plausibleRequestSize size = true)
    (hin : sector + (size / 512).toNat ≤ d.capacity) :
    (∃ b' count setBits, changeSync d idx sector size .setInSync = .ok (b', count) ∧
      setSync d sector size 0 (onePeer idx) = .ok (b', setBits) ∧
        UpdatesSlot d.bitmap b' idx (d.bitmap.slotSet idx \ wholeBlocks d.capacity sector size)) ∧
      ∃ b' count setBits, changeSync d idx sector size .setOutOfSync = .ok (b', count) ∧
        setSync d sector size (onePeer idx) (onePeer idx) = .ok (b', setBits) ∧
          UpdatesSlot d.bitmap b' idx (d.bitmap.slotSet idx ∪ touchedBlocks d.capacity sector size) := by
  have hlt : sector < d.capacity := by
    have hpos := sectors_pos hsize
    omega
  constructor
  · obtain ⟨b', count, hmark, hslot⟩ := markRange_spec hv hcap h8 hidx hsize hin false
    have hbit : (0 : BitVec 64).getLsbD idx = false := BitVec.getLsbD_zero
    obtain ⟨setBits, hset⟩ := setSync_onePeer hldev hsize hlt hidx hmax hpeer (hbit ▸ hmark)
    exact ⟨b', count, setBits, (changeSync_eq h8 hldev hsize hin idx false).trans hmark, hset, hslot⟩
  · obtain ⟨b', count, hmark, hslot⟩ := markRange_spec hv hcap h8 hidx hsize hin true
    have hbit : (onePeer idx).getLsbD idx = true := by
      rw [getLsbD_onePeer (by omega)]
      exact decide_eq_true rfl
    obtain ⟨setBits, hset⟩ := setSync_onePeer hldev hsize hlt hidx hmax hpeer (hbit ▸ hmark)
    exact ⟨b', count, setBits, (changeSync_eq h8 hldev hsize hin idx true).trans hmark, hset, hslot⟩

end

/-- A device of 64 blocks with one of three slots in use. -/
def smallDevice : SyncDevice where
  capacity := 512
  bitmap := threePeers
  peers := [none, some 1]

/-- From the middle of block 0 to the middle of block 3. -/
theorem sync_marks_exact_small :
    ∃ b' count setBits, changeSync smallDevice 1 5 (24 * 512) .setInSync = .ok (b', count) ∧
      setSync smallDevice 5 (24 * 512) 0 (onePeer 1) = .ok (b', setBits) ∧
        UpdatesSlot smallDevice.bitmap b' 1
          (smallDevice.bitmap.slotSet 1 \ wholeBlocks smallDevice.capacity 5 (24 * 512)) :=
  (sync_marks_exact threePeers_valid rfl (by decide) rfl (by decide) (by decide)
    (by decide) (by decide) (by decide)).1

/-- A device of 256 MiB. -/
def largeDevice : SyncDevice where
  capacity := 2 ^ 19
  bitmap := ⟨.one, 65536, 2048, 2 ^ 19, [Page.zero, Page.zero], fun _ => 0⟩
  peers := [some 0]

/-- A device of one block with all slots. -/
def fullDevice : SyncDevice where
  capacity := 8
  bitmap := ⟨⟨32, by decide, by decide⟩, 1, 64, 8, [Page.zero], fun _ => 0⟩
  peers := [some 0]

/-- A range of more than 128 MiB is not marked by `__bsr_change_sync`; and with 32 slots
`bsr_set_sync` has no bit of the mask left. -/
theorem sync_marks_skipped :
    (largeDevice.bitmap.Valid ∧ changeSync largeDevice 0 0 (2 ^ 27 + 512) .setOutOfSync = .ok (largeDevice.bitmap, 0) ∧
        0 ∈ touchedBlocks largeDevice.capacity 0 (2 ^ 27 + 512) ∧ 0 ∉ largeDevice.bitmap.slotSet 0) ∧
      fullDevice.bitmap.Valid ∧ setSync fullDevice 0 4096 (onePeer 0) (onePeer 0) = .ok (fullDevice.bitmap, 0) ∧
        0 ∈ touchedBlocks fullDevice.capacity 0 4096 ∧ 0 ∉ fullDevice.bitmap.slotSet 0 := by
  refine ⟨⟨⟨rfl, rfl, rfl, by decide⟩, rfl, ?_, ?_⟩, ⟨rfl, rfl, rfl, by decide⟩, ?_, ?_, ?_⟩
  · exact (mem_touchedBlocks (by decide) (by decide)).2 (by decide)
  · rw [BsrBitmap.mem_slotSet]
    decide
  · rfl
  · exact (mem_touchedBlocks (by decide) (by decide)).2 (by decide)
  · rw [BsrBitmap.mem_slotSet]
    decide

end Bsr.Bitmap
