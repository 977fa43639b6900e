import Bsr.Bitmap.Sync
import Bsr.Resync.Pending
import Bsr.State.Enums

/-!
# Out-of-sync packets

`receive_out_of_sync` marks a range that a peer announces, and a resync target goes back to it.

* `goBack` adds the range to the list of pending sectors, which may need memory for an entry;
* `receive_out_of_sync_iff` says when the range is out of sync afterwards and the mutex is free.
-/

namespace Bsr.Resync

open Bitmap State

/-- What `receive_out_of_sync` uses of a peer device and its device. -/
structure PeerDevice where
  device : SyncDevice
  bitmapIndex : Nat
  replState : ReplState
  agreedProVersion : Nat
  waitForOutOfSync : Bool := false
  bmResyncFo : Nat
  sResyncBb : Nat
  pending : List PendingSectors
  startsResync : Bool := false
  setsTimer : Bool := false

/-- `struct p_block_desc`. -/
structure BlockDesc where
  sector : Nat
  blksize : BitVec 32

def BlockDesc.est (p : BlockDesc) : Nat :=
  (p.sector + p.blksize.toNat >>> 9) % 2 ^ 64

def idOutOfSyncFinished : Nat := 2 ^ 64 - 1

namespace PeerDevice

variable (pd : PeerDevice)

variable (p : BlockDesc)

/-- The case `L_SYNC_TARGET`; `none` where `list_add_resync_pending` has no memory. It gives back
its own mutex. -/
def goBack (allocOk : Bool) : Option PeerDevice :=
  let bit := bmSectToBit p.sector
  let back := bit < pd.bmResyncFo
  let adds := back ∧ 113 ≤ pd.agreedProVersion
  if adds ∧ resyncPendingCheckAndExpandDup p.sector p.est pd.pending matches none ∧ allocOk = false then none
  else some { pd with
    pending := if adds then listAddResyncPending pd.pending p.sector p.est else pd.pending
    bmResyncFo := if back then bit else pd.bmResyncFo
    sResyncBb := if 113 ≤ pd.agreedProVersion ∧ bit < pd.sResyncBb then bit else pd.sResyncBb }

/-- `receive_out_of_sync` for a peer device that was found: what it leaves, the error, and whether
it still holds `bm_resync_and_resync_timer_fo_mutex`. -/
def receiveOutOfSync (allocOk : Bool) : Except Fault (PeerDevice × Int × Bool) :=
  if 115 ≤ pd.agreedProVersion ∧ (pd.replState = .behind ∨ pd.replState = .established ∧ pd.waitForOutOfSync) ∧
      p.sector = idOutOfSyncFinished then
    .ok ({ pd with waitForOutOfSync := false, startsResync := true }, 0, false)
  else
    let resetTimer := pd.replState = .syncTarget ∧ pd.bmResyncFo = pd.device.bitmap.bmBits
    match if pd.replState = .syncTarget then pd.goBack p allocOk else some pd with
    | none => .ok (pd, -12, true)
    | some pd =>
      (changeSync pd.device pd.bitmapIndex p.sector p.blksize.toInt .setOutOfSync).map fun r =>
        ({ pd with device := { pd.device with bitmap := r.1 }, setsTimer := resetTimer }, 0, false)

/-- The blocks that the packet names are out of sync for the peer. A size of `2 ^ 31` bytes or more is
negative as an `int` and names none. -/
def OutOfSync : Prop :=
  touchedBlocks pd.device.capacity p.sector p.blksize.toInt ⊆ pd.device.bitmap.slotSet pd.bitmapIndex

/-- The list needs one more entry, and there is no memory for it. -/
def NoEntry (allocOk : Bool) : Prop :=
  pd.replState = .syncTarget ∧ bmSectToBit p.sector < pd.bmResyncFo ∧ 113 ≤ pd.agreedProVersion ∧
    resyncPendingCheckAndExpandDup p.sector p.est pd.pending = none ∧ allocOk = false

theorem goBack_spec (allocOk : Bool) :
    match if pd.replState = .syncTarget then pd.goBack p allocOk else some pd with
    | none => pd.NoEntry p allocOk
    | some pd' => ¬ pd.NoEntry p allocOk ∧ pd'.device = pd.device ∧ pd'.bitmapIndex = pd.bitmapIndex := by
  unfold NoEntry goBack
  cases resyncPendingCheckAndExpandDup p.sector p.est pd.pending <;> grind

end PeerDevice

/-- `bsr_set_out_of_sync` marks what the range touches, up to the end of the device. -/
theorem changeSync_outOfSync {d : SyncDevice} {idx sector : Nat} {size : Int} (hv : d.bitmap.Valid)
    (hcap : d.bitmap.bmDevCapacity = d.capacity) (hidx : idx < d.bitmap.bmMaxPeers.val) (hldev : d.hasLdev = true)
    (hsize : plausibleRequestSize size = true) : ∃ r, changeSync d idx sector size .setOutOfSync = .ok r ∧
      touchedBlocks d.capacity sector size ⊆ r.1.slotSet idx := by
  have hbits : d.bitmap.bmBits = (d.capacity + 7) / 8 := by rw [hv.bits_eq, hcap]
  have hpos := sectors_pos hsize
  have hzero : size ≠ 0 := by
    omega
  unfold changeSync
  rw [if_neg fun h => hzero h.2, hsize, hldev]
  by_cases hin : sector < d.capacity
  · obtain ⟨r, hrun, hmark⟩ := updateSyncBits_marked hv (by omega) hidx true (bmSectToBit sector)
      (bmSectToBit (endSector d.capacity sector size))
    refine ⟨r, (if_neg (not_not.2 hin)).trans hrun, ?_⟩
    rintro i ⟨x, ⟨_, _⟩, _, _⟩
    refine (hmark.bits idx hidx i).trans (if_pos ⟨rfl, ?_⟩)
    simp only [endSector, bmSectToBit_eq]
    split_ifs <;> omega
  · refine ⟨_, if_pos hin, ?_⟩
    rintro i ⟨x, ⟨_, _⟩, _, _⟩
    omega

/-- On every path the range ends up out of sync and the mutex is free, unless an entry for the list
cannot be allocated, or the range cannot be marked and was not out of sync before. -/
theorem receive_out_of_sync_iff {pd : PeerDevice} (hv : pd.device.bitmap.Valid)
    (hcap : pd.device.bitmap.bmDevCapacity = pd.device.capacity) (hsect : pd.device.capacity < 2 ^ 64)
    (hidx : pd.bitmapIndex < pd.device.bitmap.bmMaxPeers.val) (p : BlockDesc) (allocOk : Bool) :
    (∃ pd' err, pd.receiveOutOfSync p allocOk = .ok (pd', err, false) ∧ pd'.OutOfSync p) ↔
      ¬ pd.NoEntry p allocOk ∧
        (pd.device.hasLdev = true ∧ plausibleRequestSize p.blksize.toInt = true ∨ pd.OutOfSync p) := by
  unfold PeerDevice.receiveOutOfSync
  split
  · -- the last packet names no sector of the device
    rename_i hlast
    have hnone : pd.OutOfSync p := by
      rintro i ⟨x, ⟨_, _⟩, _, _⟩
      have hmax : p.sector = 2 ^ 64 - 1 := hlast.2.2
      omega
    refine iff_of_true ⟨_, _, rfl, hnone⟩ ⟨?_, .inr hnone⟩
    rintro ⟨htarget, -⟩
    simp [htarget] at hlast
  have hgo := pd.goBack_spec p allocOk
  dsimp only
  split
  · rename_i hnone
    rw [hnone] at hgo
    exact iff_of_false (by simp) fun h => h.1 hgo
  rename_i pd' hsome
  rw [hsome] at hgo
  obtain ⟨hentry, hdev, hindex⟩ := hgo
  rw [hdev, hindex, and_iff_right hentry]
  by_cases hmark : pd.device.hasLdev = true ∧ plausibleRequestSize p.blksize.toInt = true
  · obtain ⟨r, hrun, hset⟩ := changeSync_outOfSync hv hcap hidx hmark.1 hmark.2
    rw [hrun]
    exact iff_of_true ⟨_, _, rfl, hset⟩ (.inl hmark)
  · have hskip : changeSync pd.device pd.bitmapIndex p.sector p.blksize.toInt .setOutOfSync =
        .ok (pd.device.bitmap, 0) := by
      unfold changeSync
      grind
    rw [hskip, or_iff_right hmark]
    constructor
    · rintro ⟨_, _, hrun, hset⟩
      cases hrun
      exact hset
    · exact fun hset => ⟨_, _, rfl, hset⟩

/-- A resync target at block 5, with an empty list. -/
def resyncing : PeerDevice where
  device := smallDevice
  bitmapIndex := 1
  replState := .syncTarget
  agreedProVersion := 113
  bmResyncFo := 5
  sResyncBb := 0
  pending := []

/-- One block arrives in a resync and is marked. -/
theorem receive_out_of_sync_block :
    ∃ pd' err, resyncing.receiveOutOfSync ⟨0, 4096⟩ true = .ok (pd', err, false) ∧ pd'.OutOfSync ⟨0, 4096⟩ :=
  (receive_out_of_sync_iff threePeers_valid rfl (by decide) (by decide) _ _).2
    ⟨by simp [PeerDevice.NoEntry], .inl (by decide)⟩

/-- Without memory for the entry, the mutex stays held and the block in sync. -/
theorem receive_out_of_sync_forgets :
    resyncing.receiveOutOfSync ⟨0, 4096⟩ false = .ok (resyncing, -12, true) ∧ ¬ resyncing.OutOfSync ⟨0, 4096⟩ := by
  refine ⟨rfl, fun h => ?_⟩
  have hmem := h ((mem_touchedBlocks (by decide) (by decide)).2 (by decide) : 0 ∈ _)
  rw [BsrBitmap.mem_slotSet] at hmem
  revert hmem
  decide

end Bsr.Resync
