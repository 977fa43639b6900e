import Bsr.MetaData.Offsets

/-!
# The three regions of the metadata

`md_layout_agrees`: kernel and `bsrmeta` place superblock, activity log and bitmap at the same
sectors; on a device that has room for them they do not overlap each other or the data, and the
bitmap holds one bit per 4 KiB and slot of every size that `bsr_bm_resize` accepts.
-/

namespace Bsr.MetaData

open Bitmap

/-! ## Arithmetic -/

theorem toS32_of_mem {x : Int} (h : -2 ^ 31 ≤ x ∧ x < 2 ^ 31) : toS32 x = x := by
  apply Int.bmod_eq_of_le <;> norm_num <;> omega

theorem toU32_of_lt {x : Int} (h : 0 ≤ x ∧ x < 2 ^ 32) : (toU32 x : Int) = x := by
  unfold toU32
  omega

theorem toU64_of_lt {x : Int} (h : 0 ≤ x ∧ x < 2 ^ 64) : (toU64 x : Int) = x := by
  unfold toU64
  omega

theorem le_align {x a : Nat} (ha : 0 < a) : x ≤ align x a := by
  unfold align
  have hdiv := Nat.div_add_mod (x + (a - 1)) a
  have hmod := Nat.mod_lt (x + (a - 1)) ha
  rw [Nat.mul_comm]
  omega

theorem align_mono {x y a : Nat} (h : x ≤ y) : align x a ≤ align y a :=
  Nat.mul_le_mul_right _ (Nat.div_le_div_right (Nat.add_le_add_right h _))

theorem align_mod (x a : Nat) : align x a % a = 0 :=
  Nat.mul_mod_left _ _

/-- The bits of one slot for a device, rounded up to 64-bit words. -/
def slotBits (capacitySect : Nat) : Nat :=
  align (align capacitySect 8 / 8) 64

theorem slotBits_mono {s t : Nat} (h : s ≤ t) : slotBits s ≤ slotBits t :=
  align_mono (Nat.div_le_div_right (align_mono h))

theorem bsrCapacityToOnDiskBmSect_eq (s n : Nat) :
    512 * bsrCapacityToOnDiskBmSect s n = align (slotBits s / 8 * n) 4096 := by
  have hmod := align_mod (slotBits s / 8 * n) 4096
  show 512 * (align (slotBits s / 8 * n) 4096 / 512) = _
  omega

theorem bsrCapacityToOnDiskBmSect_mod (s n : Nat) : bsrCapacityToOnDiskBmSect s n % 8 = 0 := by
  have hmod := align_mod (slotBits s / 8 * n) 4096
  have heq := bsrCapacityToOnDiskBmSect_eq s n
  omega

theorem slotBits_le_onDisk (s n : Nat) : slotBits s / 8 * n ≤ 512 * bsrCapacityToOnDiskBmSect s n := by
  rw [bsrCapacityToOnDiskBmSect_eq]
  exact le_align (by decide)

theorem le_onDiskBits_iff {bits sect n : Nat} (hn : 0 < n) :
    bits ≤ sect * 64 / n * 64 ↔ align bits 64 / 8 * n ≤ 512 * sect := by
  have hbytes : align bits 64 / 8 = (bits + 63) / 64 * 8 := by
    unfold align
    omega
  have hwords : bits ≤ sect * 64 / n * 64 ↔ (bits + 63) / 64 ≤ sect * 64 / n := by omega
  rw [hwords, Nat.le_div_iff_mul_le hn, hbytes, Nat.mul_right_comm]
  omega

/-! ## The activity log -/

/-- Both sides compute the size of the activity log from the stripes, and get the same. -/
theorem alSizeSect_eq {alStripes alStripeSize4k alSize4k : Nat} (hset : 0 < alStripes)
    (hcheck : checkActivityLogStripeSize alStripes alStripeSize4k = some alSize4k) :
    8 ≤ alSize4k ∧ alSize4k ≤ 2 ^ 22 ∧
      toS32 (alStripes * alStripeSize4k * 8) = (alSize4k : Int) * 8 := by
  have hnot : ¬ (alStripes = 0 ∧ alStripeSize4k = 0) := by omega
  unfold checkActivityLogStripeSize at hcheck
  simp only [if_neg hnot] at hcheck
  generalize hprod : alStripes * alStripeSize4k = prod at hcheck
  split_ifs at hcheck with h1 h2 h3
  cases hcheck
  refine ⟨by omega, by omega, ?_⟩
  have hcast : (alStripes : Int) * alStripeSize4k = prod := by
    omega
  rw [hcast]
  unfold toS32
  have hmod : ((prod : Int) * 8) % (2 ^ 32 : Nat) = (prod % 2 ^ 32 : Nat) * 8 % (2 ^ 32 : Nat) := by
    omega
  rw [← Int.emod_bmod, hmod, Int.emod_bmod]
  apply Int.bmod_eq_of_le <;> norm_num <;> omega

/-! ## Regions -/

namespace Md

/-- The superblock, in sectors of the metadata device. -/
def superblock (md : Md) : Set Int :=
  Set.Ico md.mdOffset (md.mdOffset + 8)

def activityLog (md : Md) (alSize4k : Nat) : Set Int :=
  Set.Ico (md.mdOffset + md.alOffset) (md.mdOffset + md.alOffset + 8 * alSize4k)

/-- The sectors that are left for the bitmap. -/
def bitmapSectors (md : Md) : Int :=
  if md.alOffset = 8 then md.mdSizeSect - md.bmOffset else md.alOffset - md.bmOffset

def bitmap (md : Md) : Set Int :=
  Set.Ico (md.mdOffset + md.bmOffset) (md.mdOffset + md.bmOffset + md.bitmapSectors)

/-- The metadata device has room for the layout: what `check_offsets_and_sizes` asks of internal
metadata; external metadata takes the whole device, which has to hold the activity log. -/
def Room (md : Md) (mdCapacity : Nat) : Prop :=
  match md.metaDevIdx with
  | .internal | .flexInt => md.mdSizeSect ≤ mdCapacity
  | .flexExt | .index _ => md.bmOffset ≤ md.mdSizeSect

end Md

/-- `bsrmeta` and the kernel agree; its byte offsets are taken modulo `2 ^ 64`. -/
structure SameLayout (cfg : Format) (md : Md) : Prop where
  superblock : cfg.mdOffset = toU64 (512 * md.mdOffset)
  activityLog : cfg.md.alOffset = md.alOffset ∧ cfg.alOffset = toU64 (512 * (md.mdOffset + md.alOffset))
  bitmap : cfg.md.bmOffset = md.bmOffset ∧ cfg.bmOffset = toU64 (512 * (md.mdOffset + md.bmOffset))
  size : cfg.md.mdSizeSect = md.mdSizeSect

/-- The regions are apart, on the device, and clear of the data if that is on the same device. -/
structure Separate (md : Md) (alSize4k backingCapacity mdCapacity : Nat) : Prop where
  superblock_activityLog : Disjoint md.superblock (md.activityLog alSize4k)
  superblock_bitmap : Disjoint md.superblock md.bitmap
  activityLog_bitmap : Disjoint (md.activityLog alSize4k) md.bitmap
  inside : md.superblock ∪ md.activityLog alSize4k ∪ md.bitmap ⊆ Set.Ico 0 (mdCapacity : Int)
  data : md.metaDevIdx = .flexInt →
    Disjoint (Set.Ico 0 (bsrGetMaxCapacity md backingCapacity : Int))
      (md.superblock ∪ md.activityLog alSize4k ∪ md.bitmap)

/-! ## bsrmeta in closed form -/

theorem bmBytes_eq {md : MdCpu} {sectors bytes : Nat} (hbits : md.bmBytesPerBit = 4096)
    (hrun : bmBytes md sectors = .ok bytes) :
    sectors ≤ 2 ^ 41 ∧ bytes = 512 * bsrCapacityToOnDiskBmSect sectors md.maxPeers := by
  unfold bmBytes at hrun
  rw [hbits] at hrun
  split_ifs at hrun with h1 h2 h3
  refine ⟨by omega, ?_⟩
  rw [← Except.ok.inj hrun, bsrCapacityToOnDiskBmSect_eq, slotBits]
  have hceil : (sectors + 4096 / 512 - 1) / (4096 / 512) = align sectors 8 / 8 := by
    unfold align
    omega
  rw [hceil]

/-- `re_initialize_md_offsets` on a format whose slots and block size are set. -/
theorem reInitializeMdOffsets_eq {cfg cfg' : Format} (hpeers : 0 < cfg.md.maxPeers)
    (hbits : 0 < cfg.md.bmBytesPerBit) (hrun : reInitializeMdOffsets cfg = .ok cfg') :
    mdOffsetsOf cfg.mdIndex cfg.bdSize cfg.md = .ok cfg'.md ∧ cfg'.mdIndex = cfg.mdIndex ∧
      cfg'.mdOffset = cfg.mdOffset ∧
      cfg'.alOffset = toU64 (cfg.mdOffset + cfg'.md.alOffset * 512) ∧
      cfg'.bmOffset = toU64 (cfg.mdOffset + cfg'.md.bmOffset * 512) ∧
      maxUsableSectors cfg' = .ok cfg'.maxUsableSect := by
  obtain ⟨_, bdSize, ⟨o, _, _, _, _⟩, mdOffset, _, _, _⟩ := cfg
  dsimp only at hpeers hbits ⊢
  unfold reInitializeMdOffsets at hrun
  dsimp only at hrun
  rw [if_neg (by omega), if_neg (by omega)] at hrun
  split at hrun
  · cases hrun
  rename_i md hmd
  split at hrun
  · cases hrun
  rename_i n hn
  cases hrun
  exact ⟨hmd, rfl, rfl, rfl, rfl, hn⟩

/-- The layout of internal metadata with `y` sectors of bitmap. -/
structure InternalAt (md : MdOffsets) (alSize4k y : Nat) : Prop where
  alOffset : md.alOffset = -(8 * alSize4k)
  bmOffset : md.bmOffset = -(y + 8 * alSize4k)
  mdSizeSect : md.mdSizeSect = y + 8 + 8 * alSize4k

/-- The layout of external metadata on a device of `n` sectors. -/
structure ExternalAt (md : MdOffsets) (alSize4k n : Nat) : Prop where
  alOffset : md.alOffset = 8
  bmOffset : md.bmOffset = 8 + 8 * alSize4k
  mdSizeSect : md.mdSizeSect = (n % 2 ^ 32 : Nat)

section

variable {md md' : MdCpu} {alSize4k bdSize : Nat} (hal : 8 ≤ alSize4k ∧ alSize4k ≤ 2 ^ 22 ∧
    toS32 (md.alStripes * md.alStripeSize4k * 8) = (alSize4k : Int) * 8)

include hal

theorem mdOffsetsOf_flexInt (hbits : md.bmBytesPerBit = 4096) (hrun : mdOffsetsOf .flexInt bdSize md = .ok md') :
    InternalAt md'.toMdOffsets alSize4k (bsrCapacityToOnDiskBmSect (bdSize / 512) md.maxPeers) ∧
      bsrCapacityToOnDiskBmSect (bdSize / 512) md.maxPeers ≤ 2 ^ 26 := by
  unfold mdOffsetsOf at hrun
  rw [hal.2.2] at hrun
  dsimp only at hrun
  split at hrun
  · cases hrun
  rename_i bytes hbytes
  have hbytes := (bmBytes_eq hbits hbytes).2
  have hmod := bsrCapacityToOnDiskBmSect_mod (bdSize / 512) md.maxPeers
  generalize bsrCapacityToOnDiskBmSect (bdSize / 512) md.maxPeers = y at hbytes hmod ⊢
  have halign : align (bytes / 512) 8 = y := by
    unfold align
    omega
  rw [halign] at hrun
  split_ifs at hrun with hlarge
  cases hrun
  have hy : y ≤ 2 ^ 26 := by omega
  have hsize : (toU64 (y + (8 + alSize4k * 8)) : Int) = y + (8 + alSize4k * 8) :=
    toU64_of_lt (by omega)
  refine ⟨⟨?_, ?_, ?_⟩, hy⟩
  · dsimp only
    rw [toS32_of_mem (by omega)]
    ring
  · dsimp only
    rw [hsize, toS32_of_mem (by omega)]
    ring
  · dsimp only
    rw [hsize, toU32_of_lt (by omega)]
    ring

theorem mdOffsetsOf_flexExt (hrun : mdOffsetsOf .flexExt bdSize md = .ok md') :
    ExternalAt md'.toMdOffsets alSize4k (bdSize / 512) ∧ md'.bmBytesPerBit = md.bmBytesPerBit ∧
      md'.maxPeers = md.maxPeers := by
  unfold mdOffsetsOf at hrun
  rw [hal.2.2] at hrun
  cases hrun
  refine ⟨⟨rfl, ?_, ?_⟩, rfl, rfl⟩
  · dsimp only
    rw [toS32_of_mem (by omega)]
    ring
  · rfl

end

/-! ## The kernel in closed form -/

section

variable {alSize4k backing mdCapacity : Nat} {slots : PeerSlots}

theorem bsrMdSetSectorOffsets_flexInt (hal : alSize4k ≤ 2 ^ 22)
    (hy : bsrCapacityToOnDiskBmSect backing slots.val ≤ 2 ^ 26) :
    InternalAt (bsrMdSetSectorOffsets .flexInt alSize4k (some slots.val) backing
      mdCapacity).toMdOffsets alSize4k (bsrCapacityToOnDiskBmSect backing slots.val) := by
  unfold bsrMdSetSectorOffsets
  dsimp only [Option.getD_some]
  generalize bsrCapacityToOnDiskBmSect backing slots.val = y at hy ⊢
  rw [Nat.mod_eq_of_lt (show alSize4k * 8 < 2 ^ 32 by omega)]
  refine ⟨?_, ?_, ?_⟩
  · dsimp only
    rw [toS32_of_mem (by omega)]
    omega
  · dsimp only
    rw [toS32_of_mem (x := -((y + 8 + alSize4k * 8 : Nat) : Int)) (by omega),
      toS32_of_mem (by omega)]
    omega
  · dsimp only
    rw [toU32_of_lt (by omega)]
    omega

theorem bsrMdSetSectorOffsets_flexExt (hal : alSize4k ≤ 2 ^ 22) :
    ExternalAt (bsrMdSetSectorOffsets .flexExt alSize4k (some slots.val) backing
      mdCapacity).toMdOffsets alSize4k mdCapacity := by
  unfold bsrMdSetSectorOffsets
  refine ⟨rfl, ?_, ?_⟩
  · dsimp only
    rw [toS32_of_mem (by omega)]
    omega
  · rfl

end

/-! ## Placement -/

section

variable {md : Md} {alSize4k y n : Nat}

theorem InternalAt.bitmapSectors_eq (h : InternalAt md.toMdOffsets alSize4k y) : md.bitmapSectors = y := by
  have hal := h.alOffset
  have hbm := h.bmOffset
  rw [Md.bitmapSectors]
  omega

theorem InternalAt.separate (h : InternalAt md.toMdOffsets alSize4k y) (hidx : md.metaDevIdx = .flexInt)
    (hoff : md.mdOffset = toU64 (n / 8 * 8 - 8)) (hy : y % 8 = 0) (hn : n < 2 ^ 55)
    (hroom : md.Room n) : Separate md alSize4k n n ∧ (bsrMdFirstSector md : Int) = md.mdOffset + md.bmOffset ∧
      (md.mdOffset : Int) = n / 8 * 8 - 8 ∧ 0 ≤ md.mdOffset + md.bmOffset := by
  have hsect := h.bitmapSectors_eq
  obtain ⟨hal, hbm, hsize⟩ := h
  simp only [Md.Room, hidx] at hroom
  have hoff : (md.mdOffset : Int) = n / 8 * 8 - 8 := by
    rw [hoff, toU64_of_lt (by omega)]
  have hfirst : (bsrMdFirstSector md : Int) = md.mdOffset + md.bmOffset := by
    simp only [bsrMdFirstSector, hidx]
    exact toU64_of_lt (by omega)
  have hcap : (bsrGetMaxCapacity md n : Int) ≤ md.mdOffset + md.bmOffset := by
    simp only [bsrGetMaxCapacity, hidx]
    split_ifs <;> omega
  refine ⟨⟨?_, ?_, ?_, ?_, fun _ => ?_⟩, hfirst, hoff, by omega⟩
  iterate 3
    · exact Set.Ico_disjoint_Ico.2 (by omega)
  · rintro x ((⟨hx1, hx2⟩ | ⟨hx1, hx2⟩) | ⟨hx1, hx2⟩) <;> constructor <;> omega
  · rw [Set.disjoint_left]
    rintro x ⟨hx1, hx2⟩ ((⟨hx3, hx4⟩ | ⟨hx3, hx4⟩) | ⟨hx3, hx4⟩) <;> omega

theorem ExternalAt.bitmapSectors_eq (h : ExternalAt md.toMdOffsets alSize4k n) :
    md.bitmapSectors = md.mdSizeSect - md.bmOffset := by
  rw [Md.bitmapSectors, if_pos h.alOffset]

theorem ExternalAt.separate (h : ExternalAt md.toMdOffsets alSize4k n) (hidx : md.metaDevIdx = .flexExt)
    (hoff : md.mdOffset = 0) (backing : Nat) (hroom : md.Room n) : Separate md alSize4k backing n := by
  have hsect := h.bitmapSectors_eq
  obtain ⟨hal, hbm, hsize⟩ := h
  simp only [Md.Room, hidx] at hroom
  refine ⟨?_, ?_, ?_, ?_, fun hint => ?_⟩
  iterate 3
    · exact Set.Ico_disjoint_Ico.2 (by omega)
  · rintro x ((⟨hx1, hx2⟩ | ⟨hx1, hx2⟩) | ⟨hx1, hx2⟩) <;> constructor <;> omega
  · rw [hidx] at hint
    cases hint

/-! ## The size of the bitmap -/

theorem bsrMdOnDiskBits_eq (slots : PeerSlots) {sect : Nat} (hsect : md.bitmapSectors = sect)
    (hlt : sect < 2 ^ 32) : bsrMdOnDiskBits slots md.toMdOffsets = sect * 64 / slots.val * 64 := by
  have hle : sect * 64 / slots.val ≤ sect * 64 := Nat.div_le_self _ _
  unfold bsrMdOnDiskBits
  unfold Md.bitmapSectors at hsect
  have hcast : (((if md.alOffset = 8 then (md.mdSizeSect - md.bmOffset) % 2 ^ 32
      else md.alOffset - md.bmOffset : Int)) % 2 ^ 64).toNat = sect := by
    split_ifs at hsect ⊢ <;> omega
  dsimp only
  rw [hcast, Nat.mod_eq_of_lt (show sect * 64 < 2 ^ 64 by omega), Nat.mod_eq_of_lt (by omega)]

theorem resize_fits {slots : PeerSlots} {sect : Nat} (hsect : md.bitmapSectors = sect)
    (hlt : sect < 2 ^ 32) {b b' : BsrBitmap} {capacity : Nat} {setNewBits allocOk : Bool}
    (hslots : b.bmMaxPeers = slots) (hnew : capacity ≠ b.bmDevCapacity)
    (hrun : bsrBmResize b capacity setNewBits (some md.toMdOffsets) allocOk = .ok (b', none)) :
    (slotBits capacity / 8 * slots.val : Nat) ≤ 512 * md.bitmapSectors := by
  have hbits : (capacity + 7) / 8 * 8 / 8 ≤ bsrMdOnDiskBits slots md.toMdOffsets := by
    unfold bsrBmResize at hrun
    rw [if_neg hnew] at hrun
    by_cases hzero : capacity = 0
    · omega
    rw [if_neg hzero] at hrun
    by_contra hspace
    rw [if_pos (by simpa [hslots] using hspace)] at hrun
    cases hrun
  rw [bsrMdOnDiskBits_eq slots hsect hlt, le_onDiskBits_iff slots.pos] at hbits
  rw [hsect]
  exact_mod_cast hbits

end

/-! ## Both sides together -/

/-- The offsets as `bsrmeta` has them agree as soon as the relative ones and the superblock do. -/
theorem SameLayout.of_offsets {cfg : Format} {md : Md} (hsb : cfg.mdOffset = toU64 (512 * md.mdOffset))
    (hal : cfg.md.alOffset = md.alOffset) (hbm : cfg.md.bmOffset = md.bmOffset)
    (hsize : cfg.md.mdSizeSect = md.mdSizeSect)
    (hcal : cfg.alOffset = toU64 (cfg.mdOffset + cfg.md.alOffset * 512))
    (hcbm : cfg.bmOffset = toU64 (cfg.mdOffset + cfg.md.bmOffset * 512)) : SameLayout cfg md := by
  refine ⟨hsb, ⟨hal, ?_⟩, ⟨hbm, ?_⟩, hsize⟩
  · rw [hcal, hsb]
    unfold toU64
    omega
  · rw [hcbm, hsb]
    unfold toU64
    omega

theorem v07StyleMdGetByteOffset_flexInt {bdSize : Nat} (hlt : bdSize < 2 ^ 64) :
    v07StyleMdGetByteOffset .flexInt bdSize = toU64 (512 * bsrMdSs .flexInt (bdSize / 512)) := by
  simp only [v07StyleMdGetByteOffset, bsrMdSs, toU64]
  omega

/-- What a layout with room is good for. -/
structure Sound (cfg : Format) (md : Md) (slots : PeerSlots) (alSize4k backing mdCapacity : Nat) :
    Prop where
  separate : Separate md alSize4k backing mdCapacity
  /-- Internal metadata begins where the data ends. -/
  usable : cfg.mdIndex = .flexInt → cfg.maxUsableSect = bsrMdFirstSector md
  /-- The bitmap region holds every size that `bsr_bm_resize` accepts. -/
  fits : ∀ b b' capacity setNewBits allocOk, b.bmMaxPeers = slots → capacity ≠ b.bmDevCapacity →
    bsrBmResize b capacity setNewBits (some md.toMdOffsets) allocOk = .ok (b', none) →
    (slotBits capacity / 8 * slots.val : Nat) ≤ 512 * md.bitmapSectors
  /-- It accepts every size up to what `bsrmeta` finds usable. -/
  accepts : ∀ size ≤ cfg.maxUsableSect, align size 8 / 8 ≤ bsrMdOnDiskBits slots md.toMdOffsets

section

variable {cfg : Format} {md : Md} {slots : PeerSlots} {alSize4k : Nat}

/-- The superblock, the activity log and the bitmap are where the data ends; the bitmap region was
sized for the whole device. -/
theorem sound_flexInt {n : Nat} (hidx : cfg.mdIndex = .flexInt) (hmdidx : md.metaDevIdx = .flexInt)
    (hn : n < 2 ^ 55) (hss : md.mdOffset = bsrMdSs .flexInt n) (hsame : SameLayout cfg md)
    (h : InternalAt md.toMdOffsets alSize4k (bsrCapacityToOnDiskBmSect n slots.val))
    (hy : bsrCapacityToOnDiskBmSect n slots.val ≤ 2 ^ 26)
    (husable : maxUsableSectors cfg = .ok cfg.maxUsableSect) (hroom : md.Room n) :
    Sound cfg md slots alSize4k n n := by
  obtain ⟨hsep, _, _, _⟩ :=
    h.separate hmdidx hss (bsrCapacityToOnDiskBmSect_mod n slots.val) hn hroom
  have hsect := h.bitmapSectors_eq
  obtain ⟨hal, hbm, -⟩ := h
  have hmax : cfg.maxUsableSect = bsrMdFirstSector md := by
    rw [maxUsableSectors, hidx] at husable
    have hmin := Except.ok.inj husable
    rw [hsame.superblock, hsame.activityLog.2, hsame.bitmap.2] at hmin
    have h1 := toU64_of_lt (x := 512 * md.mdOffset) (by omega)
    have h2 := toU64_of_lt (x := 512 * (md.mdOffset + md.alOffset)) (by omega)
    have h3 := toU64_of_lt (x := 512 * (md.mdOffset + md.bmOffset)) (by omega)
    omega
  refine ⟨hsep, fun _ => hmax, ?_, fun size hle => ?_⟩
  · intro b _ _ _ _ hb hnew hresize
    exact resize_fits hsect (by omega) hb hnew hresize
  have hcap : size ≤ n := by omega
  rw [bsrMdOnDiskBits_eq slots hsect (by omega), le_onDiskBits_iff slots.pos]
  exact Nat.le_trans (Nat.mul_le_mul_right _ (Nat.div_le_div_right (slotBits_mono hcap)))
    (slotBits_le_onDisk _ _)

theorem sound_flexExt {n backing : Nat} (hidx : cfg.mdIndex = .flexExt) (hmdidx : md.metaDevIdx = .flexExt)
    (hss : md.mdOffset = 0) (hsame : SameLayout cfg md) (hbits : cfg.md.bmBytesPerBit = 4096)
    (hpeers : cfg.md.maxPeers = slots.val) (h : ExternalAt md.toMdOffsets alSize4k n)
    (husable : maxUsableSectors cfg = .ok cfg.maxUsableSect) (hroom : md.Room n) :
    Sound cfg md slots alSize4k backing n := by
  have hsep := h.separate hmdidx hss backing hroom
  have hsect := h.bitmapSectors_eq
  obtain ⟨-, hbm, hsize⟩ := h
  simp only [Md.Room, hmdidx] at hroom
  have hu32 := toU32_of_lt (x := md.mdSizeSect - md.bmOffset) (by omega)
  rw [← hu32] at hsect
  have hlt : toU32 (md.mdSizeSect - md.bmOffset) < 2 ^ 32 := by omega
  refine ⟨hsep, fun hint => ?_, ?_, fun size hle => ?_⟩
  · rw [hidx] at hint
    cases hint
  · intro b _ _ _ _ hb hnew hresize
    exact resize_fits hsect hlt hb hnew hresize
  · rw [maxUsableSectors, hidx] at husable
    rw [hbits, hpeers, hsame.size, hsame.bitmap.1] at husable
    have hmax := Except.ok.inj husable
    rw [bsrMdOnDiskBits_eq slots hsect hlt]
    generalize toU32 (md.mdSizeSect - md.bmOffset) = sect at hmax
    rw [show sect * 512 * 8 / 64 = sect * 64 by omega] at hmax
    unfold align
    omega

end

/-- For every device `bsrmeta` computes a layout for, the kernel computes the same, and if the
device has room for it the layout is sound. -/
theorem md_layout_agrees (cfg cfg' : Format) (slots : PeerSlots) (alSize4k backing : Nat) (md : Md)
    (hstyle : cfg.mdIndex = .flexInt ∧ backing = cfg.bdSize / 512 ∨ cfg.mdIndex = .flexExt)
    (hdev : cfg.bdSize < 2 ^ 64) (hpeers : cfg.md.maxPeers = slots.val)
    (hbits : cfg.md.bmBytesPerBit = 4096) (hset : 0 < cfg.md.alStripes)
    (hstripes : checkActivityLogStripeSize cfg.md.alStripes cfg.md.alStripeSize4k = some alSize4k)
    (hopen : cfg.mdOffset = v07StyleMdGetByteOffset cfg.mdIndex cfg.bdSize)
    (hrun : reInitializeMdOffsets cfg = .ok cfg')
    (hmd : md = bsrMdSetSectorOffsets cfg.mdIndex alSize4k (some slots.val) backing (cfg.bdSize / 512)) :
    SameLayout cfg' md ∧
      (md.Room (cfg.bdSize / 512) → Sound cfg' md slots alSize4k backing (cfg.bdSize / 512)) := by
  have hslots := slots.pos
  have hal := alSizeSect_eq hset hstripes
  obtain ⟨hoffsets, hidx', hoff', hal', hbm', husable⟩ :=
    reInitializeMdOffsets_eq (by omega) (by omega) hrun
  rw [← hoff'] at hal' hbm'
  rcases hstyle with ⟨hidx, rfl⟩ | hidx
  · rw [hidx] at hoffsets hopen hmd hidx'
    obtain ⟨hmeta, hy⟩ := mdOffsetsOf_flexInt hal hbits hoffsets
    rw [hpeers] at hmeta hy
    have hkernel := @bsrMdSetSectorOffsets_flexInt _ _ (cfg.bdSize / 512) slots hal.2.1 hy
    rw [← hmd] at hkernel
    have hss : md.mdOffset = bsrMdSs .flexInt (cfg.bdSize / 512) := by rw [hmd]; rfl
    have hsame : SameLayout cfg' md := by
      refine SameLayout.of_offsets ?_ (hmeta.alOffset.trans hkernel.alOffset.symm)
        (hmeta.bmOffset.trans hkernel.bmOffset.symm) (hmeta.mdSizeSect.trans hkernel.mdSizeSect.symm)
        hal' hbm'
      rw [hoff', hopen, v07StyleMdGetByteOffset_flexInt hdev, hss]
    exact ⟨hsame, sound_flexInt hidx' (by rw [hmd]; rfl) (by omega) hss hsame hkernel hy husable⟩
  · rw [hidx] at hoffsets hopen hmd hidx'
    obtain ⟨hmeta, hbits', hpeers'⟩ := mdOffsetsOf_flexExt hal hoffsets
    have hkernel := @bsrMdSetSectorOffsets_flexExt _ backing (cfg.bdSize / 512) slots hal.2.1
    rw [← hmd] at hkernel
    have hss : md.mdOffset = 0 := by rw [hmd]; rfl
    have hsame : SameLayout cfg' md := by
      refine SameLayout.of_offsets ?_ (hmeta.alOffset.trans hkernel.alOffset.symm)
        (hmeta.bmOffset.trans hkernel.bmOffset.symm) (hmeta.mdSizeSect.trans hkernel.mdSizeSect.symm)
        hal' hbm'
      rw [hoff', hopen, hss]
      rfl
    exact ⟨hsame, sound_flexExt hidx' (by rw [hmd]; rfl) hss hsame (hbits'.trans hbits)
      (hpeers'.trans hpeers) hkernel husable⟩

/-- A device of `bdSize` bytes with `stripeSize4k` blocks of activity log, before `bsrmeta` computes
its layout. -/
def blankFormat (idx : MetaDevIdx) (bdSize maxPeers stripeSize4k : Nat) : Format where
  mdIndex := idx
  bdSize := bdSize
  md := ⟨⟨0, 0, 0⟩, 4096, maxPeers, 1, stripeSize4k⟩
  mdOffset := v07StyleMdGetByteOffset idx bdSize

/-- Internal metadata for 7 peers on 1 GiB and some sectors. -/
theorem md_layout_agrees_internal :
    ∃ cfg md, reInitializeMdOffsets (blankFormat .flexInt (2 ^ 30 + 1536) 7 8) = .ok cfg ∧
      md = bsrMdSetSectorOffsets .flexInt 8 (some 7) (2 ^ 21 + 3) (2 ^ 21 + 3) ∧
      SameLayout cfg md ∧ Sound cfg md ⟨7, by decide, by decide⟩ 8 (2 ^ 21 + 3) (2 ^ 21 + 3) := by
  obtain ⟨cfg, hcfg⟩ : ∃ cfg, reInitializeMdOffsets (blankFormat .flexInt (2 ^ 30 + 1536) 7 8) = .ok cfg :=
    ⟨_, rfl⟩
  obtain ⟨hsame, hsound⟩ := md_layout_agrees (blankFormat .flexInt (2 ^ 30 + 1536) 7 8) cfg
    ⟨7, by decide, by decide⟩ 8 (2 ^ 21 + 3) _ (.inl ⟨rfl, rfl⟩) (by decide) rfl rfl (by decide) rfl rfl
    hcfg rfl
  refine ⟨cfg, _, hcfg, rfl, hsame, hsound ?_⟩
  show (_ : Int) ≤ _
  decide

/-- Internal metadata with more activity log than device; and external metadata of 1 MiB for 1 TiB
of data, where the capacity the kernel goes for does not fit the bitmap. -/
theorem md_layout_without_room :
    (∃ cfg, reInitializeMdOffsets (blankFormat .flexInt (2 ^ 17) 1 64) = .ok cfg ∧
      ¬ Separate (bsrMdSetSectorOffsets .flexInt 64 (some 1) (2 ^ 8) (2 ^ 8)) 64 (2 ^ 8) (2 ^ 8)) ∧
    ∃ cfg md, reInitializeMdOffsets (blankFormat .flexExt (2 ^ 20) 1 8) = .ok cfg ∧
      md = bsrMdSetSectorOffsets .flexExt 8 (some 1) (2 ^ 31) (2 ^ 11) ∧ md.Room (2 ^ 11) ∧
      512 * md.bitmapSectors < (slotBits (bsrGetMaxCapacity md (2 ^ 31)) / 8 * 1 : Nat) := by
  refine ⟨⟨_, rfl, fun hsep => ?_⟩, _, _, rfl, rfl, ?_, ?_⟩
  · have hmem : (-264 : Int) ∈ (bsrMdSetSectorOffsets .flexInt 64 (some 1) (2 ^ 8) (2 ^ 8)).activityLog 64 := by
      constructor <;> decide
    have hin := hsep.inside (.inl (.inr hmem))
    exact absurd hin.1 (by decide)
  · show (_ : Int) ≤ _
    decide
  · decide

end Bsr.MetaData
