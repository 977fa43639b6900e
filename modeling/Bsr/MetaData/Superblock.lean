import Bsr.Lib.BigEndian
import Bsr.MetaData.Regions

/-!
# Reading the superblock

`bsr_md_read` of `bsr_main.c` decodes the 4k block at the place of the superblock, checks it and
takes the offsets over.

* `MetaDataOnDisk9.ofBlock` decodes the block.
* `bsrMdRead` is the function, with `checkOffsetsAndSizes`.
* `Safe` says what a superblock must be like to be used.
* `superblock_safe_iff`: an accepted superblock is safe if some more is true of its fields. The size
  of the bitmap is compared with a size that has not been read yet, and the product of the stripes
  is taken in 32 bits.
-/

namespace Bsr.MetaData

open Bitmap BigEndian

abbrev Block := Nat → UInt8

/-! ## The block -/

/-- The fields of `struct meta_data_on_disk_9` that are checked, as unsigned numbers. -/
structure MetaDataOnDisk9 where
  effectiveSize : Nat
  flags : Nat
  magic : Nat
  mdSizeSect : Nat
  alOffset : Nat
  bmOffset : Nat
  bmBytesPerBit : Nat
  bmMaxPeers : Nat
  nodeId : Nat
  alStripes : Nat
  alStripeSize4k : Nat
  bitmapIndex : Fin 32 → Nat

/-- The peers start at byte 112, with 32 bytes each. -/
def MetaDataOnDisk9.ofBlock (b : Block) : MetaDataOnDisk9 where
  effectiveSize := be b 0 8
  flags := be b 56 4
  magic := be b 60 4
  mdSizeSect := be b 64 4
  alOffset := be b 68 4
  bmOffset := be b 76 4
  bmBytesPerBit := be b 80 4
  bmMaxPeers := be b 88 4
  nodeId := be b 92 4
  alStripes := be b 96 4
  alStripeSize4k := be b 100 4
  bitmapIndex := fun i => be b (112 + 32 * i.val + 20) 4

/-! ## The checks -/

/-- `struct bsr_md`, with `bm_max_peers` of the bitmap. -/
structure InCoreMd extends Md where
  effectiveSize : Nat
  maxPeers : Nat
  nodeId : Int
  alStripes : Nat
  alStripeSize4k : Nat
  alSize4k : Nat
  bitmapIndex : Fin 32 → Int

/-- What the attach hands over, besides the block: the kind of meta data, the sizes of the devices
and how a read of the meta data device ends. For internal meta data both devices are the same, and a
read does not go beyond the end. -/
structure MdConfig where
  metaDevIdx : MetaDevIdx
  backingCapacity : Nat
  mdCapacity : Nat
  myNodeId : Nat
  /-- `disk_state[NOW] == D_DISKLESS`. -/
  diskless : Bool
  /-- `bsr_md_get_buffer` finds the buffer free. -/
  buffer : Bool
  readBlock : Nat → Option Block
  backing_lt : backingCapacity < 2 ^ 55
  mdCapacity_lt : mdCapacity < 2 ^ 55
  same : metaDevIdx = .internal ∨ metaDevIdx = .flexInt → mdCapacity = backingCapacity
  read_inside : ∀ {sector : Nat} {b : Block}, readBlock sector = some b → sector + 8 ≤ mdCapacity

/-- Both values not set: the old fixed size activity log. -/
def stripes (alStripes alStripeSize4k : Nat) : Nat × Nat :=
  if alStripes = 0 ∧ alStripeSize4k = 0 then (1, 8) else (alStripes, alStripeSize4k)

/-- `on_disk_al_sect` and `on_disk_bm_sect`. -/
def onDiskSects (md : InCoreMd) : Option (Int × Int) :=
  if md.alOffset < 0 then
    if md.alOffset < md.bmOffset then none
    else some (toS32 (-md.alOffset), toS32 (md.alOffset - md.bmOffset))
  else if md.alOffset ≠ 8 then none
  else if md.bmOffset < toS32 (md.alOffset + toS32 (md.alSize4k * 8)) then none
  else some (toS32 (md.bmOffset - 8), toS32 (md.mdSizeSect - md.bmOffset))

/-- The old fixed size meta data is exactly that: fixed. -/
def fixedLayout (md : InCoreMd) : Prop :=
  match md.metaDevIdx with
  | .index _ => md.mdSizeSect = 2 ^ 19 ∧ md.alOffset = 8 ∧ md.bmOffset = 72 ∧ md.alStripes = 1 ∧
      md.alStripeSize4k = 8
  | _ => True

instance (md : InCoreMd) : Decidable (fixedLayout md) := by
  unfold fixedLayout
  cases md.metaDevIdx <;> infer_instance

variable (cfg : MdConfig)

/-- `check_offsets_and_sizes`. The effective size of `md` is what the structure held before; the
space for the bitmap is compared as an unsigned number. -/
def checkOffsetsAndSizes (md : InCoreMd) : Bool :=
  match onDiskSects md with
  | none => false
  | some (alSect, bmSect) =>
    decide (md.maxPeers ≤ 32 ∧ fixedLayout md ∧
      ¬ ((cfg.mdCapacity : Int) < md.mdSizeSect) ∧
      ¬ ((cfg.mdCapacity : Int) - md.mdSizeSect < bsrMdFirstSector md.toMd) ∧
      alSect % 8 = 0 ∧ 64 ≤ alSect ∧ alSect = toS32 (md.alSize4k * 8) ∧
      md.bmOffset % 8 = 0 ∧
      ¬ toU64 bmSect < bsrCapacityToOnDiskBmSect md.effectiveSize md.maxPeers)

/-- The body of the loop over the peers. -/
def peerIndexOk (md : InCoreMd) (i : Fin 32) : Bool :=
  decide (md.bitmapIndex i = -1 ∨
    (i.val ≠ cfg.myNodeId ∧ -1 ≤ md.bitmapIndex i ∧ md.bitmapIndex i < md.maxPeers))

/-- `enum bsr_ret_code`, as far as the function returns it. -/
inductive RetCode where
  | diskConfigured | noMem | ioMdDisk | mdUnclean | mdInvalid
deriving DecidableEq, Repr

def mdMagic09 : Nat := 0x83740267 + 6

/-- `flags & MDF_AL_CLEAN`. -/
def alClean (flags : Nat) : Bool := flags.testBit 7

/-- The fields of the structure, once they are taken over from the block. -/
def inCore (sb : MetaDataOnDisk9) (alSize4k effectiveSize : Nat) : InCoreMd where
  metaDevIdx := cfg.metaDevIdx
  mdOffset := bsrMdSs cfg.metaDevIdx cfg.backingCapacity
  alOffset := toS32 sb.alOffset
  bmOffset := toS32 sb.bmOffset
  mdSizeSect := sb.mdSizeSect
  effectiveSize := effectiveSize
  maxPeers := sb.bmMaxPeers
  nodeId := toS32 sb.nodeId
  alStripes := (stripes sb.alStripes sb.alStripeSize4k).1
  alStripeSize4k := (stripes sb.alStripes sb.alStripeSize4k).2
  alSize4k := alSize4k
  bitmapIndex := fun i => toS32 (sb.bitmapIndex i)

/-- The checks of the decoded block. -/
def checkSuperblock (sb : MetaDataOnDisk9) : Except RetCode InCoreMd :=
  if sb.magic = mdMagic09 ∧ alClean sb.flags = false then .error .mdUnclean
  else if sb.magic ≠ mdMagic09 then .error .mdInvalid
  else if sb.bmBytesPerBit ≠ 4096 then .error .mdInvalid
  else
    match checkActivityLogStripeSize sb.alStripes sb.alStripeSize4k with
    | none => .error .mdInvalid
    | some alSize4k =>
      -- `effective_size` is read after this check; the fresh structure still has 0
      if checkOffsetsAndSizes cfg (inCore cfg sb alSize4k 0) = false then .error .mdInvalid
      else
        let md := inCore cfg sb alSize4k sb.effectiveSize
        if md.nodeId ≠ -1 ∧ md.nodeId ≠ (cfg.myNodeId : Int) then .error .mdInvalid
        else if (List.finRange 32).all (peerIndexOk cfg md) = false then .error .mdInvalid
        else .ok md

def bsrMdRead : Except RetCode InCoreMd :=
  if cfg.diskless = false then .error .diskConfigured
  else if cfg.buffer = false then .error .noMem
  else
    match cfg.readBlock (bsrMdSs cfg.metaDevIdx cfg.backingCapacity) with
    | none => .error .ioMdDisk
    | some b => checkSuperblock cfg (MetaDataOnDisk9.ofBlock b)

/-! ## What is safe -/

/-- A superblock that can be used. -/
structure Safe (cfg : MdConfig) (md : InCoreMd) : Prop where
  maxPeers : 1 ≤ md.maxPeers ∧ md.maxPeers ≤ 32
  superblock_activityLog : Disjoint md.superblock (md.activityLog md.alSize4k)
  superblock_bitmap : Disjoint md.superblock md.bitmap
  activityLog_bitmap : Disjoint (md.activityLog md.alSize4k) md.bitmap
  inside : md.superblock ∪ md.activityLog md.alSize4k ∪ md.bitmap ⊆
    Set.Ico 0 (cfg.mdCapacity : Int)
  alSize : md.alStripes * md.alStripeSize4k = md.alSize4k
  covers : (bsrCapacityToOnDiskBmSect md.effectiveSize md.maxPeers : Int) ≤ md.bitmapSectors
  index : ∀ i, md.bitmapIndex i ≠ -1 → 0 ≤ md.bitmapIndex i ∧ md.bitmapIndex i < md.maxPeers
  distinct : ∀ i j, md.bitmapIndex i ≠ -1 → md.bitmapIndex i = md.bitmapIndex j → i = j

/-- The sectors between the offsets of a superblock which are left for the bitmap. -/
def MetaDataOnDisk9.bitmapSectors (sb : MetaDataOnDisk9) : Int :=
  if toS32 sb.alOffset = 8 then sb.mdSizeSect - toS32 sb.bmOffset
  else toS32 sb.alOffset - toS32 sb.bmOffset

/-- What the checks do not ask. -/
structure Unchecked (cfg : MdConfig) (sb : MetaDataOnDisk9) : Prop where
  maxPeers : sb.bmMaxPeers ≠ 0
  stripes : sb.alStripes * sb.alStripeSize4k < 2 ^ 32
  external : cfg.metaDevIdx = .flexExt → 0 ≤ toS32 sb.alOffset
  covers : (bsrCapacityToOnDiskBmSect sb.effectiveSize sb.bmMaxPeers : Int) ≤ sb.bitmapSectors
  distinct : ∀ i j, toS32 (sb.bitmapIndex i) ≠ -1 → toS32 (sb.bitmapIndex i) =
    toS32 (sb.bitmapIndex j) → i = j

/-! ## What is checked -/

theorem checkActivityLogStripeSize_spec {s z n : Nat} (h : checkActivityLogStripeSize s z = some n) :
    n = (stripes s z).1 * (stripes s z).2 % 2 ^ 32 ∧ 8 ≤ n ∧ n ≤ 2 ^ 22 := by
  unfold checkActivityLogStripeSize at h
  dsimp only at h
  have hs : (stripes s z).1 = if s = 0 ∧ z = 0 then 1 else s := by
    unfold stripes
    split_ifs <;> rfl
  have hz : (stripes s z).2 = if s = 0 ∧ z = 0 then 8 else z := by
    unfold stripes
    split_ifs <;> rfl
  rw [← hs, ← hz] at h
  split_ifs at h with h1 h2 h3
  cases h
  exact ⟨rfl, by omega, by omega⟩

/-- The structure `md` has been read from the superblock `sb`. -/
structure Accepted (cfg : MdConfig) (sb : MetaDataOnDisk9) (md : InCoreMd) : Prop where
  metaDevIdx : md.metaDevIdx = cfg.metaDevIdx
  mdOffset : md.mdOffset = bsrMdSs cfg.metaDevIdx cfg.backingCapacity
  alOffset : md.alOffset = toS32 sb.alOffset
  bmOffset : md.bmOffset = toS32 sb.bmOffset
  mdSizeSect : md.mdSizeSect = sb.mdSizeSect
  effectiveSize : md.effectiveSize = sb.effectiveSize
  maxPeers : md.maxPeers = sb.bmMaxPeers
  alStripes : md.alStripes = (stripes sb.alStripes sb.alStripeSize4k).1
  alStripeSize4k : md.alStripeSize4k = (stripes sb.alStripes sb.alStripeSize4k).2
  alSize4k : checkActivityLogStripeSize sb.alStripes sb.alStripeSize4k = some md.alSize4k
  bitmapIndex : md.bitmapIndex = fun i => toS32 (sb.bitmapIndex i)
  offsets : checkOffsetsAndSizes cfg { md with effectiveSize := 0 } = true
  peers : ∀ i, peerIndexOk cfg md i = true

variable {cfg : MdConfig} {md : InCoreMd}

theorem checkSuperblock_ok {sb : MetaDataOnDisk9}
    (h : checkSuperblock cfg sb = .ok md) : Accepted cfg sb md := by
  unfold checkSuperblock at h
  split_ifs at h
  split at h
  · cases h
  rename_i alSize4k hal
  dsimp only at h
  split_ifs at h with hoff _ hpeers
  obtain rfl := Except.ok.inj h
  have hall : (List.finRange 32).all
      (peerIndexOk cfg (inCore cfg sb alSize4k sb.effectiveSize)) = true := by
    simpa using hpeers
  exact {
    metaDevIdx := rfl
    mdOffset := by simp only [inCore]
    alOffset := by simp only [inCore]
    bmOffset := by simp only [inCore]
    mdSizeSect := rfl
    effectiveSize := rfl
    maxPeers := rfl
    alStripes := rfl
    alStripeSize4k := rfl
    alSize4k := hal
    bitmapIndex := by simp only [inCore]
    offsets := by
      simp only [inCore] at hoff ⊢
      exact (Bool.not_eq_false _).mp hoff
    peers := fun i => List.all_eq_true.1 hall i (List.mem_finRange i) }

theorem bsrMdRead_ok (h : bsrMdRead cfg = .ok md) :
    ∃ b, cfg.readBlock (bsrMdSs cfg.metaDevIdx cfg.backingCapacity) = some b ∧
      Accepted cfg (.ofBlock b) md := by
  unfold bsrMdRead at h
  split_ifs at h
  split at h
  · cases h
  · rename_i b hb
    exact ⟨b, hb, checkSuperblock_ok h⟩

/-! ## The layout of an accepted superblock -/

theorem toS32_mem (x : Int) : -2 ^ 31 ≤ toS32 x ∧ toS32 x < 2 ^ 31 := by
  unfold toS32
  constructor
  · have := Int.le_bmod (x := x) (m := 2 ^ 32) (by norm_num)
    omega
  · have := Int.bmod_lt (x := x) (m := 2 ^ 32) (by norm_num)
    omega

/-- The two layouts. -/
inductive Layout (cfg : MdConfig) (md : InCoreMd) : Prop where
  /-- The activity log and the bitmap are before the superblock. -/
  | before (hal : md.alOffset = -(8 * md.alSize4k)) (hbm : md.bmOffset ≤ md.alOffset)
      (hint : cfg.metaDevIdx = .internal ∨ cfg.metaDevIdx = .flexInt ∨ cfg.metaDevIdx = .flexExt)
      (hfirst : cfg.metaDevIdx ≠ .flexExt → 0 ≤ (md.mdOffset : Int) + md.bmOffset)
  /-- They are behind it. -/
  | behind (hal : md.alOffset = 8) (hbm : md.bmOffset = 8 + 8 * md.alSize4k)
      (hend : (md.mdOffset : Int) + md.mdSizeSect ≤ cfg.mdCapacity)

theorem first_nonneg (md : Md) (hidx : md.metaDevIdx = .internal ∨ md.metaDevIdx = .flexInt)
    (hoff : md.mdOffset < 2 ^ 55) (hbm : -2 ^ 31 ≤ md.bmOffset)
    (hfirst : (bsrMdFirstSector md : Int) < 2 ^ 55) : 0 ≤ (md.mdOffset : Int) + md.bmOffset := by
  have heq : bsrMdFirstSector md = toU64 (md.mdOffset + md.bmOffset) := by
    unfold bsrMdFirstSector
    rcases hidx with h | h <;> rw [h]
  by_contra hlt
  -- a negative sum is a number close to the end of the 64 bits
  have hwrap : (toU64 (md.mdOffset + md.bmOffset) : Int) = md.mdOffset + md.bmOffset + 2 ^ 64 := by
    unfold toU64
    omega
  omega

theorem le_first_of_nonneg (md : Md) (hoff : md.mdOffset < 2 ^ 55) (hbm : 0 ≤ md.bmOffset)
    (hlt : md.bmOffset < 2 ^ 31) : (md.mdOffset : Int) ≤ bsrMdFirstSector md := by
  have hsum : (toU64 (md.mdOffset + md.bmOffset) : Int) = md.mdOffset + md.bmOffset :=
    toU64_of_lt (by omega)
  unfold bsrMdFirstSector
  cases md.metaDevIdx <;> dsimp only <;> omega

/-- The values the fields of an in-core structure can have. -/
structure Ranges (cfg : MdConfig) (md : InCoreMd) : Prop where
  metaDevIdx : md.metaDevIdx = cfg.metaDevIdx
  alOffset : -2 ^ 31 ≤ md.alOffset ∧ md.alOffset < 2 ^ 31
  bmOffset : -2 ^ 31 ≤ md.bmOffset ∧ md.bmOffset < 2 ^ 31
  mdSizeSect : 0 ≤ md.mdSizeSect
  alSize4k : 8 ≤ md.alSize4k ∧ md.alSize4k ≤ 2 ^ 22
  mdOffset : md.mdOffset + 8 ≤ cfg.mdCapacity

theorem layout_of_check (hr : Ranges cfg md) (h : checkOffsetsAndSizes cfg md = true) : Layout cfg md := by
  have hcap := cfg.mdCapacity_lt
  have hbm := hr.bmOffset
  have hsz := hr.mdSizeSect
  have hn := hr.alSize4k
  have hread := hr.mdOffset
  have hsize : toS32 (md.alSize4k * 8) = 8 * md.alSize4k := by
    rw [toS32_of_mem (by omega)]
    omega
  unfold checkOffsetsAndSizes at h
  split at h
  · cases h
  rename_i alSect bmSect hsects
  simp only [decide_eq_true_eq] at h
  obtain ⟨-, hfixed, -, _, -, _, _, -, -⟩ := h
  unfold onDiskSects at hsects
  split_ifs at hsects with hneg hbad hne hlow
  · -- the activity log is before the superblock
    obtain ⟨hA, -⟩ := Prod.mk.inj (Option.some.inj hsects)
    have hmin : md.alOffset ≠ -2 ^ 31 := by
      intro heq
      rw [heq] at hA
      have hwrap : toS32 (-(-2 ^ 31)) = -2 ^ 31 := by decide
      omega
    rw [toS32_of_mem (by omega)] at hA
    have hcases : md.metaDevIdx = .internal ∨ md.metaDevIdx = .flexInt ∨
        md.metaDevIdx = .flexExt := by
      cases hidx : md.metaDevIdx with
      | index k =>
        simp only [fixedLayout, hidx] at hfixed
        omega
      | internal => simp
      | flexExt => simp
      | flexInt => simp
    refine .before (by omega) (by omega) (hr.metaDevIdx ▸ hcases) fun hext => ?_
    rw [← hr.metaDevIdx] at hext
    refine first_nonneg md.toMd ?_ (by omega) hbm.1 (by omega)
    exact or_assoc.2 hcases |>.resolve_right hext
  · -- it is behind the superblock
    obtain ⟨hA, -⟩ := Prod.mk.inj (Option.some.inj hsects)
    rw [not_not] at hne
    rw [hne, toS32_of_mem (by omega)] at hlow
    rw [toS32_of_mem (by omega)] at hA
    have hle := le_first_of_nonneg md.toMd (by omega) (by omega) hbm.2
    exact .behind hne (by omega) (by omega)

/-- The regions are apart and on the device. -/
structure Placed (cfg : MdConfig) (md : InCoreMd) : Prop where
  superblock_activityLog : Disjoint md.superblock (md.activityLog md.alSize4k)
  superblock_bitmap : Disjoint md.superblock md.bitmap
  activityLog_bitmap : Disjoint (md.activityLog md.alSize4k) md.bitmap
  inside : md.superblock ∪ md.activityLog md.alSize4k ∪ md.bitmap ⊆
    Set.Ico 0 (cfg.mdCapacity : Int)

/-- With room for a bitmap, only an activity log before the start of the device is misplaced. -/
theorem Layout.placed (hl : Layout cfg md) (hr : Ranges cfg md)
    (hext : cfg.metaDevIdx = .flexExt → 0 ≤ md.alOffset) (hroom : 0 ≤ md.bitmapSectors) :
    Placed cfg md := by
  have hread := hr.mdOffset
  have hn := hr.alSize4k
  cases hl with
  | before hal hbm hint hfirst =>
    have hne : cfg.metaDevIdx ≠ .flexExt := fun h => absurd (hext h) (by omega)
    have h0 := hfirst hne
    have hsect : md.bitmapSectors = md.alOffset - md.bmOffset := if_neg (by omega)
    refine ⟨?_, ?_, ?_, ?_⟩
    iterate 3
      · exact Set.Ico_disjoint_Ico.2 (by omega)
    · rintro x ((⟨hx1, hx2⟩ | ⟨hx1, hx2⟩) | ⟨hx1, hx2⟩) <;> constructor <;> omega
  | behind hal hbm hend =>
    have hsect : md.bitmapSectors = md.mdSizeSect - md.bmOffset := if_pos hal
    refine ⟨?_, ?_, ?_, ?_⟩
    iterate 3
      · exact Set.Ico_disjoint_Ico.2 (by omega)
    · rintro x ((⟨hx1, hx2⟩ | ⟨hx1, hx2⟩) | ⟨hx1, hx2⟩) <;> constructor <;> omega

/-- On a device of its own the activity log cannot be before the superblock, which is at its
start. -/
theorem alOffset_nonneg_of_inside (hr : Ranges cfg md)
    (hoff : md.mdOffset = 0) (hin : md.activityLog md.alSize4k ⊆ Set.Ico 0 (cfg.mdCapacity : Int)) :
    0 ≤ md.alOffset := by
  have hn := hr.alSize4k
  have hmem : (md.mdOffset : Int) + md.alOffset ∈ md.activityLog md.alSize4k :=
    ⟨le_refl _, by omega⟩
  have h0 := (hin hmem).1
  omega

theorem stripes_eq_iff {s z n : Nat} (h : checkActivityLogStripeSize s z = some n) :
    (stripes s z).1 * (stripes s z).2 = n ↔ s * z < 2 ^ 32 := by
  obtain ⟨hn, -, _⟩ := checkActivityLogStripeSize_spec h
  unfold stripes at hn ⊢
  split_ifs at hn ⊢ with h0
  · rw [h0.1]
    omega
  dsimp only at hn ⊢
  constructor
  · intro _
    omega
  · intro hlt
    rw [hn, Nat.mod_eq_of_lt hlt]

section Accepted

variable {cfg : MdConfig} {sb : MetaDataOnDisk9} {md : InCoreMd}

variable (h : Accepted cfg sb md)

include h

theorem Accepted.ranges (hread : md.mdOffset + 8 ≤ cfg.mdCapacity) : Ranges cfg md where
  metaDevIdx := h.metaDevIdx
  alOffset := by
    rw [h.alOffset]
    exact toS32_mem _
  bmOffset := by
    rw [h.bmOffset]
    exact toS32_mem _
  mdSizeSect := by
    rw [h.mdSizeSect]
    exact Int.natCast_nonneg _
  alSize4k := (checkActivityLogStripeSize_spec h.alSize4k).2
  mdOffset := hread

theorem Accepted.bitmapSectors : md.bitmapSectors = sb.bitmapSectors := by
  simp only [Md.bitmapSectors, MetaDataOnDisk9.bitmapSectors, h.alOffset, h.bmOffset, h.mdSizeSect]

theorem Accepted.maxPeers_le : md.maxPeers ≤ 32 := by
  have hoff := h.offsets
  unfold checkOffsetsAndSizes at hoff
  split at hoff
  · cases hoff
  · simp only [decide_eq_true_eq] at hoff
    exact hoff.1

theorem Accepted.index (i : Fin 32) (hi : md.bitmapIndex i ≠ -1) :
    0 ≤ md.bitmapIndex i ∧ md.bitmapIndex i < md.maxPeers := by
  have hok := h.peers i
  simp only [peerIndexOk, decide_eq_true_eq] at hok
  omega

theorem Accepted.layout (hr : Ranges cfg md) : Layout cfg md := by
  have hl : Layout cfg { md with effectiveSize := 0 } :=
    layout_of_check { hr with } h.offsets
  cases hl with
  | before hal hbm hint hfirst => exact .before hal hbm hint hfirst
  | behind hal hbm hend => exact .behind hal hbm hend

end Accepted

/-- A superblock that `bsr_md_read` accepts is safe just if its number of peers is not 0, the
product of the stripe values fits in 32 bits, the activity log is not before the start of a device
of its own, the space between the offsets is enough for the effective size, and no two nodes have
the same slot. -/
theorem superblock_safe_iff (cfg : MdConfig) (md : InCoreMd) (b : Block)
    (hb : cfg.readBlock (bsrMdSs cfg.metaDevIdx cfg.backingCapacity) = some b)
    (h : bsrMdRead cfg = .ok md) : Safe cfg md ↔ Unchecked cfg (.ofBlock b) := by
  obtain ⟨b', hb', ha⟩ := bsrMdRead_ok h
  obtain rfl : b' = b := Option.some.inj (hb'.symm.trans hb)
  generalize MetaDataOnDisk9.ofBlock b' = sb at ha ⊢
  have hread : md.mdOffset + 8 ≤ cfg.mdCapacity := by
    rw [ha.mdOffset]
    exact cfg.read_inside hb
  have hr : Ranges cfg md := ha.ranges hread
  have hstripes : md.alStripes * md.alStripeSize4k = md.alSize4k ↔
      sb.alStripes * sb.alStripeSize4k < 2 ^ 32 := by
    rw [ha.alStripes, ha.alStripeSize4k]
    exact stripes_eq_iff ha.alSize4k
  constructor
  · intro hs
    refine ⟨?_, hstripes.1 hs.alSize, fun hext => ?_, ?_, ?_⟩
    · have h1 := hs.maxPeers.1
      rw [ha.maxPeers] at h1
      omega
    · rw [← ha.alOffset]
      refine alOffset_nonneg_of_inside hr ?_ fun x hx => hs.inside (.inl (.inr hx))
      rw [ha.mdOffset, hext]
      rfl
    · rw [← ha.bitmapSectors, ← ha.effectiveSize, ← ha.maxPeers]
      exact hs.covers
    · have hd := hs.distinct
      rwa [ha.bitmapIndex] at hd
  · intro hu
    have hcov : (bsrCapacityToOnDiskBmSect md.effectiveSize md.maxPeers : Int) ≤
        md.bitmapSectors := by
      rw [ha.bitmapSectors, ha.effectiveSize, ha.maxPeers]
      exact hu.covers
    have hplaced : Placed cfg md := by
      refine (ha.layout hr).placed hr (fun hext => ?_) (le_trans (Int.natCast_nonneg _) hcov)
      rw [ha.alOffset]
      exact hu.external hext
    refine { hplaced with
      maxPeers := ⟨?_, ha.maxPeers_le⟩, alSize := hstripes.2 hu.stripes, covers := hcov, index := ha.index, distinct := ?_ }
    · rw [ha.maxPeers]
      exact Nat.one_le_iff_ne_zero.2 hu.maxPeers
    · rw [ha.bitmapIndex]
      exact hu.distinct

/-- A block with the given numbers in it: position, width in bytes and value. The rest of the peers'
part is filled with ones, so that no peer has a slot. -/
def blockOf (fields : List (Nat × Nat × Nat)) : Block := fun i =>
  match fields.find? fun f => f.1 ≤ i && i < f.1 + f.2.1 with
  | some (o, w, v) => UInt8.ofNat (v / 2 ^ (8 * (o + w - 1 - i)))
  | none => if 112 ≤ i then 0xff else 0

/-- A device of 1 MiB with internal meta data: 80 sectors at its end, of which 8 are for the
bitmap. -/
def megabyte (effectiveSize : Nat) : MdConfig where
  metaDevIdx := .flexInt
  backingCapacity := 2048
  mdCapacity := 2048
  myNodeId := 0
  diskless := true
  buffer := true
  readBlock := fun sector =>
    if sector + 8 ≤ 2048 then
      some (blockOf [(0, 8, effectiveSize), (56, 4, 0x80), (60, 4, 0x8374026d), (64, 4, 80),
        (68, 4, 2 ^ 32 - 64), (76, 4, 2 ^ 32 - 72), (80, 4, 4096), (88, 4, 1), (92, 4, 2 ^ 32 - 1),
        (96, 4, 1), (100, 4, 8)])
    else none
  backing_lt := by decide
  mdCapacity_lt := by decide
  same := fun _ => rfl
  read_inside := by
    intro sector b hb
    split_ifs at hb with hle
    exact hle

/-- The super block of a device of one megabyte. -/
theorem superblock_safe_megabyte :
    ∃ md, bsrMdRead (megabyte 1900) = .ok md ∧ Safe (megabyte 1900) md := by
  cases h : bsrMdRead (megabyte 1900) with
  | error e =>
    have hok : (bsrMdRead (megabyte 1900)).toBool = true := by decide +kernel
    rw [h] at hok
    cases hok
  | ok md =>
    refine ⟨md, rfl, (superblock_safe_iff (megabyte 1900) md _ rfl h).2 ⟨?_, ?_, ?_, ?_, ?_⟩⟩
    · decide +kernel
    · decide +kernel
    · decide +kernel
    · decide +kernel
    · decide +kernel

/-- The block is accepted with an effective size of 512 TiB, which its bitmap does not cover. -/
theorem superblock_accepted_unsafe :
    ∃ md, bsrMdRead (megabyte (2 ^ 40)) = .ok md ∧ ¬ Safe (megabyte (2 ^ 40)) md := by
  cases h : bsrMdRead (megabyte (2 ^ 40)) with
  | error e =>
    have hok : (bsrMdRead (megabyte (2 ^ 40))).toBool = true := by decide +kernel
    rw [h] at hok
    cases hok
  | ok md =>
    refine ⟨md, rfl, fun hs => ?_⟩
    obtain ⟨b, hb, ha⟩ := bsrMdRead_ok h
    cases hb
    have hcov := hs.covers
    rw [ha.bitmapSectors, ha.effectiveSize, ha.maxPeers] at hcov
    revert hcov
    decide +kernel

end Bsr.MetaData
