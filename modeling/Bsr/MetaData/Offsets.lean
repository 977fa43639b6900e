import Bsr.Bitmap.Resize

/-!
# The metadata layout, in the kernel and in bsrmeta

`bsr_md_set_sector_offsets` of `bsr_nl.c` and `re_initialize_md_offsets` of `bsrmeta.c` compute
where the superblock, the activity log and the bitmap are.

* internal: `[data.....][  Bitmap  ][ activity log ][ 4k superblock ]` at the end of the device;
* external: `[ 4k superblock ][ activity log ][  Bitmap  ]` on a device of its own.

The kernel counts sectors and keeps signed 32-bit offsets from the superblock; `bsrmeta` adds byte
offsets of its own. Capacities are those of real devices: less than `2 ^ 64` bytes.
-/

namespace Bsr.MetaData

open Bitmap

/-! ## Machine integers -/

def toU32 (x : Int) : Nat := (x % 2 ^ 32).toNat

def toU64 (x : Int) : Nat := (x % 2 ^ 64).toNat

/-- The value of a 32-bit word as a signed integer. -/
def toS32 (x : Int) : Int := x.bmod (2 ^ 32)

/-- `ALIGN`, for powers of two. -/
def align (x a : Nat) : Nat := (x + (a - 1)) / a * a

/-- `BSR_MD_INDEX_*`: an index into a shared metadata device, or one of the special values. -/
inductive MetaDevIdx where
  | index (n : Nat)
  | internal
  | flexExt
  | flexInt
deriving DecidableEq, Repr

/-! ## The kernel -/

def bsrCapacityToOnDiskBmSect (capacitySect maxPeers : Nat) : Nat :=
  let bits := align (align capacitySect 8 / 8) 64
  let bytes := align (bits / 8 * maxPeers) 4096
  bytes / 512

/-- The layout fields of `struct bsr_md`; offsets in sectors. -/
structure Md extends MdOffsets where
  metaDevIdx : MetaDevIdx
  mdOffset : Nat

def bsrMdSs (idx : MetaDevIdx) (backingCapacity : Nat) : Nat :=
  match idx with
  | .flexExt => 0
  | .internal | .flexInt => toU64 (backingCapacity / 8 * 8 - 8)
  -- the old fixed size layout
  | .index n => toU64 (toS32 (2 ^ 19 * n))

/-- `bsr_md_set_sector_offsets`; `bmMaxPeers` is there when the device has a bitmap. -/
def bsrMdSetSectorOffsets (idx : MetaDevIdx) (alSize4k : Nat) (bmMaxPeers : Option Nat)
    (backingCapacity mdCapacity : Nat) : Md :=
  let alSizeSect : Nat := alSize4k * 8 % 2 ^ 32
  let maxPeers := bmMaxPeers.getD 1
  let mdOffset := bsrMdSs idx backingCapacity
  match idx with
  | .index _ =>
    { metaDevIdx := idx, mdOffset := mdOffset, mdSizeSect := 2 ^ 19
      alOffset := 8, bmOffset := toS32 (8 + alSizeSect) }
  | .flexExt =>
    { metaDevIdx := idx, mdOffset := mdOffset, mdSizeSect := toU32 mdCapacity
      alOffset := 8, bmOffset := toS32 (8 + alSizeSect) }
  | .internal | .flexInt =>
    let mdSizeSect : Nat := bsrCapacityToOnDiskBmSect backingCapacity maxPeers + 8 + alSizeSect
    { metaDevIdx := idx, mdOffset := mdOffset, mdSizeSect := toU32 mdSizeSect
      alOffset := toS32 (-alSizeSect), bmOffset := toS32 (toS32 (-mdSizeSect) + 8) }

def bsrMaxSectorsFlex : Nat := 2 ^ 51

def bsrMdFirstSector (md : Md) : Nat :=
  match md.metaDevIdx with
  | .internal | .flexInt => toU64 (md.mdOffset + md.bmOffset)
  | .flexExt | .index _ => md.mdOffset

/-- `bsr_get_max_capacity`. The clip for external metadata takes a sector of the bitmap for a whole
resync extent of 128 MiB, and one slot for all. -/
def bsrGetMaxCapacity (md : Md) (backingCapacity : Nat) : Nat :=
  match md.metaDevIdx with
  | .internal | .flexInt =>
    if backingCapacity = 0 then 0 else min bsrMaxSectorsFlex (bsrMdFirstSector md)
  | .flexExt =>
    min (min bsrMaxSectorsFlex backingCapacity) (toU32 (md.mdSizeSect - md.bmOffset) * 2 ^ 18)
  | .index _ => min ((2 ^ 19 - 64 - 8) * 2 ^ 18) backingCapacity

/-- `check_activity_log_stripe_size`: the number of 4k blocks of the activity log. -/
def checkActivityLogStripeSize (alStripes alStripeSize4k : Nat) : Option Nat :=
  let both0 := alStripes = 0 ∧ alStripeSize4k = 0
  let alStripes := if both0 then 1 else alStripes
  let alStripeSize4k := if both0 then 8 else alStripeSize4k
  let alSize4k := alStripes * alStripeSize4k % 2 ^ 32
  if alStripes = 0 ∨ alStripeSize4k = 0 then none
  else if 16 * 1024 * 1024 / 4 < alSize4k then none
  else if alSize4k < 8 then none
  else some alSize4k

/-! ## bsrmeta -/

/-- The layout fields of `struct md_cpu`. -/
structure MdCpu extends MdOffsets where
  bmBytesPerBit : Nat
  maxPeers : Nat
  alStripes : Nat
  alStripeSize4k : Nat

/-- The layout fields of `struct format`; offsets and size in bytes. -/
structure Format where
  mdIndex : MetaDevIdx
  bdSize : Nat
  md : MdCpu
  mdOffset : Nat
  alOffset : Nat := 0
  bmOffset : Nat := 0
  maxUsableSect : Nat := 0

/-- How `bsrmeta` gives up: a failed `ASSERT`, or `exit`. -/
inductive Exit where
  | assertion
  | code (n : Nat)
deriving DecidableEq, Repr

def bmBytes (md : MdCpu) (sectors : Nat) : Except Exit Nat :=
  let sectorsPerBit := md.bmBytesPerBit / 512
  if 2 ^ (50 - 9) < sectors then .error .assertion
  else if md.bmBytesPerBit < 4096 then .error .assertion
  else if md.bmBytesPerBit &&& (md.bmBytesPerBit - 1) ≠ 0 then .error .assertion
  else
    let bmBits := align ((sectors + sectorsPerBit - 1) / sectorsPerBit) 64
    .ok (align (bmBits / 8 * md.maxPeers) 4096)

def v07StyleMdGetByteOffset (idx : MetaDevIdx) (bdSize : Nat) : Nat :=
  match idx with
  | .index n => 2 ^ 19 * n * 512
  | .internal => toU64 (bdSize / 4096 * 4096 - 2 ^ 19 * 512)
  | .flexInt => toU64 (bdSize - 4096) / 4096 * 4096
  | .flexExt => 0

def maxUsableSectors (cfg : Format) : Except Exit Nat :=
  match cfg.mdIndex with
  | .internal | .flexInt => .ok (min (min cfg.mdOffset cfg.alOffset) cfg.bmOffset / 512)
  | .flexExt | .index _ =>
    if cfg.md.bmBytesPerBit ≠ 4096 then .error .assertion
    else .ok (toU32 (cfg.md.mdSizeSect - cfg.md.bmOffset)
      * 512 * 8 / 64 / cfg.md.maxPeers * 64 * cfg.md.bmBytesPerBit / 512)

/-- `re_initialize_md_offsets`, the part before the byte offsets. -/
def mdOffsetsOf (mdIndex : MetaDevIdx) (bdSize : Nat) (md : MdCpu) : Except Exit MdCpu :=
  let alSizeSect := toS32 (md.alStripes * md.alStripeSize4k * 8)
  match mdIndex with
  | .index _ =>
    .ok { md with mdSizeSect := 2 ^ 19, alOffset := 8, bmOffset := toS32 (8 + alSizeSect) }
  | .flexExt =>
    .ok { md with
      mdSizeSect := toU32 (bdSize / 512), alOffset := 8, bmOffset := toS32 (8 + alSizeSect) }
  -- only v07
  | .internal => .ok { md with mdSizeSect := 2 ^ 19, alOffset := 8, bmOffset := 8 + 64 }
  | .flexInt =>
    match bmBytes md (bdSize / 512) with
    | .error e => .error e
    | .ok bytes =>
      let bmSect := align (bytes / 512) 8
      -- "Bitmap for that device got too large."
      if 2 ^ (38 - 3) / 512 < bmSect then .error (.code 10)
      else
        let mdSizeSect := toU64 (bmSect + (8 + alSizeSect))
        .ok { md with
          mdSizeSect := toU32 mdSizeSect
          alOffset := toS32 (-alSizeSect)
          bmOffset := toS32 (-mdSizeSect + 8) }

def reInitializeMdOffsets (cfg : Format) : Except Exit Format :=
  let md := { cfg.md with
    bmBytesPerBit := if cfg.md.bmBytesPerBit = 0 then 4096 else cfg.md.bmBytesPerBit
    maxPeers := if cfg.md.maxPeers = 0 then 1 else cfg.md.maxPeers }
  match mdOffsetsOf cfg.mdIndex cfg.bdSize md with
  | .error e => .error e
  | .ok md =>
    let cfg := { cfg with
      md := md
      alOffset := toU64 (cfg.mdOffset + md.alOffset * 512)
      bmOffset := toU64 (cfg.mdOffset + md.bmOffset * 512) }
    match maxUsableSectors cfg with
    | .error e => .error e
    | .ok n => .ok { cfg with maxUsableSect := n }

end Bsr.MetaData
