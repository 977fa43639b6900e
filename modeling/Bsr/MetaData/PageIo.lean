import Bsr.MetaData.Offsets

/-!
# The transfer of one bitmap page

`bm_page_io_async` reads or writes a page of the bitmap at its place in the metadata and cuts the
transfer at the last sector of the metadata.

* the bytes that are left are computed in 64 bits and compared with the page size in 32;
* a length of zero is replaced by a whole page, because the completion of an empty bio is not
  called.

`bm_page_io_exact` says for which layouts and pages the length is right nevertheless. Pages have 4
KiB. -/

namespace Bsr.MetaData

def bsrMdLastSector (md : Md) : Nat :=
  match md.metaDevIdx with
  | .internal | .flexInt => toU64 (md.mdOffset + 8 - 1)
  | .flexExt | .index _ => toU64 (md.mdOffset + md.mdSizeSect - 1)

/-- `on_disk_sector` of a page. -/
def onDiskSector (md : Md) (pageNr : Nat) : Nat :=
  toU64 (md.mdOffset + md.bmOffset + pageNr * 8)

/-- `len` of `bm_page_io_async`. -/
def bmPageIoLen (md : Md) (pageNr : Nat) : Nat :=
  let left := toU64 ((bsrMdLastSector md - onDiskSector md pageNr + 1) * 512)
  -- `min_t(unsigned int, ..)`
  let len := min 4096 (toU32 left)
  if len = 0 then 4096 else len

/-- The bytes from the start of a page up to the end of the metadata. -/
def bytesLeft (md : Md) (pageNr : Nat) : Int :=
  ((bsrMdLastSector md : Int) + 1 - onDiskSector md pageNr) * 512

/-- The transfer has the length of the page, or of what is left, and ends inside the metadata. -/
structure PageIoExact (md : Md) (pageNr : Nat) : Prop where
  length : (bmPageIoLen md pageNr : Int) = min 4096 (bytesLeft md pageNr)
  inside : onDiskSector md pageNr * 512 + bmPageIoLen md pageNr ≤ (bsrMdLastSector md + 1) * 512

/-- The length in terms of the bytes that are left: 32 bits of them decide. -/
theorem bmPageIoLen_eq (md : Md) (pageNr : Nat) : (bmPageIoLen md pageNr : Int) =
      if bytesLeft md pageNr % 2 ^ 32 = 0 then 4096 else min 4096 (bytesLeft md pageNr % 2 ^ 32) := by
  have hlow : (toU32 (toU64 ((bsrMdLastSector md - onDiskSector md pageNr + 1) * 512)) : Int) =
      bytesLeft md pageNr % 2 ^ 32 := by
    unfold toU32 toU64 bytesLeft
    omega
  unfold bmPageIoLen
  dsimp only
  split_ifs <;> omega

/-- The transfer is exact when the page begins inside the metadata and what is left is less than 4
GiB, or leaves nothing or a whole page beyond a multiple of 4 GiB. -/
theorem bm_page_io_exact (md : Md) (pageNr : Nat) : PageIoExact md pageNr ↔
      0 < bytesLeft md pageNr ∧ (bytesLeft md pageNr < 2 ^ 32 ∨ bytesLeft md pageNr % 2 ^ 32 = 0 ∨
        4096 ≤ bytesLeft md pageNr % 2 ^ 32) := by
  have hlen := bmPageIoLen_eq md pageNr
  constructor
  · intro h
    have hexact := h.length
    split_ifs at hlen <;> omega
  intro h
  have hexact : (bmPageIoLen md pageNr : Int) = min 4096 (bytesLeft md pageNr) := by
    split_ifs at hlen <;> omega
  refine ⟨hexact, ?_⟩
  unfold bytesLeft at hexact
  omega

/-- External metadata with 4 GiB and one sector behind the start of the bitmap: of the first page,
only one sector is transferred. -/
theorem bm_page_io_short :
    bytesLeft (bsrMdSetSectorOffsets .flexExt 8 (some 1) (2 ^ 38) (72 + 2 ^ 23 + 1)) 0 = 2 ^ 32 + 512 ∧
      bmPageIoLen (bsrMdSetSectorOffsets .flexExt 8 (some 1) (2 ^ 38) (72 + 2 ^ 23 + 1)) 0 = 512 ∧
      ¬ PageIoExact (bsrMdSetSectorOffsets .flexExt 8 (some 1) (2 ^ 38) (72 + 2 ^ 23 + 1)) 0 := by
  have hleft : bytesLeft (bsrMdSetSectorOffsets .flexExt 8 (some 1) (2 ^ 38) (72 + 2 ^ 23 + 1)) 0 =
      2 ^ 32 + 512 := by decide
  have hlen : bmPageIoLen (bsrMdSetSectorOffsets .flexExt 8 (some 1) (2 ^ 38) (72 + 2 ^ 23 + 1)) 0 =
      512 := by decide
  refine ⟨hleft, hlen, fun h => ?_⟩
  have hexact := h.length
  omega

end Bsr.MetaData
