import Bsr.Bitmap.Op

/-!
# Resizing the bitmap and the multi-page operations

* `bmCountBits` recounts the set bits of every slot, page by page;
* `bmManyBitsOp` sets or clears a range page by page;
* `bsrBmResize` gives the bitmap the size of the device;
* `bsrBmMergeLel` is the merge of received words.

The loops of the source run under a step bound; running out of it is the fault `noReturn`.
-/

namespace Bsr.Bitmap

open Lib

/-- The loop of `bm_count_bits` over one slot, from bit `bit` on. -/
def countSlot (idx : Nat) : Nat → BsrBitmap → Nat → Nat → Except Fault (BsrBitmap × Nat)
  | 0, _, _, _ => .error .noReturn
  | fuel + 1, b, bit, bitsSet =>
    if bit < b.bmBits then
      let lastBit := lastBitOnPage b.bmMaxPeers.val idx bit
      match bmOpInner b idx bit lastBit .count [] with
      | .error f => .error f
      | .ok r => countSlot idx fuel r.bitmap (lastBit + 1) (bitsSet + r.ret)
    else .ok (b, bitsSet)

/-- `bm_count_bits`, for the slots of a list. -/
def countSlots : List Nat → BsrBitmap → Except Fault BsrBitmap
  | [], b => .ok b
  | idx :: rest, b =>
    match countSlot idx (b.bmBits + 1) b 0 0 with
    | .error f => .error f
    | .ok (b, bitsSet) => countSlots rest { b with bmSet := Function.update b.bmSet idx bitsSet }

variable (b : BsrBitmap)

def bmCountBits : Except Fault BsrBitmap :=
  countSlots (List.range b.bmMaxPeers.val) b

/-- The loop of `__bm_many_bits_op`; `last_bit + 1` wraps in 64 bits. -/
def manyBitsLoop (idx stop : Nat) (op : BmOp) : Nat → BsrBitmap → Nat → Except Fault BsrBitmap
  | 0, _, _ => .error .noReturn
  | fuel + 1, b, bit =>
    if bit ≤ stop then
      let lastBit := lastBitOnPage b.bmMaxPeers.val idx bit
      let lastBit := if stop < lastBit then stop else lastBit
      match bmOp b idx bit lastBit op [] with
      | .error f => .error f
      | .ok r => manyBitsLoop idx stop op fuel r.bitmap ((lastBit + 1) % 2 ^ 64)
    else .ok b

/-- `__bm_many_bits_op`. On an empty bitmap `bm_bits - 1` wraps and the loop never ends. -/
def bmManyBitsOp (idx start stop : Nat) (op : BmOp) : Except Fault BsrBitmap :=
  let stop := if stop ≥ b.bmBits then (b.bmBits + (2 ^ 64 - 1)) % 2 ^ 64 else stop
  manyBitsLoop idx stop op (b.bmBits + 1) b start

variable (idx offset number : Nat)

/-- The bit range of `number` 64-bit words from word `offset` on, in 64-bit arithmetic, as
`bsr_bm_merge_lel` and `bsr_bm_get_lel` compute it. -/
def lelOp (op : BmOp) (buffer : List (BitVec 32)) :
    Except Fault BmResult :=
  let start := offset * 64 % 2 ^ 64
  let stop := (start + number * 64 + (2 ^ 64 - 1)) % 2 ^ 64
  bmOp b idx start stop op buffer

/-- `bsr_bm_merge_lel`: `number` 64-bit words from word `offset` on. -/
def bsrBmMergeLel (buffer : List (BitVec 32)) :
    Except Fault BmResult :=
  lelOp b idx offset number .merge buffer

/-- `bsr_bm_get_lel`; `out` holds the words that are written to the buffer. -/
def bsrBmGetLel : Except Fault BmResult :=
  lelOp b idx offset number .extract []

/-- The error codes of `bsr_bm_resize`. -/
inductive Errno
  | ENOSPC
  | ENOMEM
  deriving DecidableEq, Repr

/-- The metadata offsets `bsr_md_on_disk_bits` reads, in sectors. -/
structure MdOffsets where
  alOffset : Int
  bmOffset : Int
  mdSizeSect : Int

/-- `bsr_md_on_disk_bits`; the size is unsigned, so that the first difference is taken in 32
bits. -/
def bsrMdOnDiskBits (slots : PeerSlots) (md : MdOffsets) : Nat :=
  let bitmapSectors :=
    if md.alOffset = 8 then (md.mdSizeSect - md.bmOffset) % 2 ^ 32 else md.alOffset - md.bmOffset
  let word64OnDisk := (bitmapSectors % 2 ^ 64).toNat * 64 % 2 ^ 64
  word64OnDisk / slots.val * 64 % 2 ^ 64

/-- `BM_PAGE_IDX_MASK`: the largest page index a page can remember. -/
def bmPageIdxMask : Nat := 2 ^ 24 - 1

/-- `bm_realloc_pages`: `none` when an allocation fails. `bm_store_page_idx` has a `BUG_ON` for new
pages whose index does not fit its mask. -/
def bmReallocPages (pages : List Page) (want : Nat) (allocOk : Bool) :
    Except Fault (Option (List Page)) :=
  if !allocOk then .ok none
  else if want < pages.length then .ok (some (pages.take want))
  else if pages.length < want ∧ bmPageIdxMask < want - 1 then .error .bug
  else .ok (some (pages ++ List.replicate (want - pages.length) Page.zero))

/-- The pages a resize goes on with: the present ones when their number is right. -/
def resizePages (want : Nat) (allocOk : Bool) : Except Fault (Option (List Page)) :=
  if want = b.bmPages.length then .ok (some b.bmPages) else bmReallocPages b.bmPages want allocOk

/-- The fill loop of a growing resize: new bits of every slot of the list get the fill value. -/
def fillSlots (obits bits : Nat) (setNewBits : Bool) : List Nat → BsrBitmap →
    Except Fault BsrBitmap
  | [], b => .ok b
  | idx :: rest, b =>
    let bmSet := b.bmSet idx
    let op := if setNewBits then .set else .clear
    match bmOpInner b idx obits endOfBitmap op [] with
    | .error f => .error f
    | .ok r =>
      let bmSet := if setNewBits then bmSet + (bits - obits) else bmSet
      fillSlots obits bits setNewBits rest
        { r.bitmap with bmSet := Function.update r.bitmap.bmSet idx bmSet }

/-- `bsr_bm_resize`. `md` is the metadata layout when a local disk is attached; `allocOk` says
whether the page allocations succeed. -/
def bsrBmResize (capacity : Nat) (setNewBits : Bool) (md : Option MdOffsets)
    (allocOk : Bool) : Except Fault (BsrBitmap × Option Errno) :=
  if capacity = b.bmDevCapacity then .ok (b, none)
  else if capacity = 0 then
    .ok (⟨b.bmMaxPeers, 0, 0, 0, [], fun i => if i < b.bmMaxPeers.val then 0 else b.bmSet i⟩, none)
  else
    let bits := (capacity + 7) / 8 * 8 / 8
    let words := BsrBitmap.wordsFor bits b.bmMaxPeers.val
    if md.any (fun md => bsrMdOnDiskBits b.bmMaxPeers md < bits) then .ok (b, some .ENOSPC)
    else
      match resizePages b (BsrBitmap.pagesFor words) allocOk with
      | .error f => .error f
      | .ok none => .ok (b, some .ENOMEM)
      | .ok (some npages) =>
        let obits := b.bmBits
        let b := { b with bmPages := npages, bmBits := bits, bmWords := words,
                          bmDevCapacity := capacity }
        if obits < bits then
          match fillSlots obits bits setNewBits (List.range b.bmMaxPeers.val) b with
          | .error f => .error f
          | .ok b => .ok (b, none)
        else
          match bmCountBits b with
          | .error f => .error f
          | .ok b => .ok (b, none)

end Bsr.Bitmap
