import Bsr.Bitmap.Loop

/-!
# What a bitmap operation does

`BsrBitmap.Valid` is the shape `bsr_bm_resize` gives a bitmap: enough words for all slots and enough
pages for the words. On a valid, non-empty bitmap `____bm_op` refines an operation on plain per-slot
bit sets, the function `BsrBitmap.bit`:

* `bmOpInner_done` for SET, CLEAR, COUNT, MERGE and EXTRACT;
* `bmOpInner_find` for the searches;
* `bmOpInner_test` for TEST.
-/

namespace Bsr.Bitmap

open Lib

namespace BsrBitmap

/-- Bit `i` of slot `slot`. -/
def bit (b : BsrBitmap) (slot i : Nat) : Bool :=
  memBit b.bmPages (bitAddr b.bmMaxPeers.val slot i)

/-- `ALIGN(bits, 64) * bm_max_peers / BITS_PER_BM_WORD`. -/
def wordsFor (bits maxPeers : Nat) : Nat :=
  (bits + 63) / 64 * 64 * maxPeers / 32

/-- `ALIGN(words * BYTES_PER_BM_WORD, PAGE_SIZE) >> PAGE_SHIFT`. -/
def pagesFor (words : Nat) : Nat :=
  (words * 4 + 4095) / 4096 * 4096 / 4096

/-- A bit for every 4 KiB block of the device, enough words and pages for the bits, and no wrap in
the 64-bit cursor arithmetic. -/
structure Valid (b : BsrBitmap) : Prop where
  bits_eq : b.bmBits = (b.bmDevCapacity + 7) / 8
  words_eq : b.bmWords = wordsFor b.bmBits b.bmMaxPeers.val
  pages_eq : b.bmPages.length = pagesFor b.bmWords
  bits_lt : b.bmBits + 64 < 2 ^ 64

theorem wordsFor_eq (bits maxPeers : Nat) :
    wordsFor bits maxPeers = 2 * ((bits + 63) / 64) * maxPeers := by
  unfold wordsFor
  rw [show (bits + 63) / 64 * 64 * maxPeers = 2 * ((bits + 63) / 64) * maxPeers * 32 by ring,
    Nat.mul_div_cancel _ (by decide)]

theorem pagesFor_eq (words : Nat) : pagesFor words = (words + 1023) / 1024 := by
  unfold pagesFor
  omega

theorem page_lt_pagesFor {bits maxPeers idx i : Nat} (hidx : idx < maxPeers) (hi : i < bits) :
    bitAddr maxPeers idx i / bitsPerPage < pagesFor (wordsFor bits maxPeers) := by
  have hword : i / 32 * maxPeers + idx < wordsFor bits maxPeers := by
    rw [wordsFor_eq]
    calc
      i / 32 * maxPeers + idx < (i / 32 + 1) * maxPeers := by
          rw [Nat.add_mul]
          omega
      _ ≤ 2 * ((bits + 63) / 64) * maxPeers := Nat.mul_le_mul_right _ (by omega)
  have hdiv := bitAddr_div maxPeers idx i
  rw [pagesFor_eq]
  unfold bitsPerPage
  omega

theorem Valid.page_lt {b : BsrBitmap} (hv : b.Valid) {idx i : Nat}
    (hidx : idx < b.bmMaxPeers.val) (hi : i < b.bmBits) :
    bitAddr b.bmMaxPeers.val idx i / bitsPerPage < b.bmPages.length := by
  rw [hv.pages_eq, hv.words_eq]
  exact page_lt_pagesFor hidx hi

/-- Everything but the words and the counters is as before. -/
structure SameShape (b b' : BsrBitmap) : Prop where
  maxPeers : b'.bmMaxPeers = b.bmMaxPeers
  bits : b'.bmBits = b.bmBits
  words : b'.bmWords = b.bmWords
  capacity : b'.bmDevCapacity = b.bmDevCapacity
  pages : b'.bmPages.length = b.bmPages.length

theorem SameShape.rfl {b : BsrBitmap} : b.SameShape b :=
  ⟨Eq.refl _, Eq.refl _, Eq.refl _, Eq.refl _, Eq.refl _⟩

theorem SameShape.trans {b b' b'' : BsrBitmap} (h : b.SameShape b') (h' : b'.SameShape b'') :
    b.SameShape b'' :=
  ⟨h'.maxPeers.trans h.maxPeers, h'.bits.trans h.bits, h'.words.trans h.words,
    h'.capacity.trans h.capacity, h'.pages.trans h.pages⟩

theorem Valid.of_sameShape {b b' : BsrBitmap} (hv : b.Valid) (h : b.SameShape b') : b'.Valid := by
  refine ⟨?_, ?_, ?_, ?_⟩
  · rw [h.bits, h.capacity, hv.bits_eq]
  · rw [h.words, h.bits, h.maxPeers, hv.words_eq]
  · rw [h.pages, h.words, hv.pages_eq]
  · rw [h.bits]
    exact hv.bits_lt

end BsrBitmap

variable (b : BsrBitmap)

/-- One past the last bit an operation with bounds `start..stop` may touch. -/
def rangeEnd (stop : Nat) : Nat :=
  min (stop + 1) b.bmBits

/-- The bits of the processed range, and no other bit of any slot, went through `op`. -/
def BitsDone (op : BmOp) (b b' : BsrBitmap) (idx start stop : Nat) (src : Nat → Bool) : Prop :=
  ∀ slot < b.bmMaxPeers.val, ∀ i, b'.bit slot i =
    if slot = idx ∧ start ≤ i ∧ i < rangeEnd b stop then
      op.newBit (b.bit slot i) (src (i - start))
    else b.bit slot i

/-- Number of bits of the range that `op` counts. -/
def opCount (op : BmOp) (b : BsrBitmap) (idx start stop : Nat) (src : Nat → Bool) : Nat :=
  tally (fun i => op.tallied (b.bit idx i) (src (i - start))) start (rangeEnd b stop - start)

/-- `bm_set[]` after `total` bits were counted. -/
def setAfter (op : BmOp) (b : BsrBitmap) (idx total : Nat) : Nat → Nat :=
  match op with
  | .clear => Function.update b.bmSet idx ((b.bmSet idx + (2 ^ 64 - total)) % 2 ^ 64)
  | .set | .merge => Function.update b.bmSet idx ((b.bmSet idx + total) % 2 ^ 64)
  | _ => b.bmSet

/-! ## From the loop to the operation -/

/-- The last bit the loop may touch: `end`, clipped to the bitmap. -/
def clipStop (stop : Nat) : Nat :=
  if stop ≥ b.bmBits then (b.bmBits + (2 ^ 64 - 1)) % 2 ^ 64 else stop

theorem clipStop_add_one {b : BsrBitmap} (hv : b.Valid) (hbits : 0 < b.bmBits) (stop : Nat) :
    clipStop b stop + 1 = rangeEnd b stop := by
  have hlt := hv.bits_lt
  unfold clipStop rangeEnd
  split <;> omega

/-- The locals of `____bm_op` before the loop. -/
def initScan (idx start : Nat) (buffer : List (BitVec 32)) : Scan :=
  ⟨start, (word32InPage (interleavedWord32 b.bmMaxPeers.val idx start) <<< 5) ||| (start &&& 31),
    Page.zero, 0, 0, buffer, []⟩

theorem initScan_cursor (idx start : Nat) (buffer : List (BitVec 32)) :
    word32ToPage (interleavedWord32 b.bmMaxPeers.val idx start) * bitsPerPage +
        (initScan b idx start buffer).bitInPage = bitAddr b.bmMaxPeers.val idx start ∧
      (initScan b idx start buffer).bitInPage < bitsPerPage := by
  simp only [initScan, shiftLeft_5_or_mod, word32InPage_eq, word32ToPage_eq, interleavedWord32_eq]
  unfold bitAddr bitsPerPage
  omega

/-- What the page loop leaves behind when it runs to the end of the range. -/
structure LoopDone (op : BmOp) (b : BsrBitmap) (idx start stop : Nat) (src : List (BitVec 32))
    (pages : List Page) (s : Scan) : Prop where
  length_eq : pages.length = b.bmPages.length
  mem : ∀ k, memBit pages k = image op b.bmMaxPeers.val idx start (rangeEnd b stop)
    (streamBit src) (memBit b.bmPages) k
  total : op.isFind = false → s.total = opCount op b idx start stop (streamBit src)
  out_other : op ≠ .extract → s.out = []
  out_length : op = .extract → s.out.length = (rangeEnd b stop - start + 31) / 32
  out_bits : op = .extract → ∀ j, streamBit s.out j =
    (decide (j < rangeEnd b stop - start) && b.bit idx (start + j))
  miss : op.isFind = true → ∀ i, start ≤ i → i < rangeEnd b stop → b.bit idx i ≠ op.want

/-- The bit `r` answers a search over `start..stop`. -/
structure FirstMatch (b : BsrBitmap) (idx start stop : Nat) (want : Bool) (r : Nat) : Prop where
  start_le : start ≤ r
  lt_end : r < rangeEnd b stop
  hit : b.bit idx r = want
  least : ∀ i, start ≤ i → i < r → b.bit idx i ≠ want

/-- How the page loop of a call on a valid bitmap ends. -/
inductive LoopResult (op : BmOp) (b : BsrBitmap) (idx start stop : Nat) (src : List (BitVec 32)) :
    List Page × LoopEnd → Prop
  | ret {pages : List Page} {r : Nat} (hfind : op.isFind = true)
      (hlen : pages.length = b.bmPages.length) (hmem : memBit pages = memBit b.bmPages)
      (hmatch : FirstMatch b idx start stop op.want r) :
      LoopResult op b idx start stop src (pages, .ret r)
  | done {pages : List Page} {s : Scan} (h : LoopDone op b idx start stop src pages s) :
      LoopResult op b idx start stop src (pages, .done s)

/-- What the callers of `____bm_op` promise about the buffer: MERGE and EXTRACT start on a word, and
MERGE has a word for every word of the range. -/
structure BufferOk (op : BmOp) (b : BsrBitmap) (start stop : Nat) (src : List (BitVec 32)) :
    Prop where
  aligned : op = .merge ∨ op = .extract → start % 32 = 0
  enough : op = .merge → (rangeEnd b stop - start + 31) / 32 ≤ src.length

variable {op : BmOp} {b : BsrBitmap} {idx start stop : Nat} {src : List (BitVec 32)}

theorem pageLoop_empty (hstart : clipStop b stop < start) (hend : rangeEnd b stop ≤ start) :
    ∃ res, pageLoop op (32 * b.bmMaxPeers.val) (clipStop b stop) (b.bmPages.length + 1)
        (word32ToPage (interleavedWord32 b.bmMaxPeers.val idx start)) b.bmPages
        (initScan b idx start src) = .ok res ∧ LoopResult op b idx start stop src res := by
  refine ⟨(b.bmPages, .done (initScan b idx start src)), ?_, .done
    ⟨rfl, fun k => ?_, fun _ => ?_, fun _ => rfl, fun _ => ?_, fun _ j => ?_, fun _ i _ _ => ?_⟩⟩
  · rw [pageLoop, if_neg]
    exact Nat.not_le.mpr hstart
  · rw [image, if_neg (by omega)]
  · rw [opCount, show rangeEnd b stop - start = 0 by omega]
    rfl
  · rw [show rangeEnd b stop - start = 0 by omega]
    rfl
  · rw [show rangeEnd b stop - start = 0 by omega]
    simp [initScan, streamBit]
  · omega

theorem pageLoop_result (hv : b.Valid) (hbits : 0 < b.bmBits) (hidx : idx < b.bmMaxPeers.val)
    (htest : op ≠ .test) (hbuf : BufferOk op b start stop src) :
    ∃ res, pageLoop op (32 * b.bmMaxPeers.val) (clipStop b stop) (b.bmPages.length + 1)
        (word32ToPage (interleavedWord32 b.bmMaxPeers.val idx start)) b.bmPages
        (initScan b idx start src) = .ok res ∧ LoopResult op b idx start stop src res := by
  have hclip := clipStop_add_one hv hbits stop
  by_cases hstart : clipStop b stop < start
  · exact pageLoop_empty hstart (by omega)
  obtain ⟨hcursor, hpage⟩ := initScan_cursor b idx start src
  let c : Call := ⟨op, b.bmMaxPeers, idx, start, clipStop b stop, src, memBit b.bmPages, hidx,
    htest, hbuf.aligned, fun h => by rw [hclip]; exact hbuf.enough h⟩
  have hp : Progress op b.bmMaxPeers.val idx start src (memBit b.bmPages) start
      (memBit b.bmPages) { initScan b idx start src with count := 0 } := by
    refine ⟨le_rfl, (image_empty _ _ _ _ _ _).symm, ?_, ?_, fun _ => rfl, ?_, ?_, ?_⟩
    · rw [Nat.sub_self]
      cases op <;> rfl
    · intro _
      rw [Nat.sub_self]
      rfl
    · intro _
      rw [Nat.sub_self]
      rfl
    · intro _ j
      simp [initScan, streamBit]
    · intro _ i _ _
      omega
  have hroom : ∀ x ≤ c.stop, c.addr x / bitsPerPage < b.bmPages.length := by
    intro x hx
    have hx' : x < rangeEnd b stop := by
      rw [← hclip]
      exact Nat.lt_succ_of_le hx
    exact hv.page_lt hidx (lt_of_lt_of_le hx' (Nat.min_le_right _ _))
  have hfuel : b.bmPages.length < word32ToPage (interleavedWord32 b.bmMaxPeers.val idx start) +
      (b.bmPages.length + 1) := by
    omega
  obtain ⟨pages, fin, hloop, hended⟩ := Call.pageLoop_ended (b.bmPages.length + 1) hroom
    (by omega) hfuel hp (show start ≤ clipStop b stop + 1 by omega)
    (fun _ => ⟨hcursor, hpage, hbuf.aligned⟩)
  refine ⟨(pages, fin), hloop, ?_⟩
  cases hended with
  | ret hlen hmem hfound =>
    refine .ret hfound.isFind hlen hmem ⟨hfound.first_le, ?_, hfound.hit, hfound.least⟩
    rw [← hclip]
    exact Nat.lt_succ_of_le hfound.le_stop
  | @done s hlen hprogress =>
    have hend : c.stop + 1 = rangeEnd b stop := hclip
    rw [hend] at hprogress
    refine .done { hprogress with
      length_eq := hlen, mem := fun k => congrFun hprogress.mem k, total := fun hfind => ?_ }
    have hsum := hprogress.sum_eq
    have hop : c.op = op := rfl
    rw [show s.total = Scan.sum op { s with count := 0 } by
      cases op <;> first | rfl | cases hfind]
    exact hsum

/-! ## The operations -/

theorem bmOpInner_eq (b : BsrBitmap) (idx start stop : Nat) (op : BmOp) (src : List (BitVec 32)) :
    bmOpInner b idx start stop op src =
      match pageLoop op (32 * b.bmMaxPeers.val) (clipStop b stop) (b.bmPages.length + 1)
          (word32ToPage (interleavedWord32 b.bmMaxPeers.val idx start)) b.bmPages
          (initScan b idx start src) with
      | .error f => .error f
      | .ok (pages, .ret r) => .ok ⟨{ b with bmPages := pages }, r, []⟩
      | .ok (pages, .done s) =>
        .ok ⟨{ b with bmPages := pages, bmSet := setAfter op b idx s.total },
          match op with
          | .rangeFindBit | .rangeFindZeroBit => (stop + 1) % 2 ^ 64
          | .findBit | .findZeroBit => endOfBitmap
          | _ => s.total, s.out⟩ := by
  unfold bmOpInner clipStop initScan
  dsimp only
  generalize pageLoop _ _ _ _ _ _ _ = res
  rcases res with f | ⟨pages, r | s⟩
  · rfl
  · rfl
  · cases op <;> rfl

theorem bitsDone_of_image {pages : List Page} {set : Nat → Nat}
    (hmem : ∀ k, memBit pages k = image op b.bmMaxPeers.val idx start (rangeEnd b stop)
      (streamBit src) (memBit b.bmPages) k) :
    BitsDone op b { b with bmPages := pages, bmSet := set } idx start stop (streamBit src) := by
  intro slot hslot i
  show memBit pages (bitAddr b.bmMaxPeers.val slot i) = _
  rw [hmem, image, addrSlot_bitAddr hslot, addrBit_bitAddr hslot]
  rfl

/-- SET, CLEAR, COUNT, MERGE and EXTRACT on a valid bitmap. -/
structure OpDone (op : BmOp) (b : BsrBitmap) (idx start stop : Nat) (src : List (BitVec 32))
    (r : BmResult) : Prop where
  shape : b.SameShape r.bitmap
  bits : BitsDone op b r.bitmap idx start stop (streamBit src)
  ret_eq : r.ret = opCount op b idx start stop (streamBit src)
  set_eq : r.bitmap.bmSet = setAfter op b idx r.ret
  out_other : op ≠ .extract → r.out = []
  out_length : op = .extract → r.out.length = (rangeEnd b stop - start + 31) / 32
  out_bits : op = .extract → ∀ j, streamBit r.out j =
    (decide (j < rangeEnd b stop - start) && b.bit idx (start + j))

theorem bmOpInner_done (op : BmOp) (start stop : Nat) (src : List (BitVec 32)) (hv : b.Valid)
    (hbits : 0 < b.bmBits) (hidx : idx < b.bmMaxPeers.val)
    (htest : op ≠ .test) (hfind : op.isFind = false) (hbuf : BufferOk op b start stop src) :
    ∃ r, bmOpInner b idx start stop op src = .ok r ∧ OpDone op b idx start stop src r := by
  obtain ⟨_, hloop, hres⟩ := pageLoop_result hv hbits hidx htest hbuf
  rw [bmOpInner_eq, hloop]
  cases hres with
  | ret hfind' => rw [hfind] at hfind'; cases hfind'
  | @done pages s h =>
    refine ⟨_, rfl, ⟨rfl, rfl, rfl, rfl, h.length_eq⟩, bitsDone_of_image h.mem, ?_, ?_,
      h.out_other, h.out_length, h.out_bits⟩
    · rw [← h.total hfind]
      cases op <;> first | rfl | cases hfind
    · cases op <;> rfl

/-- What a search returns when nothing matches. -/
def findMiss (op : BmOp) (stop : Nat) : Nat :=
  match op with
  | .rangeFindBit | .rangeFindZeroBit => (stop + 1) % 2 ^ 64
  | _ => endOfBitmap

/-- A search on a valid bitmap: the first match of the range, or the operation's end marker. -/
structure FindDone (op : BmOp) (b : BsrBitmap) (idx start stop : Nat) (r : BmResult) : Prop where
  shape : b.SameShape r.bitmap
  bits : ∀ slot i, r.bitmap.bit slot i = b.bit slot i
  set_eq : r.bitmap.bmSet = b.bmSet
  answer : FirstMatch b idx start stop op.want r.ret ∨
    r.ret = findMiss op stop ∧ ∀ i, start ≤ i → i < rangeEnd b stop → b.bit idx i ≠ op.want

theorem bmOpInner_find (op : BmOp) (start stop : Nat) (src : List (BitVec 32)) (hv : b.Valid)
    (hbits : 0 < b.bmBits) (hidx : idx < b.bmMaxPeers.val) (hfind : op.isFind = true) :
    ∃ r, bmOpInner b idx start stop op src = .ok r ∧ FindDone op b idx start stop r := by
  have htest : op ≠ .test := by rintro rfl; cases hfind
  have hmerge : op ≠ .merge := by rintro rfl; cases hfind
  have hextract : op ≠ .extract := by rintro rfl; cases hfind
  have hbuf : BufferOk op b start stop src :=
    ⟨fun h => by rcases h with h | h <;> contradiction, fun h => absurd h hmerge⟩
  obtain ⟨_, hloop, hres⟩ := pageLoop_result hv hbits hidx htest hbuf
  rw [bmOpInner_eq, hloop]
  cases hres with
  | ret _ hlen hmem hmatch =>
    refine ⟨_, rfl, ⟨rfl, rfl, rfl, rfl, hlen⟩, fun slot i => ?_, rfl, .inl hmatch⟩
    exact congrFun hmem _
  | @done pages s h =>
    have hmem : ∀ k, memBit pages k = memBit b.bmPages k := by
      intro k
      rw [h.mem, image_find hfind]
    refine ⟨_, rfl, ⟨rfl, rfl, rfl, rfl, h.length_eq⟩, fun slot i => hmem _, ?_,
      .inr ⟨?_, h.miss hfind⟩⟩
    · cases op <;> first | rfl | cases hfind
    · cases op <;> first | rfl | cases hfind

end Bsr.Bitmap
