import Bsr.Bitmap.Layout

/-!
# The bitmap and its one operation

`____bm_op` is the only function that touches bitmap words. It walks over the words of one slot,
page by page, with a head (partial first word), a word-at-a-time loop and a tail (partial last
word). The model keeps that structure:

* `Page` is one page of little-endian 32-bit words with its two write-out marks;
* `Scan` is the set of local variables of `____bm_op`;
* `headPart`, `wordStep`, `wordLoop`, `tailPart` and `pageLoop` are its parts;
* `bmOpInner` (`____bm_op`) and `bmOp` (`__bm_op`) put them together.

An access outside `bm_pages`, a read past the end of the caller's buffer and `BUG()` are faults.
-/

namespace Bsr.Bitmap

open Lib

instance : NeZero wordsPerPage := ⟨by decide⟩

/-- One bitmap page: its words and the marks `bm_set_page_need_writeout` and
`bm_set_page_lazy_writeout` leave on it. -/
structure Page where
  word : Fin wordsPerPage → BitVec 32
  needWriteout : Bool
  lazyWriteout : Bool

namespace Page

/-- A freshly allocated page (`__GFP_ZERO`). -/
def zero : Page := ⟨fun _ => 0, false, false⟩

variable (p : Page)

/-- The word that holds bit `bit` of the page. -/
def wordAt (bit : Nat) : BitVec 32 :=
  p.word (Fin.ofNat wordsPerPage (bit >>> 5))

/-- Store a word at bit position `bit`. -/
def setWordAt (bit : Nat) (v : BitVec 32) : Page :=
  { p with word := Function.update p.word (Fin.ofNat wordsPerPage (bit >>> 5)) v }

/-- `test_bit_le`. -/
def testBit (bit : Nat) : Bool :=
  (p.wordAt bit).getLsbD (bit % 32)

/-- The store of `__test_and_set_bit_le`. -/
def setBit (bit : Nat) : Page :=
  p.setWordAt bit (p.wordAt bit ||| BitVec.twoPow 32 (bit % 32))

/-- The store of `__test_and_clear_bit_le`. -/
def clearBit (bit : Nat) : Page :=
  p.setWordAt bit (p.wordAt bit &&& ~~~(BitVec.twoPow 32 (bit % 32)))

/-- `find_next_bit_le` for `want = true`, `find_next_zero_bit_le` for `want = false`. -/
def findNext (want : Bool) (size offset : Nat) : Nat :=
  if size ≤ offset then size else findFrom (fun k => p.testBit k == want) (size - offset) offset

end Page

/-- `enum bitmap_operations`. -/
inductive BmOp
  | clear
  | set
  | test
  | count
  | merge
  | extract
  | findBit
  | findZeroBit
  | rangeFindBit
  | rangeFindZeroBit
  deriving DecidableEq, Repr

/-- Ways in which an operation fails instead of returning. -/
inductive Fault
  /-- `BUG()` or a failed `BUG_ON`. -/
  | bug
  /-- `bm_pages[page]` with `page` at or above `bm_number_of_pages`. -/
  | pageIndex (page : Nat)
  /-- `*buffer++` past the end of the caller's buffer. -/
  | buffer
  /-- A loop that does not come to an end. -/
  | noReturn
  deriving DecidableEq, Repr

/-- Local variables of `____bm_op`: the cursor, the mapped page, the two counters, what is left to
read from `buffer` (MERGE) and what was written to it (EXTRACT). -/
structure Scan where
  start : Nat
  bitInPage : Nat
  page : Page
  count : Nat
  total : Nat
  src : List (BitVec 32)
  out : List (BitVec 32)

/-- Where control goes after a part of the loop body. -/
inductive Flow
  /-- On to the next part. -/
  | fall (s : Scan)
  /-- `goto next_page`. -/
  | nextPage (s : Scan)
  /-- `return r`: `goto found`, or the early return of `BM_OP_TEST`. -/
  | ret (r : Nat)

namespace Scan

variable (op : BmOp)

/-- One round of the bit-at-a-time loops of the head and the tail. -/
def bitStep (s : Scan) : Scan :=
  let old := s.page.testBit s.bitInPage
  let s := { s with bitInPage := s.bitInPage + 1 }
  match op with
  | .clear =>
    { s with page := s.page.clearBit (s.bitInPage - 1),
             count := if old then s.count + 1 else s.count }
  | .set =>
    { s with page := s.page.setBit (s.bitInPage - 1),
             count := if old then s.count else s.count + 1 }
  | .count => { s with total := if old then s.total + 1 else s.total }
  | _ => s

/-- `n` rounds of the bit-at-a-time loop. -/
def bitLoop (op : BmOp) : Nat → Scan → Scan
  | 0, s => s
  | n + 1, s => bitLoop op n (s.bitStep op)

/-- `count = find_next_(zero_)bit_le(addr, limit, bit_in_page); if (count < limit) goto found;` -/
def find (s : Scan) (want : Bool) (limit : Nat) (s' : Scan → Scan) : Flow :=
  let count := s.page.findNext want limit s.bitInPage
  if count < limit then .ret (s.start + count - s.bitInPage)
  else .fall (s' { s with count := count })

/-- The head of the loop body: the bits up to the end of a partial first word. -/
def headPart (op : BmOp) (s : Scan) : Except Fault Flow :=
  let last := s.bitInPage ||| 31
  match op with
  | .clear | .set | .count => .ok (.fall (s.bitLoop op (last + 1 - s.bitInPage)))
  | .test => .ok (.ret (if s.page.testBit s.bitInPage then 1 else 0))
  | .merge | .extract => .error .bug
  | .findBit | .rangeFindBit =>
    .ok (s.find true (last + 1) (fun s => { s with bitInPage := last + 1 }))
  | .findZeroBit | .rangeFindZeroBit =>
    .ok (s.find false (last + 1) (fun s => { s with bitInPage := last + 1 }))

/-- One round of the word-at-a-time loop, up to the advance of the cursor. -/
def wordStep (s : Scan) : Except Fault Flow :=
  let p := s.page.wordAt s.bitInPage
  match op with
  | .clear =>
    .ok (.fall { s with count := s.count + hweight p, page := s.page.setWordAt s.bitInPage 0 })
  | .set =>
    .ok (.fall { s with count := s.count + hweight (~~~p),
                        page := s.page.setWordAt s.bitInPage (BitVec.allOnes 32) })
  | .test => .error .bug
  | .count => .ok (.fall { s with total := s.total + hweight p })
  | .merge =>
    match s.src with
    | [] => .error .buffer
    | b :: rest =>
      .ok (.fall { s with count := s.count + hweight (~~~p &&& b),
                          page := s.page.setWordAt s.bitInPage (p ||| b), src := rest })
  | .extract => .ok (.fall { s with out := s.out ++ [p] })
  | .findBit | .rangeFindBit => .ok (s.find true (s.bitInPage + 32) id)
  | .findZeroBit | .rangeFindZeroBit => .ok (s.find false (s.bitInPage + 32) id)

/-- The cursor moves to the next word of the slot, which may lie on the next page. -/
def advance (start bitInPage : Nat) (s : Scan) : Flow :=
  if bitsPerPage ≤ bitInPage then .nextPage { s with start := start, bitInPage := bitInPage }
  else .fall { s with start := start, bitInPage := bitInPage }

/-- `while (start + 31 <= end)`. A page has `wordsPerPage` words, so that many rounds suffice. -/
def wordLoop (op : BmOp) (skip stop : Nat) : Nat → Scan → Except Fault Flow
  | 0, _ => .error .noReturn
  | fuel + 1, s =>
    if s.start + 31 ≤ stop then
      match s.wordStep op with
      | .ok (.fall s) =>
        match s.advance (s.start + 32) (s.bitInPage + skip) with
        | .fall s => wordLoop op skip stop fuel s
        | flow => .ok flow
      | res => res
    else .ok (.fall s)

/-- The tail of the loop body: the bits of a partial last word. -/
def tailPart (op : BmOp) (stop : Nat) (s : Scan) : Except Fault Flow :=
  let n := stop - s.start + 1
  match op with
  | .clear | .set | .count | .test =>
    .ok (.nextPage { s.bitLoop op n with start := s.start + n })
  | .merge =>
    match s.src with
    | [] => .error .buffer
    | b :: rest =>
      let p := s.page.wordAt s.bitInPage
      let b := b &&& lowMask 32 n
      .ok (.nextPage { s with count := s.count + hweight (~~~p &&& b),
                              page := s.page.setWordAt s.bitInPage (p ||| b),
                              src := rest, start := stop + 1 })
  | .extract =>
    .ok (.nextPage { s with out := s.out ++ [s.page.wordAt s.bitInPage &&& lowMask 32 n],
                            start := stop + 1 })
  | .findBit | .rangeFindBit =>
    .ok (s.find true (s.bitInPage + (stop - s.start) + 1) (fun s => { s with start := stop + 1 }))
  | .findZeroBit | .rangeFindZeroBit =>
    .ok (s.find false (s.bitInPage + (stop - s.start) + 1) (fun s => { s with start := stop + 1 }))

/-- The loop body on one mapped page. -/
def pageBody (skip stop : Nat) (s : Scan) : Except Fault Flow := do
  let flow ←
    if (s.start &&& 31 ≠ 0 ∧ s.start ||| 31 ≤ stop) ∨ op = .test then
      match ← s.headPart op with
      | .fall s => pure (s.advance ((s.start ||| 31) + 1) (s.bitInPage + skip - 32))
      | flow => pure flow
    else pure (.fall s)
  match flow with
  | .fall s =>
    match ← s.wordLoop op skip stop (wordsPerPage + 1) with
    | .fall s => if s.start > stop then pure (.nextPage s) else s.tailPart op stop
    | flow => pure flow
  | flow => pure flow

/-- The code at `next_page`: mark the page and move the page's count into the total. -/
def leavePage (s : Scan) : Scan :=
  let s := { s with bitInPage := s.bitInPage - bitsPerPage }
  match op with
  | .clear =>
    if s.count ≠ 0 then
      { s with page := { s.page with lazyWriteout := true }, total := s.total + s.count }
    else s
  | .set | .merge =>
    if s.count ≠ 0 then
      { s with page := { s.page with needWriteout := true }, total := s.total + s.count }
    else s
  | _ => s

end Scan

/-- How the page loop ends: by `return r`, or with the locals it leaves behind. -/
inductive LoopEnd
  | ret (r : Nat)
  | done (s : Scan)

/-- `for (; start <= end; page++)`. Every round needs one more page, so `bm_number_of_pages + 1`
rounds reach the end or fault. -/
def pageLoop (op : BmOp) (skip stop : Nat) :
    Nat → Nat → List Page → Scan → Except Fault (List Page × LoopEnd)
  | 0, _, _, _ => .error .noReturn
  | fuel + 1, page, pages, s =>
    if s.start ≤ stop then
      match pages[page]? with
      | none => .error (.pageIndex page)
      | some addr =>
        match Scan.pageBody op skip stop { s with page := addr, count := 0 } with
        | .error f => .error f
        | .ok (.ret r) => .ok (pages, .ret r)
        | .ok (.fall s) | .ok (.nextPage s) =>
          let s := s.leavePage op
          pageLoop op skip stop fuel (page + 1) (pages.set page s.page) s
    else .ok (pages, .done s)

/-- `struct bsr_bitmap`. `bmPages` holds `bm_number_of_pages` pages; `[]` stands for `NULL`. -/
structure BsrBitmap where
  bmMaxPeers : PeerSlots
  bmBits : Nat
  bmWords : Nat
  bmDevCapacity : Nat
  bmPages : List Page
  bmSet : Nat → Nat

/-- A bitmap as `bsr_bm_alloc` creates it, with the number of slots attaching a disk gives it. -/
def bsrBmAlloc (slots : PeerSlots) : BsrBitmap :=
  ⟨slots, 0, 0, 0, [], fun _ => 0⟩

/-- What an operation returns: the bitmap, the return value and the words put into `buffer`. -/
structure BmResult where
  bitmap : BsrBitmap
  ret : Nat
  out : List (BitVec 32)

/-- `____bm_op`. Subtractions and additions that can wrap do so in 64 bits. -/
def bmOpInner (b : BsrBitmap) (idx start stop : Nat) (op : BmOp) (buffer : List (BitVec 32)) :
    Except Fault BmResult :=
  let realEnd := (stop + 1) % 2 ^ 64
  let stop := if stop ≥ b.bmBits then (b.bmBits + (2 ^ 64 - 1)) % 2 ^ 64 else stop
  let word := interleavedWord32 b.bmMaxPeers.val idx start
  let bitInPage := (word32InPage word <<< 5) ||| (start &&& 31)
  match pageLoop op (32 * b.bmMaxPeers.val) stop (b.bmPages.length + 1) (word32ToPage word)
      b.bmPages ⟨start, bitInPage, Page.zero, 0, 0, buffer, []⟩ with
  | .error f => .error f
  | .ok (pages, .ret r) => .ok ⟨{ b with bmPages := pages }, r, []⟩
  | .ok (pages, .done s) =>
    let b := { b with bmPages := pages }
    let set := b.bmSet idx
    match op with
    | .clear =>
      .ok ⟨{ b with bmSet := Function.update b.bmSet idx ((set + (2 ^ 64 - s.total)) % 2 ^ 64) },
        s.total, s.out⟩
    | .set | .merge =>
      .ok ⟨{ b with bmSet := Function.update b.bmSet idx ((set + s.total) % 2 ^ 64) },
        s.total, s.out⟩
    | .rangeFindBit | .rangeFindZeroBit => .ok ⟨b, realEnd, s.out⟩
    | .findBit | .findZeroBit => .ok ⟨b, endOfBitmap, s.out⟩
    | .test | .count | .extract => .ok ⟨b, s.total, s.out⟩

/-- `__bm_op` on a device that has a bitmap: nothing is done on a bitmap without pages or bits. -/
def bmOp (b : BsrBitmap) (idx start stop : Nat) (op : BmOp) (buffer : List (BitVec 32)) :
    Except Fault BmResult :=
  if b.bmPages = [] ∨ b.bmBits = 0 then .ok ⟨b, 0, []⟩
  else bmOpInner b idx start stop op buffer

end Bsr.Bitmap
