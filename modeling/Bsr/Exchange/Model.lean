import Bsr.Bitmap.Resize
import Bsr.Exchange.Vli

/-!
# Bitmap exchange

The two ends of a bitmap transfer, `_bsr_send_bitmap` in `bsr_main.c` and `receive_bitmap` in
`bsr_receiver.c`.

* Every packet is either a run of VLI coded run lengths (`P_COMPRESSED_BITMAP`) or a buffer full of
  plain 64-bit words (`P_BITMAP`); the sender chooses anew for every packet.
* Both ends keep a `bm_xfer_ctx` with a bit offset and a word offset.
* The transport delivers the packets in order; its errors end the connection and are not part of
  the model.
-/

namespace Bsr.Exchange

open Lib Bitmap

def socketBufferSize : Nat := 4096

def rangeFindNextBit : Nat := 25000000

/-- `bsr_header_size`: `struct p_header100` from protocol version 100 on, `struct p_header95`
before. -/
def bsrHeaderSize (agreedProVersion : Nat) : Nat :=
  if agreedProVersion ≥ 100 then 16 else 8

/-- `struct bm_xfer_ctx` without its statistics. -/
structure XferCtx where
  bmBits : Nat
  bmWords : Nat
  bitOffset : Nat
  wordOffset : Nat
deriving DecidableEq, Repr

variable (b : BsrBitmap)

def bsrBmWords : Nat :=
  if b.bmPages = [] then 0 else b.bmWords / b.bmMaxPeers.val

def XferCtx.init : XferCtx :=
  ⟨b.bmBits, bsrBmWords b, 0, 0⟩

/-- `bm_xfer_ctx_bit_to_word_offset`. -/
def XferCtx.bitToWordOffset (c : XferCtx) : XferCtx :=
  { c with wordOffset := c.bitOffset >>> 6 }

/-! ## `struct p_compressed_bm` -/

/-- `enum bsr_bitmap_code`. -/
def rleVliBits : BitVec 8 := 2

def dcbpSetCode (encoding code : BitVec 8) : BitVec 8 :=
  (encoding &&& ~~~0xf) ||| code

variable (encoding : BitVec 8)

def dcbpSetStart (set : Bool) : BitVec 8 :=
  (encoding &&& ~~~0x80) ||| (if set then 0x80 else 0)

def dcbpSetPadBits (n : Nat) : BitVec 8 :=
  (encoding &&& (~~~0x7#8 <<< 4)) ||| (BitVec.ofNat 8 n <<< 4)

def dcbpGetCode : BitVec 8 :=
  encoding &&& 0x0f

def dcbpGetStart : Bool :=
  encoding &&& 0x80 != 0

def dcbpGetPadBits : Nat :=
  ((encoding >>> 4) &&& 0x7).toNat

/-- The payload of a packet. -/
inductive Packet where
  | compressed (encoding : BitVec 8) (code : List Nat)
  | plain (words : List (BitVec 32))
deriving DecidableEq, Repr

/-! ## Sender -/

/-- The inner loop of `fill_bitmap_rle_bits`: the next bit that ends the run, looked for in pieces.
Returns the bitmap, `tmp` and `offset`. -/
def findRunEnd (idx bmBits toggle : Nat) : Nat → BsrBitmap → Nat → Except Fault (BsrBitmap × Nat × Nat)
  | 0, _, _ => .error .noReturn
  | fuel + 1, b, offset =>
    let op := if toggle = 0 then BmOp.rangeFindZeroBit else BmOp.rangeFindBit
    match bmOp b idx offset (offset + rangeFindNextBit) op [] with
    | .error f => .error f
    | .ok r =>
      if r.ret ≥ bmBits ∨ r.ret < offset + rangeFindNextBit + 1 then .ok (r.bitmap, r.ret, offset)
      else findRunEnd idx bmBits toggle fuel r.bitmap r.ret

/-- The variables of the outer loop of `fill_bitmap_rle_bits`. -/
structure RleState where
  bitmap : BsrBitmap
  ctx : XferCtx
  encoding : BitVec 8
  bs : Bitstream
  plainBits : Nat
  toggle : Nat

/-- How the outer loop of `fill_bitmap_rle_bits` is left: behind the loop, with `return 0` or with
`return -1`. -/
inductive RleExit where
  | behind (s : RleState)
  | returnZero (s : RleState)
  | returnError (s : RleState)

/-- The end of one round of that loop: on to the loop condition, also by `continue`, or out. -/
inductive RleRound where
  | next (s : RleState)
  | leave (exit : RleExit)

/-- The state after the run up to `tmp` has gone into the bit stream. -/
def RleState.put (s : RleState) (bs : Bitstream) (tmp : Nat) : RleState where
  bitmap := s.bitmap
  ctx := { s.ctx with bitOffset := tmp }
  encoding := s.encoding
  bs := bs
  plainBits := s.plainBits + (tmp - s.ctx.bitOffset)
  toggle := if s.toggle = 0 then 1 else 0

/-- The second half of a round: encode the run up to `tmp`. -/
def encodeRun (s : RleState) (tmp : Nat) : RleRound :=
  match vliEncodeBits s.bs (tmp - s.ctx.bitOffset) with
  | .error .enobufs => .leave (.behind s)
  | .error _ => .leave (.returnZero s)
  | .ok bs => .next (s.put bs tmp)

/-- One round of the outer loop of `fill_bitmap_rle_bits`. -/
def rleRound (idx : Nat) (s : RleState) : Except Fault RleRound :=
  match findRunEnd idx s.ctx.bmBits s.toggle (s.ctx.bmBits + 1) s.bitmap s.ctx.bitOffset with
  | .error f => .error f
  | .ok (b, tmp, offset) =>
    let tmp := if tmp > s.ctx.bmBits then s.ctx.bmBits else tmp
    let s := { s with bitmap := b }
    if s.toggle = 2 ∧ tmp - s.ctx.bitOffset = 0 then
      -- the first bit is set: store the start value and skip the empty run
      .ok (.next { s with encoding := dcbpSetStart s.encoding true, toggle := 0 })
    else
      let s := if s.toggle = 2 then { s with encoding := dcbpSetStart s.encoding false } else s
      if tmp - s.ctx.bitOffset = 0 then
        -- only if the bitmap is modified while it is scanned
        if s.toggle = 0 then
          match bmOp s.bitmap idx offset offset .set [] with
          | .error f => .error f
          | .ok r => .ok (.next { s with bitmap := r.bitmap })
        else .ok (.leave (.returnError s))
      else .ok (encodeRun s tmp)

/-- The outer loop of `fill_bitmap_rle_bits`. -/
def rleLoop (idx : Nat) : Nat → RleState → Except Fault RleExit
  | 0, _ => .error .noReturn
  | fuel + 1, s =>
    match rleRound idx s with
    | .error f => .error f
    | .ok (.leave exit) => .ok exit
    | .ok (.next s) =>
      if s.ctx.bitOffset < s.ctx.bmBits then rleLoop idx fuel s else .ok (.behind s)

/-- What `fill_bitmap_rle_bits` leaves behind; `len = none` is the error return. -/
structure FillResult where
  bitmap : BsrBitmap
  ctx : XferCtx
  encoding : BitVec 8
  code : List Nat
  len : Option Nat

/-- The end of `fill_bitmap_rle_bits`, behind the loop. -/
def finishFill (s : RleState) : FillResult :=
  let len := s.bs.curByte + (if s.bs.curBit = 0 then 0 else 1)
  if s.plainBits < len <<< 3 then
    -- incompressible with this method: rewind both word and bit position
    let c := { s.ctx with bitOffset := s.ctx.bitOffset - s.plainBits }
    let c := c.bitToWordOffset
    ⟨s.bitmap, { c with bitOffset := c.wordOffset * 64 }, s.encoding, s.bs.buf, some 0⟩
  else
    ⟨s.bitmap, s.ctx.bitToWordOffset, dcbpSetPadBits s.encoding ((8 - s.bs.curBit) &&& 0x7),
      s.bs.buf, some len⟩

/-- `fill_bitmap_rle_bits`; the code buffer has been allocated with zeroes. -/
def fillBitmapRleBits (idx : Nat) (useRle : Bool) (agreedProVersion size : Nat)
    (c : XferCtx) : Except Fault FillResult :=
  if useRle = false ∨ agreedProVersion < 90 then .ok ⟨b, c, 0, List.replicate size 0, some 0⟩
  else if c.bitOffset ≥ c.bmBits then .ok ⟨b, c, 0, List.replicate size 0, some 0⟩
  else
    match rleLoop idx (c.bmBits + 2) ⟨b, c, 0, bitstreamInit (List.replicate size 0) 0, 0, 2⟩ with
    | .error f => .error f
    | .ok (.returnZero s) => .ok ⟨s.bitmap, s.ctx, s.encoding, s.bs.buf, some 0⟩
    | .ok (.returnError s) => .ok ⟨s.bitmap, s.ctx, s.encoding, s.bs.buf, none⟩
    | .ok (.behind s) => .ok (finishFill s)

/-- The bytes of a buffer as 32-bit words. -/
def wordsOfBytes : List Nat → List (BitVec 32)
  | w :: x :: y :: z :: rest =>
    BitVec.ofNat 32 (w + 256 * x + 65536 * y + 16777216 * z) :: wordsOfBytes rest
  | _ => []

/-- Return of the two ends: 0 when done, 1 when another packet is needed, negative on an error. -/
inductive XferRet where
  | done
  | more
  | eio
deriving DecidableEq, Repr

/-- One call of `send_bitmap_rle_or_plain`. -/
structure SendResult where
  bitmap : BsrBitmap
  ctx : XferCtx
  packet : Option Packet
  ret : XferRet

/-- The plain branch of `send_bitmap_rle_or_plain`. The words are copied over the contents of the
code buffer, and stay as they are beyond the end of the bitmap. -/
def sendPlain (f : FillResult) (idx headerSize : Nat) : Except Fault SendResult :=
  let c := f.ctx
  let dataSize := socketBufferSize - headerSize
  let numWords := min (dataSize / 8) (c.bmWords - c.wordOffset)
  let buffer := wordsOfBytes (f.encoding.toNat :: f.code)
  let copied : Except Fault (BsrBitmap × List (BitVec 32)) :=
    if numWords = 0 then .ok (f.bitmap, buffer)
    else (bsrBmGetLel f.bitmap idx c.wordOffset numWords).map
      (fun r => (r.bitmap, r.out ++ buffer.drop r.out.length))
  match copied with
  | .error e => .error e
  | .ok (b, buffer) =>
    let c := { c with wordOffset := c.wordOffset + numWords }
    let c := { c with bitOffset := c.wordOffset * 64 }
    let c := if c.bitOffset > c.bmBits then { c with bitOffset := c.bmBits } else c
    .ok ⟨b, c, some (.plain (buffer.take (2 * numWords))), if numWords = 0 then .done else .more⟩

def sendBitmapRleOrPlain (idx : Nat) (useRle : Bool) (agreedProVersion : Nat)
    (c : XferCtx) : Except Fault SendResult :=
  let headerSize := bsrHeaderSize agreedProVersion
  match fillBitmapRleBits b idx useRle agreedProVersion (socketBufferSize - headerSize - 1) c with
  | .error f => .error f
  | .ok f =>
    match f.len with
    | none => .ok ⟨f.bitmap, f.ctx, none, .eio⟩
    | some 0 => sendPlain f idx headerSize
    | some (len + 1) =>
      let packet := Packet.compressed (dcbpSetCode f.encoding rleVliBits) (f.code.take (len + 1))
      .ok ⟨f.bitmap, f.ctx, some packet,
        if f.ctx.bitOffset ≥ f.ctx.bmBits then .done else .more⟩

/-- The loop of `_bsr_send_bitmap` from packet `n` on. The setting `use_rle` may change from packet
to packet; the result lists every packet with the context behind it. -/
def sendLoop (idx agreedProVersion : Nat) (useRle : Nat → Bool) : Nat → Nat → BsrBitmap → XferCtx →
    Except Fault (BsrBitmap × List (Packet × XferCtx) × XferRet)
  | 0, _, _, _ => .error .noReturn
  | fuel + 1, n, b, c =>
    match sendBitmapRleOrPlain b idx (useRle n) agreedProVersion c with
    | .error f => .error f
    | .ok r =>
      let sent := r.packet.toList.map (fun p => (p, r.ctx))
      if r.ret = .more then
        match sendLoop idx agreedProVersion useRle fuel (n + 1) r.bitmap r.ctx with
        | .error f => .error f
        | .ok (b, rest, ret) => .ok (b, sent ++ rest, ret)
      else .ok (r.bitmap, sent, r.ret)

/-- `_bsr_send_bitmap`, with enough rounds for every bitmap. -/
def bsrSendBitmap (idx agreedProVersion : Nat) (useRle : Nat → Bool) :
    Except Fault (BsrBitmap × List (Packet × XferCtx) × XferRet) :=
  sendLoop idx agreedProVersion useRle (b.bmBits + bsrBmWords b + 1) 0 b (XferCtx.init b)

/-! ## Receiver -/

/-- What the receiver does with one packet. -/
structure RecvResult where
  bitmap : BsrBitmap
  ctx : XferCtx
  ret : XferRet

def receiveBitmapPlain (idx headerSize : Nat) (words : List (BitVec 32)) (c : XferCtx) :
    Except Fault RecvResult :=
  let dataSize := socketBufferSize - headerSize
  let numWords := min (dataSize / 8) (c.bmWords - c.wordOffset)
  if numWords * 8 ≠ words.length * 4 then .ok ⟨b, c, .eio⟩
  else if numWords = 0 then .ok ⟨b, c, .done⟩
  else
    match bsrBmMergeLel b idx c.wordOffset numWords words with
    | .error f => .error f
    | .ok r =>
      let c := { c with wordOffset := c.wordOffset + numWords }
      let c := { c with bitOffset := c.wordOffset * 64 }
      let c := if c.bitOffset > c.bmBits then { c with bitOffset := c.bmBits } else c
      .ok ⟨r.bitmap, c, .more⟩

/-- The variables of the loop of `recv_bm_rle_bits`. -/
structure DecodeState where
  bitmap : BsrBitmap
  bs : Bitstream
  lookAhead : Nat
  haveBits : Nat
  s : Nat
  toggle : Bool

/-- The loop of `recv_bm_rle_bits`; `none` is `return -EIO`, with the bitmap as it is then. -/
def decodeLoop (idx bmBits : Nat) : Nat → DecodeState → Except Fault (BsrBitmap × Option Nat)
  | 0, _ => .error .noReturn
  | fuel + 1, d =>
    if d.haveBits = 0 then .ok (d.bitmap, some d.s)
    else
      match vliDecodeBits d.lookAhead with
      | none => .error .bug
      | some (bits, rl) =>
        if bits = 0 then .ok (d.bitmap, none)
        else if d.toggle = true ∧ d.s + rl - 1 ≥ bmBits then .ok (d.bitmap, none)
        else
          let marked : Except Fault BsrBitmap :=
            if d.toggle then bmManyBitsOp d.bitmap idx d.s (d.s + rl - 1) .set else .ok d.bitmap
          match marked with
          | .error f => .error f
          | .ok b =>
            if d.haveBits < bits then .ok (b, none)
            else
              let lookAhead := if bits < 64 then d.lookAhead >>> bits else 0
              let haveBits := d.haveBits - bits
              match bitstreamGetBits d.bs (64 - haveBits) with
              | none => .ok (b, none)
              | some (tmp, got, bs) =>
                decodeLoop idx bmBits fuel
                  ⟨b, bs, lookAhead ||| ((tmp <<< haveBits) % 2 ^ 64), haveBits + got, d.s + rl,
                    !d.toggle⟩

/-- `recv_bm_rle_bits`; every round takes at least one bit of the code. -/
def recvBmRleBits (idx : Nat) (encoding : BitVec 8) (code : List Nat) (c : XferCtx) :
    Except Fault RecvResult :=
  match bitstreamGetBits (bitstreamInit code (dcbpGetPadBits encoding)) 64 with
  | none => .ok ⟨b, c, .eio⟩
  | some (lookAhead, haveBits, bs) =>
    match decodeLoop idx c.bmBits (8 * code.length + 1)
        ⟨b, bs, lookAhead, haveBits, c.bitOffset, dcbpGetStart encoding⟩ with
    | .error f => .error f
    | .ok (b, none) => .ok ⟨b, c, .eio⟩
    | .ok (b, some s) =>
      .ok ⟨b, XferCtx.bitToWordOffset { c with bitOffset := s }, if s ≠ c.bmBits then .more else .done⟩

/-- `receive_bitmap` on one packet, with `decode_bitmap_c`. -/
def receiveBitmap (idx agreedProVersion : Nat) (p : Packet) (c : XferCtx) :
    Except Fault RecvResult :=
  let headerSize := bsrHeaderSize agreedProVersion
  match p with
  | .plain words => receiveBitmapPlain b idx headerSize words c
  | .compressed encoding code =>
    if 1 + code.length > socketBufferSize - headerSize then .ok ⟨b, c, .eio⟩
    else if 1 + code.length ≤ 1 then .ok ⟨b, c, .eio⟩
    else if dcbpGetCode encoding = rleVliBits then recvBmRleBits b idx encoding code c
    else .ok ⟨b, c, .eio⟩

/-- The packets of a transfer, one after the other; the result lists the return and the context
behind every packet. -/
def receiveAll (idx agreedProVersion : Nat) :
    List Packet → BsrBitmap → XferCtx → Except Fault (BsrBitmap × List (XferRet × XferCtx))
  | [], b, _ => .ok (b, [])
  | p :: ps, b, c =>
    match receiveBitmap b idx agreedProVersion p c with
    | .error f => .error f
    | .ok r =>
      match receiveAll idx agreedProVersion ps r.bitmap r.ctx with
      | .error f => .error f
      | .ok (b, rest) => .ok (b, (r.ret, r.ctx) :: rest)

end Bsr.Exchange
