import Bsr.Exchange.Sender

/-!
# The packets of the sender

`PacketFor` says what a packet of either kind tells the receiver about the bits of the sender and
where the two contexts go; `sendBitmapRleOrPlain_spec` shows that every packet is such a packet.
-/

namespace Bsr.Exchange

open Lib Bitmap

/-! ## Contexts -/

/-- A context at a packet boundary. In front of the end the word offset is the word of the bit
offset; at the end all bits lie below the word offset. -/
structure CtxOk (b : BsrBitmap) (c : XferCtx) : Prop where
  bits_eq : c.bmBits = b.bmBits
  words_eq : c.bmWords = bsrBmWords b
  word_le : c.wordOffset ≤ c.bmWords
  place : c.bitOffset < c.bmBits ∧ c.wordOffset = c.bitOffset / 64 ∨
    c.bitOffset = c.bmBits ∧ c.bmBits ≤ 64 * c.wordOffset

open List

theorem bsrBmWords_eq {b : BsrBitmap} (hv : b.Valid) : bsrBmWords b = 2 * ((b.bmBits + 63) / 64) := by
  unfold bsrBmWords
  split
  · -- without pages there are no words, hence no bits
    rename_i hnil
    have hpages := hv.pages_eq
    rw [hnil, BsrBitmap.pagesFor_eq, hv.words_eq, BsrBitmap.wordsFor_eq] at hpages
    have hpos := b.bmMaxPeers.pos
    have hmul : 2 * ((b.bmBits + 63) / 64) ≤ 2 * ((b.bmBits + 63) / 64) * b.bmMaxPeers.val :=
      Nat.le_mul_of_pos_right _ hpos
    simp only [length_nil] at hpages
    omega
  · rw [hv.words_eq, BsrBitmap.wordsFor_eq, Nat.mul_div_cancel _ b.bmMaxPeers.pos]

theorem CtxOk.of_untouched {b b' : BsrBitmap} {c : XferCtx} (h : CtxOk b c) (hv : b.Valid)
    (hu : Untouched b b') : CtxOk b' c where
  bits_eq := h.bits_eq.trans hu.shape.bits.symm
  words_eq := by
    rw [h.words_eq, bsrBmWords_eq hv, bsrBmWords_eq (hv.of_sameShape hu.shape), hu.shape.bits]
  word_le := h.word_le
  place := h.place

open XferCtx

theorem ctxOk_init {b : BsrBitmap} : CtxOk b (init b) where
  bits_eq := rfl
  words_eq := rfl
  word_le := Nat.zero_le _
  place := by
    rcases Nat.eq_zero_or_pos b.bmBits with h | h
    · exact .inr ⟨h.symm, h.le⟩
    · exact .inl ⟨h, (Nat.zero_div 64).symm⟩

/-- Number of 64-bit words of the next plain packet, which both ends compute from their contexts. -/
def plainWords (agreedProVersion : Nat) (c : XferCtx) : Nat :=
  min ((socketBufferSize - bsrHeaderSize agreedProVersion) / 8) (c.bmWords - c.wordOffset)

variable (c : XferCtx)

/-- The context behind a plain packet of `n` words. -/
def XferCtx.plainNext (n : Nat) : XferCtx :=
  ⟨c.bmBits, c.bmWords, min ((c.wordOffset + n) * 64) c.bmBits, c.wordOffset + n⟩

/-- The context behind a compressed packet that ends at bit `o`. -/
def XferCtx.rleNext (o : Nat) : XferCtx :=
  ⟨c.bmBits, c.bmWords, o, o / 64⟩

theorem plainNext_eq (n : Nat) : (let c := { c with wordOffset := c.wordOffset + n }
     let c := { c with bitOffset := c.wordOffset * 64 }
     if c.bitOffset > c.bmBits then { c with bitOffset := c.bmBits } else c) = c.plainNext n := by
  dsimp only [plainNext]
  split
  · rw [Nat.min_eq_right (by omega)]
  · rw [Nat.min_eq_left (by omega)]

theorem bitToWordOffset_eq (o : Nat) :
    bitToWordOffset { c with bitOffset := o } = c.rleNext o := by
  simp [bitToWordOffset, rleNext, Nat.shiftRight_eq_div_pow]

theorem bsrHeaderSize_cases (v : Nat) : bsrHeaderSize v = 16 ∨ bsrHeaderSize v = 8 := by
  unfold bsrHeaderSize
  split
  · exact .inl rfl
  · exact .inr rfl

section Boundary

variable {b : BsrBitmap} {c : XferCtx} {agreedProVersion : Nat}

theorem CtxOk.plainNext (h : CtxOk b c) : CtxOk b (c.plainNext (plainWords agreedProVersion c)) := by
  have hle : plainWords agreedProVersion c ≤ c.bmWords - c.wordOffset := Nat.min_le_right _ _
  have hword := h.word_le
  constructor
  · exact h.bits_eq
  · exact h.words_eq
  · show c.wordOffset + _ ≤ c.bmWords
    omega
  · show min _ c.bmBits < c.bmBits ∧ c.wordOffset + _ = min _ c.bmBits / 64 ∨
      min _ c.bmBits = c.bmBits ∧ c.bmBits ≤ 64 * (c.wordOffset + _)
    omega

theorem plainWords_eq_zero : plainWords agreedProVersion c = 0 ↔ c.bmWords ≤ c.wordOffset := by
  have hroom : 0 < (socketBufferSize - bsrHeaderSize agreedProVersion) / 8 := by
    rcases bsrHeaderSize_cases agreedProVersion with h | h <;> rw [h] <;> decide
  unfold plainWords
  omega

/-- When there is no word left, the transfer is at its end and an empty packet changes nothing. -/
theorem CtxOk.plain_end (h : CtxOk b c) (hv : b.Valid) (hzero : plainWords agreedProVersion c = 0) :
    c.plainNext (plainWords agreedProVersion c) = c ∧ c.bitOffset = c.bmBits ∧
      c.bmBits ≤ c.wordOffset * 64 := by
  have hwords := bsrBmWords_eq hv
  have hbits := h.bits_eq
  have hw := h.words_eq
  have hplace := h.place
  have hnone := plainWords_eq_zero.mp hzero
  have hoffset : c.bitOffset = c.bmBits := by omega
  have hend : c.bmBits ≤ c.wordOffset * 64 := by omega
  have hmin : min ((c.wordOffset + 0) * 64) c.bmBits = c.bitOffset := by omega
  refine ⟨?_, hoffset, hend⟩
  rw [hzero, XferCtx.plainNext, hmin, Nat.add_zero]

theorem CtxOk.rleNext (h : CtxOk b c) (hv : b.Valid) {o : Nat} (ho : o < c.bmBits) :
    CtxOk b (c.rleNext o) := by
  have hwords := bsrBmWords_eq hv
  have hbits := h.bits_eq
  have hw := h.words_eq
  constructor
  · exact hbits
  · exact hw
  · show o / 64 ≤ c.bmWords
    omega
  · exact .inl ⟨ho, rfl⟩

/-- What is left to transfer, in steps. -/
def XferCtx.left : Nat :=
  (c.bmBits - c.bitOffset) + (c.bmWords - c.wordOffset)

theorem CtxOk.left_plainNext (h : CtxOk b c) (hpos : 0 < plainWords agreedProVersion c) :
    (c.plainNext (plainWords agreedProVersion c)).left < c.left := by
  have hle : plainWords agreedProVersion c ≤ c.bmWords - c.wordOffset := Nat.min_le_right _ _
  have hplace := h.place
  show (c.bmBits - min _ c.bmBits) + (c.bmWords - (c.wordOffset + _)) <
    (c.bmBits - c.bitOffset) + (c.bmWords - c.wordOffset)
  omega

theorem CtxOk.left_rleNext (h : CtxOk b c) {o : Nat} (hlt : c.bitOffset < o) (ho : o < c.bmBits) :
    (c.rleNext o).left < c.left := by
  have hplace := h.place
  show (c.bmBits - o) + (c.bmWords - o / 64) < (c.bmBits - c.bitOffset) + (c.bmWords - c.wordOffset)
  omega

end Boundary

/-! ## Packets -/

/-- What a packet says about the bits of the sender, sent with context `c`: the context behind it
and the return of both ends. -/
inductive PacketFor (bits : Nat → Bool) (agreedProVersion : Nat) (c : XferCtx) :
    Packet → XferCtx → XferRet → Prop
  | plain {words : List (BitVec 32)} (hlen : words.length = 2 * plainWords agreedProVersion c)
      (hbits : ∀ j < 64 * plainWords agreedProVersion c, c.wordOffset * 64 + j < c.bmBits →
        streamBit words j = bits (c.wordOffset * 64 + j)) :
      PacketFor bits agreedProVersion c (.plain words) (c.plainNext (plainWords agreedProVersion c))
        (if plainWords agreedProVersion c = 0 then .done else .more)
  | compressed {runs : List Nat} {ws : List (Nat × Nat)} {start next : Bool} {o : Nat}
      {encoding : BitVec 8} {code : List Nat} (hruns : Runs bits runs start c.bitOffset next o)
      (hcoded : Coded runs ws) (hlt : c.bitOffset < o) (hle : o ≤ c.bmBits)
      (hbytes : IsBytes code) (hholds : Holds code (packedVal ws))
      (hlen : code.length = (packedLen ws + 7) / 8) (hpos : 0 < packedLen ws)
      (hsize : 1 + code.length ≤ socketBufferSize - bsrHeaderSize agreedProVersion)
      (hcode : dcbpGetCode encoding = rleVliBits) (hstart : dcbpGetStart encoding = start)
      (hpad : dcbpGetPadBits encoding = 8 * code.length - packedLen ws) :
      PacketFor bits agreedProVersion c (.compressed encoding code) (c.rleNext o)
        (if o = c.bmBits then .done else .more)

theorem dcbp_fields (start : Bool) {n : Nat} (hn : n < 8) :
    dcbpGetCode (dcbpSetCode (dcbpSetPadBits (dcbpSetStart 0 start) n) rleVliBits) = rleVliBits ∧
      dcbpGetStart (dcbpSetCode (dcbpSetPadBits (dcbpSetStart 0 start) n) rleVliBits) = start ∧
      dcbpGetPadBits (dcbpSetCode (dcbpSetPadBits (dcbpSetStart 0 start) n) rleVliBits) = n := by
  revert start n
  decide

theorem wordsOfBytes_length (bytes : List Nat) : (wordsOfBytes bytes).length = bytes.length / 4 := by
  induction bytes using wordsOfBytes.induct with
  | case1 w x y z rest ih =>
    simp only [wordsOfBytes, length_cons, ih]
    omega
  | case2 bytes hshort =>
    match bytes, hshort with
    | [], _ | [_], _ | [_, _], _ | [_, _, _], _ => simp [wordsOfBytes]
    | w :: x :: y :: z :: rest, hshort => exact absurd rfl (hshort w x y z rest)

section Sending

variable {b : BsrBitmap} {idx agreedProVersion : Nat} {c : XferCtx} {f : FillResult}

variable (hb : Sendable b idx) (hc : CtxOk b c)

include hb hc

theorem plain_payload (hpos : 0 < plainWords agreedProVersion c) {buffer : List (BitVec 32)}
    (hbuffer : 2 * plainWords agreedProVersion c ≤ buffer.length) :
    ∃ r, bsrBmGetLel b idx c.wordOffset (plainWords agreedProVersion c) = .ok r ∧
      Untouched b r.bitmap ∧
      ((r.out ++ buffer.drop r.out.length).take (2 * plainWords agreedProVersion c)).length =
        2 * plainWords agreedProVersion c ∧
      ∀ j < 64 * plainWords agreedProVersion c, c.wordOffset * 64 + j < c.bmBits →
        streamBit ((r.out ++ buffer.drop r.out.length).take (2 * plainWords agreedProVersion c)) j =
          b.bit idx (c.wordOffset * 64 + j) := by
  have hwords := bsrBmWords_eq hb.valid
  have hbig := hb.bits_le
  have hbits := hc.bits_eq
  have hw := hc.words_eq
  have hle : plainWords agreedProVersion c ≤ c.bmWords - c.wordOffset := Nat.min_le_right _ _
  generalize plainWords agreedProVersion c = n at *
  obtain ⟨r, hrun, hdone⟩ := lelOp_done (.inr rfl) hb.valid (by omega) hb.idx_lt c.wordOffset n []
    hpos nofun (by omega)
  have hend : rangeEnd b (c.wordOffset * 64 + n * 64 - 1) =
      min (c.wordOffset * 64 + n * 64) b.bmBits := by
    unfold rangeEnd
    rw [show c.wordOffset * 64 + n * 64 - 1 + 1 = c.wordOffset * 64 + n * 64 by omega]
  have hout := hdone.out_length rfl
  have hstream := hdone.out_bits rfl
  have hfit : r.out.length ≤ 2 * n := by omega
  refine ⟨r, hrun, ⟨hdone.shape, ?_⟩, ?_, ?_⟩
  · intro slot hslot i
    rw [hdone.bits slot hslot i]
    exact ite_self _
  · rw [length_take, length_append, length_drop]
    omega
  · intro j _ _
    rw [take_append, take_of_length_le hfit, streamBit_append_left (by omega), hstream,
      decide_eq_true (by omega), Bool.true_and]

theorem sendPlain_spec (hu : Untouched b f.bitmap)
    (hbits : f.ctx.bmBits = c.bmBits) (hwords : f.ctx.bmWords = c.bmWords)
    (hword : f.ctx.wordOffset = c.wordOffset)
    (hcode : f.code.length = socketBufferSize - bsrHeaderSize agreedProVersion - 1) :
    ∃ b' p c' ret, sendPlain f idx (bsrHeaderSize agreedProVersion) = .ok ⟨b', c', some p, ret⟩ ∧
      Untouched b b' ∧ PacketFor (b.bit idx) agreedProVersion c p c' ret := by
  have hnext : f.ctx.plainNext (plainWords agreedProVersion c) =
      c.plainNext (plainWords agreedProVersion c) := by
    simp only [plainNext, hbits, hwords, hword]
  have hnum : min ((socketBufferSize - bsrHeaderSize agreedProVersion) / 8)
      (f.ctx.bmWords - f.ctx.wordOffset) = plainWords agreedProVersion c := by
    rw [hwords, hword, plainWords]
  have hbuffer : 2 * plainWords agreedProVersion c ≤
      (wordsOfBytes (f.encoding.toNat :: f.code)).length := by
    have hle : plainWords agreedProVersion c ≤
        (socketBufferSize - bsrHeaderSize agreedProVersion) / 8 := Nat.min_le_left _ _
    rw [wordsOfBytes_length, length_cons, hcode]
    rcases bsrHeaderSize_cases agreedProVersion with h | h <;> rw [h] at hle ⊢ <;> omega
  unfold sendPlain
  dsimp only
  rw [hnum]
  by_cases hzero : plainWords agreedProVersion c = 0
  · rw [if_pos hzero]
    refine ⟨_, _, _, _, rfl, hu, ?_⟩
    rw [plainNext_eq, hnext]
    refine .plain ?_ ?_
    · simp [hzero]
    · intro j hj
      omega
  · obtain ⟨r, hrun, hur, hlen, hstream⟩ := plain_payload (hb.of_untouched hu)
      (hc.of_untouched hb.valid hu) (Nat.pos_of_ne_zero hzero) hbuffer
    rw [if_neg hzero, hword, hrun]
    refine ⟨_, _, _, _, rfl, hu.trans hur, ?_⟩
    rw [← hword, plainNext_eq, hnext]
    refine .plain hlen (fun j hj hin => ?_)
    rw [hstream j hj hin, hu.bits idx hb.idx_lt]

/-- What `fill_bitmap_rle_bits` leaves to `send_bitmap_rle_or_plain`. -/
inductive Filled (b : BsrBitmap) (idx size : Nat) (c : XferCtx) (f : FillResult) : Prop
  | plain (hlen : f.len = some 0) (hu : Untouched b f.bitmap) (hbits : f.ctx.bmBits = c.bmBits)
      (hwords : f.ctx.bmWords = c.bmWords) (hword : f.ctx.wordOffset = c.wordOffset)
      (hcode : f.code.length = size)
  | compressed {runs : List Nat} {ws : List (Nat × Nat)} {start next : Bool} {o : Nat}
      (hlen : f.len = some ((packedLen ws + 7) / 8)) (hpos : 0 < packedLen ws)
      (hu : Untouched b f.bitmap) (hctx : f.ctx = c.rleNext o)
      (hruns : Runs (b.bit idx) runs start c.bitOffset next o) (hcoded : Coded runs ws)
      (hlt : c.bitOffset < o) (hle : o ≤ b.bmBits) (hbytes : IsBytes f.code)
      (hholds : Holds f.code (packedVal ws)) (hcode : f.code.length = size)
      (hroom : packedLen ws ≤ 8 * size)
      (hencoding : f.encoding = dcbpSetPadBits (dcbpSetStart 0 start)
        (8 * ((packedLen ws + 7) / 8) - packedLen ws))

omit hb hc in
theorem finishFill_spec {size : Nat} {start next : Bool} {s : RleState} {runs : List Nat}
    {ws : List (Nat × Nat)} (hc : CtxOk b c) (hlt : c.bitOffset < c.bmBits)
    (henc : Encoded b idx size c start next s runs ws) (hstart : s.encoding = dcbpSetStart 0 start)
    (hle : s.ctx.bitOffset ≤ b.bmBits) : Filled b idx size c (finishFill s) := by
  have hbit := henc.carries.bit_lt
  have hposdef : s.bs.pos = 8 * s.bs.curByte + s.bs.curBit := rfl
  have hpos := henc.pos_eq
  have hoffset := henc.offset_eq
  have hword : c.wordOffset = c.bitOffset / 64 := by
    rcases hc.place with h | h <;> omega
  have hlen : s.bs.curByte + (if s.bs.curBit = 0 then 0 else 1) = (packedLen ws + 7) / 8 := by
    split <;> omega
  unfold finishFill
  dsimp only
  rw [hlen, Nat.shiftLeft_eq]
  by_cases hbad : s.plainBits < (packedLen ws + 7) / 8 * 2 ^ 3
  · -- incompressible: back to the word of the packet's first bit
    rw [if_pos hbad]
    refine .plain rfl henc.untouched ?_ ?_ ?_ henc.length_eq
    · exact henc.ctx_bits
    · show s.ctx.bmWords = c.bmWords
      rw [henc.ctx_eq]
    · show (s.ctx.bitOffset - s.plainBits) >>> 6 = c.wordOffset
      rw [hoffset, Nat.add_sub_cancel, Nat.shiftRight_eq_div_pow, hword]
  · rw [if_neg hbad]
    have hctx : s.ctx.bitToWordOffset = c.rleNext s.ctx.bitOffset := by
      rw [← bitToWordOffset_eq, hoffset, ← henc.ctx_eq]
    by_cases hnone : packedLen ws = 0
    · -- not even one run did fit
      refine .plain (by rw [hnone]) henc.untouched ?_ ?_ ?_ henc.length_eq
      · exact henc.ctx_bits
      · show s.ctx.bmWords = c.bmWords
        rw [henc.ctx_eq]
      · have hruns := henc.runs_eq
        rw [henc.coded.runs_nil hnone] at hruns
        show s.ctx.bitOffset >>> 6 = c.wordOffset
        rw [hoffset, ← hruns.2, Nat.shiftRight_eq_div_pow, hword]
    · have hruns := henc.runs_eq
      rw [← hoffset] at hruns
      refine .compressed rfl (Nat.pos_of_ne_zero hnone) henc.untouched hctx hruns henc.coded
        (by omega) hle henc.carries.bytes henc.carries.holds henc.length_eq henc.room ?_
      have hpad : (8 - s.bs.curBit) % 8 = 8 * ((packedLen ws + 7) / 8) - packedLen ws := by omega
      rw [hstart, and_7_eq_mod, hpad]

theorem fillBitmapRleBits_spec (useRle : Bool) (agreedProVersion size : Nat) :
    ∃ f, fillBitmapRleBits b idx useRle agreedProVersion size c = .ok f ∧ Filled b idx size c f := by
  have hlen : (replicate size 0).length = size := length_replicate
  unfold fillBitmapRleBits
  split_ifs with hoff hend
  · exact ⟨_, rfl, .plain rfl .rfl rfl rfl rfl hlen⟩
  · exact ⟨_, rfl, .plain rfl .rfl rfl rfl rfl hlen⟩
  have hbits := hc.bits_eq
  obtain ⟨_, hloop, hexit⟩ := rleLoop_exits size hb hbits (by omega)
  rw [rleInit] at hloop
  rw [hloop]
  cases hexit with
  | behind henc hstart hle => exact ⟨_, rfl, finishFill_spec hc (by omega) henc hstart hle⟩
  | @returnZero s _ _ _ _ henc =>
    refine ⟨_, rfl, .plain rfl henc.untouched henc.ctx_bits ?_ ?_ henc.length_eq⟩
    · show s.ctx.bmWords = c.bmWords
      rw [henc.ctx_eq]
    · show s.ctx.wordOffset = c.wordOffset
      rw [henc.ctx_eq]

theorem sendBitmapRleOrPlain_spec (useRle : Bool) (agreedProVersion : Nat) :
    ∃ b' p c' ret, sendBitmapRleOrPlain b idx useRle agreedProVersion c = .ok ⟨b',
      c', some p, ret⟩ ∧ Untouched b b' ∧ PacketFor (b.bit idx) agreedProVersion c p c' ret := by
  obtain ⟨f, hfill, hfilled⟩ := fillBitmapRleBits_spec hb hc useRle agreedProVersion
    (socketBufferSize - bsrHeaderSize agreedProVersion - 1)
  unfold sendBitmapRleOrPlain
  dsimp only
  rw [hfill]
  dsimp only
  cases hfilled with
  | plain hlen hu hbits hwords hword hcode =>
    rw [hlen]
    exact sendPlain_spec hb hc hu hbits hwords hword hcode
  | @compressed runs ws start next o hlen hpos hu hctx hruns hcoded hlt hle hbytes hholds hcode hroom
      hencoding =>
      obtain ⟨len, hsucc⟩ : ∃ len, (packedLen ws + 7) / 8 = len + 1 :=
        Nat.exists_eq_succ_of_ne_zero (by omega)
      rw [hlen, hsucc, hctx]
      refine ⟨_, _, _, _, rfl, hu, ?_⟩
      have hbits := hc.bits_eq
      have hlength : (f.code.take (len + 1)).length = (packedLen ws + 7) / 8 := by
        rw [length_take]
        omega
      have hret : (if (c.rleNext o).bitOffset ≥ (c.rleNext o).bmBits then XferRet.done else .more) =
          if o = c.bmBits then .done else .more :=
        if_congr ⟨fun h => Nat.le_antisymm (hle.trans hbits.ge) h, fun h => h.ge⟩ rfl rfl
      have hfields := dcbp_fields start
        (show 8 * ((packedLen ws + 7) / 8) - packedLen ws < 8 by omega)
      rw [← hencoding] at hfields
      rw [hret]
      refine .compressed hruns hcoded hlt (hle.trans hbits.ge) (hbytes.take _) ?_ hlength hpos ?_
        hfields.1 hfields.2.1 ?_
      · refine hholds.take ?_
        calc packedVal ws < 2 ^ packedLen ws := packedVal_lt (fun w hw => (hcoded.bounds w hw).2.2)
          _ ≤ 2 ^ (8 * (len + 1)) := Nat.pow_le_pow_right (by decide) (by omega)
      · omega
      · rw [hfields.2.2, hlength]

end Sending

end Bsr.Exchange
