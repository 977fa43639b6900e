import Bsr.Exchange.Packet

/-!
# What the receiver makes of a packet

The look-ahead decoder of `recv_bm_rle_bits` recovers the runs of a compressed packet, and
`receive_bitmap_plain` merges the words of a plain one. `receiveBitmap_spec` puts both together: on
a packet of the sender the receiver ends with the same context and the same return, and its slot has
gained the sender's bits up to the new offset.
-/

namespace Bsr.Exchange

open Lib Bitmap

/-- The bits of `bits` in `[lo, hi)` have been merged into slot `idx`. -/
structure Merged (b b' : BsrBitmap) (idx lo hi : Nat) (bits : Nat → Bool) : Prop where
  shape : b.SameShape b'
  inv : b'.Inv
  bit_eq : ∀ slot < b.bmMaxPeers.val, ∀ i, b'.bit slot i =
    (b.bit slot i || (decide (slot = idx ∧ lo ≤ i ∧ i < hi) && bits i))

section Merging

variable {b b₁ b₂ : BsrBitmap} {idx lo mid hi : Nat} {bits : Nat → Bool}

theorem Merged.of_clear (hb : b.Inv) (h : ∀ i, lo ≤ i → i < hi → bits i = false) :
    Merged b b idx lo hi bits := by
  refine ⟨.rfl, hb, fun slot _ i => ?_⟩
  by_cases hin : lo ≤ i ∧ i < hi
  · simp [h i hin.1 hin.2]
  · simp [hin]

/-- Merging piece by piece; the second piece may go over bits of the first once more. -/
theorem Merged.trans (h₁ : Merged b b₁ idx lo hi bits) {lo' hi' : Nat}
    (h₂ : Merged b₁ b₂ idx lo' hi' bits) (hmid : lo' ≤ hi) (hhi : hi ≤ hi') :
    Merged b b₂ idx (min lo lo') hi' bits := by
  refine ⟨h₁.shape.trans h₂.shape, h₂.inv, fun slot hslot i => ?_⟩
  rw [h₂.bit_eq slot (by rw [h₁.shape.maxPeers]; exact hslot) i, h₁.bit_eq slot hslot i]
  by_cases hs : slot = idx
  · by_cases hlow : lo ≤ i <;> by_cases hi₁ : i < hi <;> by_cases hi₂ : i < hi' <;>
      by_cases hlow' : lo' ≤ i <;> first | omega | simp [hs, hlow, hi₁, hi₂, hlow']
  · simp [hs]

theorem Merged.of_set (hb : b.Inv) (hidx : idx < b.bmMaxPeers.val) (hlt : lo < hi)
    (hhi : hi ≤ b.bmBits) (h : ∀ i, lo ≤ i → i < hi → bits i = true) :
    ∃ b', bmManyBitsOp b idx lo (hi - 1) .set = .ok b' ∧ Merged b b' idx lo hi bits := by
  obtain ⟨b', hrun, hshape, hinv, hdone⟩ := bmManyBitsOp_spec (.inl rfl) hb (by omega) hidx lo (hi - 1)
  have hend : rangeEnd b (hi - 1) = hi := by
    unfold rangeEnd
    omega
  refine ⟨b', hrun, hshape, hinv, fun slot hslot i => ?_⟩
  rw [hdone slot hslot i, hend]
  split_ifs with hin
  · rw [decide_eq_true hin, h i hin.2.1 hin.2.2]
    simp [BmOp.newBit]
  · rw [decide_eq_false hin]
    simp

end Merging

/-! ## The look-ahead decoder -/

/-- The look-ahead holds the next (at most 64) bits of the code words that are left, and the stream
stands behind them. -/
structure LookAhead (code : List Nat) (total : Nat) (d : DecodeState) (ws : List (Nat × Nat)) :
    Prop where
  carries : ∃ v, d.bs.Carries v ∧ v >>> (total - packedLen ws) = packedVal ws
  buf_eq : d.bs.buf = code
  pad_eq : d.bs.padBits + total = 8 * code.length
  left_le : packedLen ws ≤ total
  have_eq : d.haveBits = min 64 (packedLen ws)
  pos_eq : d.bs.pos + packedLen ws = total + d.haveBits
  look_eq : d.lookAhead = packedVal ws % 2 ^ 64

section Decoding

variable {code : List Nat} {total : Nat} {d : DecodeState} {ws : List (Nat × Nat)} {t c rl : Nat}

theorem mod_two_pow_64 (hc : c < 2 ^ t) (ht : t ≤ 64) (p : Nat) :
    (c + 2 ^ t * p) % 2 ^ 64 = c + 2 ^ t * (p % 2 ^ (64 - t)) := by
  have hpow : (2 : Nat) ^ 64 = 2 ^ t * 2 ^ (64 - t) := by
    rw [← Nat.pow_add]
    congr 1
    omega
  rw [hpow, Nat.mod_mul, Nat.add_mul_mod_self_left, Nat.mod_eq_of_lt hc,
    Nat.add_mul_div_left _ _ (Nat.two_pow_pos t), Nat.div_eq_of_lt hc, Nat.zero_add]

theorem look_shift (hc : c < 2 ^ t) (ht : t ≤ 64) (p : Nat) :
    (if t < 64 then ((c + 2 ^ t * p) % 2 ^ 64) >>> t else 0) = p % 2 ^ (64 - t) := by
  by_cases hlt : t < 64
  · rw [if_pos hlt, mod_two_pow_64 hc ht, Nat.shiftRight_eq_div_pow,
      Nat.add_mul_div_left _ _ (Nat.two_pow_pos t), Nat.div_eq_of_lt hc, Nat.zero_add]
  · rw [if_neg hlt, show 64 - t = 0 by omega, Nat.pow_zero, Nat.mod_one]

/-- Filling the look-ahead up with `n` bits from behind the `have` bits it still holds. -/
theorem look_refill {p len n : Nat} (hp : p < 2 ^ len) (ht : t ≤ 64) {haveBits : Nat}
    (hhave : haveBits ≤ 64 - t) (hn : haveBits + n = min 64 len) :
    p % 2 ^ (64 - t) ||| ((((p >>> haveBits) % 2 ^ n) <<< haveBits) % 2 ^ 64) = p % 2 ^ 64 := by
  apply Nat.eq_of_testBit_eq
  intro k
  rw [Nat.testBit_or, Nat.testBit_mod_two_pow, Nat.testBit_mod_two_pow, Nat.testBit_mod_two_pow,
    Nat.testBit_shiftLeft, Nat.testBit_mod_two_pow, Nat.testBit_shiftRight]
  by_cases hk : k < 64
  · by_cases hlow : k < 64 - t
    · by_cases hge : haveBits ≤ k
      · have hidx : haveBits + (k - haveBits) = k := by omega
        simp [hk, hlow, hidx]
      · simp [hk, hlow, hge]
    have hidx : haveBits + (k - haveBits) = k := by omega
    have hge : haveBits ≤ k := by omega
    by_cases hlen : k < len
    · have hn' : k - haveBits < n := by omega
      simp [hk, hlow, hidx, hge, hn']
    -- beyond the code words there are only zeroes
    rw [hidx, Nat.testBit_lt_two_pow (hp.trans_le (Nat.pow_le_pow_right (by decide) (by omega)))]
    simp
  · have hlow : ¬ k < 64 - t := by omega
    simp [hk, hlow]

theorem LookAhead.decode (h : LookAhead code total d ((t, c) :: ws)) (hw : vliEncode rl = .ok (t, c)) :
    vliDecodeBits d.lookAhead = some (t, rl) ∧ 0 < t ∧ t ≤ d.haveBits := by
  obtain ⟨ht, ht64, hc⟩ := vliEncode_bounds hw
  have hhave := h.have_eq
  rw [packedLen_cons] at hhave
  refine ⟨?_, ht, by omega⟩
  rw [h.look_eq, packedVal, mod_two_pow_64 hc ht64]
  exact vliDecodeBits_encode hw _

theorem LookAhead.next (h : LookAhead code total d ((t, c) :: ws)) (hw : vliEncode rl = .ok (t, c))
    (hws : packedVal ws < 2 ^ packedLen ws) :
    ∃ tmp got bs, bitstreamGetBits d.bs (64 - (d.haveBits - t)) = some (tmp, got, bs) ∧
      ∀ b s toggle, LookAhead code total ⟨b, bs,
        (if t < 64 then d.lookAhead >>> t else 0) ||| ((tmp <<< (d.haveBits - t)) % 2 ^ 64),
        d.haveBits - t + got, s, toggle⟩ ws := by
  obtain ⟨_, ht64, hc⟩ := vliEncode_bounds hw
  obtain ⟨v, hcarries, hv⟩ := h.carries
  have hhave := h.have_eq
  have hpos := h.pos_eq
  have hpad := h.pad_eq
  have hleft := h.left_le
  rw [packedLen_cons] at hhave hpos hleft
  have hget := bitstreamGetBits_spec (64 - (d.haveBits - t)) hcarries
    (by rw [h.buf_eq]; omega) (by omega) (by omega)
  have hbsleft : d.bs.left = t + packedLen ws - d.haveBits := by
    have hdef : d.bs.left = 8 * d.bs.buf.length - d.bs.pos - d.bs.padBits := rfl
    rw [h.buf_eq] at hdef
    omega
  rw [hbsleft] at hget
  set got := min (64 - (d.haveBits - t)) (t + packedLen ws - d.haveBits)
  have hrest : v >>> (total - packedLen ws) = packedVal ws := by
    have hsplit : total - packedLen ws = total - packedLen ((t, c) :: ws) + t := by
      rw [packedLen_cons]
      omega
    rw [hsplit, Nat.shiftRight_add, hv, packedVal, Nat.shiftRight_eq_div_pow,
      Nat.add_mul_div_left _ _ (Nat.two_pow_pos t), Nat.div_eq_of_lt hc, Nat.zero_add]
  have hbehind : v >>> d.bs.pos = packedVal ws >>> (d.haveBits - t) := by
    rw [← hrest, ← Nat.shiftRight_add]
    congr 1
    omega
  refine ⟨_, _, _, hget, fun b s toggle => ?_⟩
  constructor
  · exact ⟨v, hcarries.advance got, hrest⟩
  · exact h.buf_eq
  · exact hpad
  · omega
  · show d.haveBits - t + got = min 64 (packedLen ws)
    omega
  · show (d.bs.advance got).pos + packedLen ws = total + (d.haveBits - t + got)
    rw [Bitstream.advance_pos]
    omega
  · show _ ||| _ = packedVal ws % 2 ^ 64
    rw [h.look_eq, packedVal, look_shift hc ht64, hbehind]
    exact look_refill hws ht64 (by omega) (by omega)

theorem LookAhead.have_eq_zero (h : LookAhead code total d ws) (hpos : ∀ w ∈ ws, 0 < w.1) :
    d.haveBits = 0 ↔ ws = [] := by
  have hhave := h.have_eq
  cases ws with
  | nil => simpa using hhave
  | cons w ws =>
    have hw := hpos w List.mem_cons_self
    rw [packedLen_cons] at hhave
    simp only [reduceCtorEq, iff_false]
    omega

/-- The loop of `recv_bm_rle_bits` merges the runs of the code words that are left. -/
theorem decodeLoop_spec {idx o : Nat} {bits : Nat → Bool} {runs : List Nat} {next : Bool}
    (hcoded : Coded runs ws) (fuel : Nat) (hfuel : ws.length < fuel)
    (h : LookAhead code total d ws) (hruns : Runs bits runs d.toggle d.s next o)
    (hb : d.bitmap.Inv) (hidx : idx < d.bitmap.bmMaxPeers.val) (ho : o ≤ d.bitmap.bmBits) :
    ∃ b', decodeLoop idx d.bitmap.bmBits fuel d = .ok (b', some o) ∧
      Merged d.bitmap b' idx d.s o bits := by
  induction hcoded generalizing d fuel with
  | nil =>
    obtain ⟨fuel, rfl⟩ := Nat.exists_eq_succ_of_ne_zero (Nat.ne_of_gt hfuel)
    have hzero : d.haveBits = 0 := (h.have_eq_zero nofun).mpr rfl
    obtain ⟨-, rfl⟩ := hruns
    unfold decodeLoop
    rw [if_pos hzero]
    exact ⟨d.bitmap, rfl, .of_clear hb (fun i hlo hhi => by omega)⟩
  | @cons rl w runs ws hw hcoded ih =>
    obtain ⟨fuel, rfl⟩ := Nat.exists_eq_succ_of_ne_zero (Nat.ne_of_gt (Nat.zero_lt_of_lt hfuel))
    obtain ⟨hdecode, _, _⟩ := h.decode hw
    have hws : packedVal ws < 2 ^ packedLen ws :=
      packedVal_lt (fun w hw => (Coded.bounds hcoded w hw).2.2)
    obtain ⟨_, _, _, hget, hlook⟩ := h.next hw hws
    obtain ⟨_, hrun, hrest⟩ := hruns
    have hle : d.s + rl ≤ o := hrest.le
    -- the run is set, or there is nothing to set
    obtain ⟨b₁, hmark, hmerged⟩ : ∃ b₁, (if d.toggle then
        bmManyBitsOp d.bitmap idx d.s (d.s + rl - 1) .set else .ok d.bitmap) = .ok b₁ ∧
        Merged d.bitmap b₁ idx d.s (d.s + rl) bits := by
      cases htoggle : d.toggle with
      | true => exact Merged.of_set hb hidx (by omega) (by omega) (by rw [htoggle] at hrun; exact hrun)
      | false => exact ⟨d.bitmap, rfl, .of_clear hb (by rw [htoggle] at hrun; exact hrun)⟩
    obtain ⟨b₂, hloop, hmerged'⟩ := ih fuel (by simpa using hfuel) (hlook b₁ (d.s + rl) (!d.toggle))
      hrest hmerged.inv (by rw [hmerged.shape.maxPeers]; exact hidx)
      (by rw [hmerged.shape.bits]; exact ho)
    unfold decodeLoop
    rw [if_neg (by omega), hdecode]
    dsimp only
    rw [if_neg (by omega), if_neg (by omega), hmark]
    dsimp only
    rw [if_neg (by omega), hget]
    rw [hmerged.shape.bits] at hloop
    have hmerged₂ := hmerged.trans hmerged' le_rfl hle
    rw [Nat.min_eq_left (Nat.le_add_right _ _)] at hmerged₂
    exact ⟨b₂, hloop, hmerged₂⟩

end Decoding

/-! ## One packet -/

section Receiving

variable {b : BsrBitmap} {idx agreedProVersion : Nat} {c c' : XferCtx} {bits : Nat → Bool}
  {p : Packet} {ret : XferRet}

variable (hb : b.Inv) (hidx : idx < b.bmMaxPeers.val)

include hb hidx

theorem recvBmRleBits_spec {runs : List Nat} {ws : List (Nat × Nat)} {start next : Bool} {o : Nat}
    {encoding : BitVec 8} {code : List Nat} (hc : c.bmBits = b.bmBits) (hruns : Runs bits runs start c.bitOffset next o)
    (hcoded : Coded runs ws) (hle : o ≤ c.bmBits) (hbytes : IsBytes code)
    (hholds : Holds code (packedVal ws)) (hlen : code.length = (packedLen ws + 7) / 8)
    (hpos : 0 < packedLen ws) (hstart : dcbpGetStart encoding = start)
    (hpad : dcbpGetPadBits encoding = 8 * code.length - packedLen ws) :
    ∃ b', recvBmRleBits b idx encoding code c =
        .ok ⟨b', c.rleNext o, if o = c.bmBits then .done else .more⟩ ∧
      Merged b b' idx c.bitOffset o bits := by
  have hval : packedVal ws < 2 ^ packedLen ws := packedVal_lt (fun w hw => (hcoded.bounds w hw).2.2)
  set bs := bitstreamInit code (dcbpGetPadBits encoding)
  have hbspos : bs.pos = 0 := rfl
  have hcarries : bs.Carries (packedVal ws) := ⟨hbytes, hholds, Nat.zero_lt_succ 7⟩
  have hget := bitstreamGetBits_spec 64 hcarries (by
    show 0 + dcbpGetPadBits encoding ≤ 8 * code.length
    omega) (by decide) le_rfl
  have hleft : bs.left = packedLen ws := by
    show 8 * code.length - 0 - dcbpGetPadBits encoding = packedLen ws
    omega
  rw [hleft, hbspos, Nat.shiftRight_zero] at hget
  set d : DecodeState := ⟨b, bs.advance (min 64 (packedLen ws)), packedVal ws % 2 ^ min 64
    (packedLen ws), min 64 (packedLen ws), c.bitOffset, dcbpGetStart encoding⟩
  have hlook : LookAhead code (packedLen ws) d ws := by
    constructor
    · exact ⟨packedVal ws, hcarries.advance _, by rw [Nat.sub_self, Nat.shiftRight_zero]⟩
    · rfl
    · show dcbpGetPadBits encoding + packedLen ws = 8 * code.length
      omega
    · exact le_rfl
    · rfl
    · show (bs.advance (min 64 (packedLen ws))).pos + packedLen ws = _
      rw [Bitstream.advance_pos]
      show 0 + min 64 (packedLen ws) + packedLen ws = packedLen ws + min 64 (packedLen ws)
      omega
    · show packedVal ws % 2 ^ min 64 (packedLen ws) = packedVal ws % 2 ^ 64
      rcases Nat.le_total 64 (packedLen ws) with h | h
      · rw [Nat.min_eq_left h]
      · rw [Nat.min_eq_right h, Nat.mod_eq_of_lt hval,
          Nat.mod_eq_of_lt (hval.trans_le (Nat.pow_le_pow_right (by decide) h))]
  have hfuel : ws.length < 8 * code.length + 1 := by
    have := hcoded.length_le
    omega
  have hruns' : Runs bits runs d.toggle d.s next o := by
    subst hstart
    exact hruns
  have hend : o ≤ d.bitmap.bmBits := hle.trans hc.le
  obtain ⟨b', hloop, hmerged⟩ := decodeLoop_spec hcoded (8 * code.length + 1) hfuel hlook hruns' hb
    hidx hend
  have hloop' : decodeLoop idx c.bmBits (8 * code.length + 1) d = .ok (b', some o) := by
    rw [hc]
    exact hloop
  refine ⟨b', ?_, hmerged⟩
  unfold recvBmRleBits
  rw [hget]
  dsimp only
  rw [hloop']
  dsimp only
  rw [bitToWordOffset_eq]
  simp

theorem receiveBitmapPlain_spec {words : List (BitVec 32)} (hsize : b.bmBits ≤ 2 ^ 62)
    (hc : CtxOk b c) (hlen : words.length = 2 * plainWords agreedProVersion c)
    (hbits : ∀ j < 64 * plainWords agreedProVersion c, c.wordOffset * 64 + j < c.bmBits →
      streamBit words j = bits (c.wordOffset * 64 + j)) :
    ∃ b', receiveBitmapPlain b idx (bsrHeaderSize agreedProVersion) words c =
        .ok ⟨b', c.plainNext (plainWords agreedProVersion c),
          if plainWords agreedProVersion c = 0 then .done else .more⟩ ∧
      Merged b b' idx (min (c.wordOffset * 64) c.bitOffset)
        (c.plainNext (plainWords agreedProVersion c)).bitOffset bits := by
  have hwords := bsrBmWords_eq hb.valid
  have hcbits := hc.bits_eq
  have hcwords := hc.words_eq
  have hplace := hc.place
  have hle : plainWords agreedProVersion c ≤ c.bmWords - c.wordOffset := Nat.min_le_right _ _
  unfold receiveBitmapPlain
  dsimp only
  rw [← plainWords, if_neg (by omega)]
  by_cases hzero : plainWords agreedProVersion c = 0
  · -- the empty packet behind the last word
    obtain ⟨hnext, _, hend⟩ := hc.plain_end hb.valid hzero
    rw [if_pos hzero, if_pos hzero, hnext]
    refine ⟨b, rfl, .of_clear hb (fun i hlo hhi => ?_)⟩
    omega
  have hnext : (c.plainNext (plainWords agreedProVersion c)).bitOffset =
      min ((c.wordOffset + plainWords agreedProVersion c) * 64) c.bmBits := rfl
  obtain ⟨r, hrun, hdone⟩ := lelOp_done (.inl rfl) hb.valid (by omega) hidx c.wordOffset
    (plainWords agreedProVersion c) words (Nat.pos_of_ne_zero hzero) (fun _ => hlen) (by omega)
  have hend : rangeEnd b (c.wordOffset * 64 + plainWords agreedProVersion c * 64 - 1) =
      (c.plainNext (plainWords agreedProVersion c)).bitOffset := by
    unfold rangeEnd
    omega
  rw [if_neg hzero, if_neg hzero, bsrBmMergeLel, hrun]
  refine ⟨r.bitmap, by rw [plainNext_eq], hdone.shape, hdone.inv hb hidx, fun slot hslot i => ?_⟩
  rw [hdone.bits slot hslot i, hend]
  by_cases hin : slot = idx ∧ c.wordOffset * 64 ≤ i ∧
      i < (c.plainNext (plainWords agreedProVersion c)).bitOffset
  · obtain ⟨j, rfl⟩ := Nat.exists_eq_add_of_le hin.2.1
    rw [if_pos hin, decide_eq_true (by omega), Nat.add_sub_cancel_left,
      hbits j (by omega) (by omega)]
    rfl
  · rw [if_neg hin, decide_eq_false (by omega), Bool.false_and, Bool.or_false]

/-- On a packet of the sender, the receiver ends with the sender's context and return, and has
merged the sender's bits up to the new offset. -/
theorem receiveBitmap_spec (hsize : b.bmBits ≤ 2 ^ 62)
    (hc : CtxOk b c) (hp : PacketFor bits agreedProVersion c p c' ret) :
    ∃ b', receiveBitmap b idx agreedProVersion p c = .ok ⟨b', c', ret⟩ ∧
      ∃ lo ≤ c.bitOffset, Merged b b' idx lo c'.bitOffset bits := by
  cases hp with
  | plain hlen hbits =>
    obtain ⟨b', hrun, hmerged⟩ := receiveBitmapPlain_spec hb hidx hsize hc hlen hbits
    exact ⟨b', hrun, _, Nat.min_le_right _ _, hmerged⟩
  | compressed hruns hcoded hlt hle hbytes hholds hlen hpos hsize' hcode hstart hpad =>
    obtain ⟨b', hrun, hmerged⟩ := recvBmRleBits_spec hb hidx hc.bits_eq hruns hcoded hle hbytes
      hholds hlen hpos hstart hpad
    unfold receiveBitmap
    dsimp only
    rw [if_neg (by omega), if_neg (by omega), if_pos hcode]
    exact ⟨b', hrun, _, le_rfl, hmerged⟩

end Receiving

end Bsr.Exchange
