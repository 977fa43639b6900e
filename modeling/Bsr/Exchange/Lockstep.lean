import Bsr.Exchange.Receiver

/-!
# The two ends in lockstep

The sender and the receiver of a bitmap transfer hold the same context at every packet boundary.
`lockstep` carries this, and the bits merged so far, through the whole transfer;
`bitmap_exchange_lossless` is the result for a transfer from its start, `bitmap_exchange_converges`
for both directions. -/

namespace Bsr.Exchange

open Lib Bitmap List Prod

section Transfer

variable {bS bR : BsrBitmap} {idxS idxR : Nat} {c : XferCtx}

theorem CtxOk.of_bits_eq {b b' : BsrBitmap} (h : CtxOk b c) (hv : b.Valid) (hv' : b'.Valid)
    (hbits : b'.bmBits = b.bmBits) : CtxOk b' c where
  bits_eq := h.bits_eq.trans hbits.symm
  words_eq := by rw [h.words_eq, bsrBmWords_eq hv, bsrBmWords_eq hv', hbits]
  word_le := h.word_le
  place := h.place

theorem CtxOk.offset_le {b : BsrBitmap} (h : CtxOk b c) : c.bitOffset ≤ b.bmBits := by
  have hbits := h.bits_eq
  rcases h.place with ⟨_, -⟩ | ⟨_, -⟩ <;> omega

theorem PacketFor.progress {bits : Nat → Bool} {agreedProVersion : Nat} {p : Packet} {c' : XferCtx}
    {ret : XferRet}
    (hp : PacketFor bits agreedProVersion c p c' ret) (hc : CtxOk bS c) (hv : bS.Valid) :
    (ret = .done ∧ c'.bitOffset = bS.bmBits) ∨
      (ret = .more ∧ CtxOk bS c' ∧ c'.left < c.left ∧ c.bitOffset ≤ c'.bitOffset) := by
  have hbits := hc.bits_eq
  cases hp with
  | plain hlen hbits' =>
    split_ifs with hzero
    · obtain ⟨hnext, _, -⟩ := hc.plain_end hv hzero
      rw [hnext]
      exact .inl ⟨rfl, by omega⟩
    · refine .inr ⟨rfl, hc.plainNext, hc.left_plainNext (Nat.pos_of_ne_zero hzero), ?_⟩
      have hplace := hc.place
      show c.bitOffset ≤ min ((c.wordOffset + _) * 64) c.bmBits
      omega
  | @compressed runs ws start next o encoding code hruns hcoded hlt hle =>
    split_ifs with ho
    · exact .inl ⟨rfl, ho.trans hbits⟩
    · exact .inr ⟨rfl, hc.rleNext hv (by omega), hc.left_rleNext hlt (by omega), hlt.le⟩

section Loop

variable {b b₁ b₂ : BsrBitmap} {c₁ : XferCtx} {idx agreedProVersion n fuel : Nat}
  {useRle : Nat → Bool} {p : Packet} {sent : List (Packet × XferCtx)} {ret : XferRet}

theorem sendLoop_done
    (h : sendBitmapRleOrPlain b idx (useRle n) agreedProVersion c = .ok ⟨b₁, c₁, some p, .done⟩) :
    sendLoop idx agreedProVersion useRle (fuel + 1) n b c = .ok (b₁, [(p, c₁)], .done) := by
  unfold sendLoop
  rw [h]
  rfl

theorem sendLoop_more
    (h : sendBitmapRleOrPlain b idx (useRle n) agreedProVersion c = .ok ⟨b₁, c₁, some p, .more⟩)
    (hrest : sendLoop idx agreedProVersion useRle fuel (n + 1) b₁ c₁ = .ok (b₂, sent, ret)) :
    sendLoop idx agreedProVersion useRle (fuel + 1) n b c = .ok (b₂, (p, c₁) :: sent, ret) := by
  unfold sendLoop
  rw [h]
  dsimp only
  rw [hrest]
  rfl

end Loop

structure Transferred (bS bS' bR bR' : BsrBitmap) (idxS idxR lo : Nat)
    (sent : List (Packet × XferCtx)) (received : List (XferRet × XferCtx)) : Prop where
  untouched : Untouched bS bS'
  merged : Merged bR bR' idxR lo bS.bmBits (bS.bit idxS)
  ctx_eq : received.map snd = sent.map snd
  ret_eq : ∃ n, received.map fst = replicate n .more ++ [.done]

/-- From a packet boundary on, the two ends stay in lockstep until both are done. -/
theorem lockstep (agreedProVersion : Nat) (useRle : Nat → Bool) (fuel n : Nat) (hS : Sendable bS idxS) (hR : bR.Inv)
    (hidxR : idxR < bR.bmMaxPeers.val) (hbits : bR.bmBits = bS.bmBits) (hc : CtxOk bS c)
    (hfuel : c.left < fuel) : ∃ bS' sent bR' received,
      sendLoop idxS agreedProVersion useRle fuel n bS c = .ok (bS', sent, .done) ∧
      receiveAll idxR agreedProVersion (sent.map fst) bR c = .ok (bR', received) ∧
      ∃ lo ≤ c.bitOffset, Transferred bS bS' bR bR' idxS idxR lo sent received := by
  induction fuel generalizing n bS bR c with
  | zero => omega
  | succ fuel ih =>
    obtain ⟨bS₁, p, c₁, _, hsend, hu, hp⟩ :=
      sendBitmapRleOrPlain_spec hS hc (useRle n) agreedProVersion
    obtain ⟨bR₁, hrecv, lo, hlo, hmerged⟩ := receiveBitmap_spec hR hidxR
      (hbits ▸ hS.bits_le) (hc.of_bits_eq hS.valid hR.valid hbits) hp
    rcases hp.progress hc hS.valid with ⟨rfl, hend⟩ | ⟨rfl, hc₁, _, _⟩
    · -- the last packet
      rw [hend] at hmerged
      have hall : receiveAll idxR agreedProVersion [p] bR c = .ok (bR₁, [(.done, c₁)]) := by
        unfold receiveAll
        rw [hrecv]
        rfl
      exact ⟨bS₁, _, bR₁, _, sendLoop_done hsend, hall, lo, hlo, hu, hmerged, rfl, 0, rfl⟩
    · have hbits₁ : bR₁.bmBits = bS₁.bmBits := by
        rw [hmerged.shape.bits, hu.shape.bits, hbits]
      obtain ⟨bS₂, sent, bR₂, received, hsend', hrecv', lo', hlo', hdone⟩ := ih (n + 1)
        (hS.of_untouched hu) hmerged.inv (by rw [hmerged.shape.maxPeers]; exact hidxR) hbits₁
        (hc₁.of_untouched hS.valid hu) (by omega)
      have hsame : bS₁.bit idxS = bS.bit idxS := funext (hu.bits idxS hS.idx_lt)
      have hrest := hdone.merged
      rw [hsame, hu.shape.bits] at hrest
      have hall : receiveAll idxR agreedProVersion (p :: sent.map fst) bR c =
          .ok (bR₂, (.more, c₁) :: received) := by
        unfold receiveAll
        rw [hrecv]
        dsimp only
        rw [hrecv']
      obtain ⟨k, hret⟩ := hdone.ret_eq
      have hle : c₁.bitOffset ≤ bS.bmBits := hc₁.offset_le
      refine ⟨bS₂, _, bR₂, _, sendLoop_more hsend hsend', hall, min lo lo',
        (Nat.min_le_left _ _).trans hlo, hu.trans hdone.untouched, hmerged.trans hrest hlo' hle, ?_, k + 1, ?_⟩
      · rw [map_cons, map_cons, hdone.ctx_eq]
      · rw [map_cons, hret]
        rfl

end Transfer

/-- A bitmap transfer is lossless. Whatever the sender decides for each packet, both ends are done
on the same packet, hold the same context behind every packet, and the slot of the receiver has
become the union of its own bits and the bits of the sender. -/
theorem bitmap_exchange_lossless (bS bR : BsrBitmap) (idxS idxR agreedProVersion : Nat)
    (useRle : Nat → Bool) (hS : bS.Inv) (hR : bR.Inv) (hidxS : idxS < bS.bmMaxPeers.val)
    (hidxR : idxR < bR.bmMaxPeers.val) (hbits : bR.bmBits = bS.bmBits)
    (hsize : bS.bmBits ≤ 2 ^ 62) : ∃ bS' sent bR' received,
      bsrSendBitmap bS idxS agreedProVersion useRle = .ok (bS', sent, .done) ∧
      receiveAll idxR agreedProVersion (sent.map fst) bR (XferCtx.init bR) =
        .ok (bR', received) ∧
      received.map snd = sent.map snd ∧
      (∃ n, received.map fst = replicate n .more ++ [.done]) ∧
      (∀ i < bS.bmBits, bR'.bit idxR i = (bR.bit idxR i || bS.bit idxS i)) ∧
      (∀ slot < bR.bmMaxPeers.val, ∀ i, slot ≠ idxR ∨ bS.bmBits ≤ i →
        bR'.bit slot i = bR.bit slot i) ∧
      (∀ slot < bS.bmMaxPeers.val, ∀ i, bS'.bit slot i = bS.bit slot i) ∧ bR'.Inv := by
  have hinit : XferCtx.init bR = XferCtx.init bS := by
    rw [XferCtx.init, XferCtx.init, bsrBmWords_eq hS.valid, bsrBmWords_eq hR.valid, hbits]
  obtain ⟨bS', sent, bR', received, hsend, hrecv, lo, hlo, hdone⟩ :=
    lockstep agreedProVersion useRle (bS.bmBits + bsrBmWords bS + 1) 0
      ⟨hS.valid, hidxS, hsize⟩ hR hidxR hbits ctxOk_init (Nat.lt_succ_self _)
  have hzero : lo = 0 := Nat.le_zero.mp hlo
  refine ⟨bS', sent, bR', received, hsend, by rw [hinit]; exact hrecv, hdone.ctx_eq, hdone.ret_eq,
    ?_, ?_, hdone.untouched.bits, hdone.merged.inv⟩
  · intro i hi
    rw [hdone.merged.bit_eq idxR hidxR i, decide_eq_true ⟨rfl, by omega, hi⟩, Bool.true_and]
  · intro slot hslot i _
    rw [hdone.merged.bit_eq slot hslot i, decide_eq_false (by omega), Bool.false_and, Bool.or_false]

/-- A cleared bitmap for 64 blocks. -/
def blankBitmap (slots : PeerSlots) : BsrBitmap :=
  ⟨slots, 64, 2 * slots.val, 512, [Page.zero], fun _ => 0⟩

theorem blankBitmap_bit (slots : PeerSlots) (slot i : Nat) : (blankBitmap slots).bit slot i = false := by
  have hzero : ∀ k, memBit [Page.zero] k = false := by
    intro k
    unfold memBit
    cases hget : [Page.zero][k / bitsPerPage]? with
    | none => rfl
    | some p =>
      obtain rfl := mem_singleton.mp (mem_of_getElem? hget)
      simp [Page.testBit, Page.wordAt, Page.zero]
  exact hzero _

theorem blankBitmap_inv (slots : PeerSlots) : (blankBitmap slots).Inv := by
  have hpos := slots.pos
  have hmax : slots.val ≤ 32 := slots.le_max
  refine ⟨⟨?_, ?_, ?_, ?_⟩, fun slot _ => ?_⟩
  · show 64 = (512 + 7) / 8
    decide
  · show 2 * slots.val = BsrBitmap.wordsFor 64 slots.val
    rw [BsrBitmap.wordsFor_eq]
  · show 1 = BsrBitmap.pagesFor (2 * slots.val)
    rw [BsrBitmap.pagesFor_eq]
    omega
  · show 64 + 64 < 2 ^ 64
    decide
  · exact (tally_eq_zero (fun i _ _ => blankBitmap_bit slots slot i)).symm

/-- A slot with the bits 5 to 40 set, sent to a blank bitmap with another number of slots. -/
theorem bitmap_exchange_lossless_blank : ∃ r bS' sent bR' received,
      bmOp (blankBitmap ⟨3, by decide, by decide⟩) 1 5 40 .set [] = .ok r ∧
      bsrSendBitmap r.bitmap 1 112 (fun _ => true) = .ok (bS', sent, .done) ∧
      receiveAll 0 112 (sent.map fst) (blankBitmap ⟨1, by decide, by decide⟩)
        (XferCtx.init (blankBitmap ⟨1, by decide, by decide⟩)) = .ok (bR', received) ∧
      bR'.bit 0 17 = true := by
  have hinv := blankBitmap_inv ⟨3, by decide, by decide⟩
  obtain ⟨r, hrun, hdone⟩ := bmOpInner_done .set 5 40 [] hinv.valid (by decide)
    (show 1 < 3 by decide) nofun rfl (bufferOk_plain nofun nofun)
  have hbits : r.bitmap.bmBits = 64 := hdone.shape.bits
  have hset : r.bitmap.bit 1 17 = true := hdone.bits 1 (by decide) 17
  obtain ⟨bS', sent, bR', received, hsend, hrecv, -, -, hunion, -⟩ := bitmap_exchange_lossless r.bitmap
    (blankBitmap ⟨1, by decide, by decide⟩) 1 0 112 (fun _ => true) (hdone.inv hinv (by decide))
    (blankBitmap_inv _) (by rw [hdone.shape.maxPeers]; decide) (by decide) hbits.symm
    (by rw [hbits]; decide)
  refine ⟨r, bS', sent, bR', received, by rw [bmOp_eq hinv.valid (by decide)]; exact hrun, hsend, hrecv, ?_⟩
  rw [hunion 17 (by rw [hbits]; decide), hset, Bool.or_true]

/-! ## Both directions -/

/-- One direction: `_bsr_send_bitmap`, and `receive_bitmap` on each of its packets. -/
def bitmapTransfer (bS : BsrBitmap) (idxS : Nat) (bR : BsrBitmap) (idxR agreedProVersion : Nat)
    (useRle : Nat → Bool) : Except Fault BsrBitmap := do
  let (_, sent, _) ← bsrSendBitmap bS idxS agreedProVersion useRle
  let (bR, _) ← receiveAll idxR agreedProVersion (sent.map fst) bR (XferCtx.init bR)
  return bR

theorem bitmapTransfer_spec {bS bR : BsrBitmap} {idxS idxR : Nat} (agreedProVersion : Nat)
    (useRle : Nat → Bool) (hS : Sendable bS idxS) (hR : bR.Inv) (hidxR : idxR < bR.bmMaxPeers.val)
    (hbits : bR.bmBits = bS.bmBits) : ∃ bR', bitmapTransfer bS idxS bR idxR agreedProVersion
      useRle = .ok bR' ∧ Merged bR bR' idxR 0 bS.bmBits (bS.bit idxS) := by
  have hinit : XferCtx.init bR = XferCtx.init bS := by
    rw [XferCtx.init, XferCtx.init, bsrBmWords_eq hS.valid, bsrBmWords_eq hR.valid, hbits]
  obtain ⟨bS', sent, bR', received, hsend, hrecv, lo, hlo, hdone⟩ := lockstep agreedProVersion useRle
    (bS.bmBits + bsrBmWords bS + 1) 0 hS hR hidxR hbits ctxOk_init (Nat.lt_succ_self _)
  refine ⟨bR', ?_, Nat.le_zero.1 hlo ▸ hdone.merged⟩
  rw [bitmapTransfer, bsrSendBitmap, hsend, hinit]
  show (receiveAll .. >>= _) = _
  rw [hrecv]
  rfl

/-- The source of a resync sends its slot, and `receive_bitmap_finished` of the target sends the
merged slot back. Writes may have set bits of the source until it arrives. Then the target has
nothing out of sync that the source does not know of; without such writes both have the union, and
the same number of bits. -/
theorem bitmap_exchange_converges (bS bS₁ bT : BsrBitmap) (idxS idxT agreedProVersion : Nat)
    (rleS rleT : Nat → Bool) (hS : Sendable bS idxS) (hS₁ : bS₁.Inv) (hT : bT.Inv)
    (hidxS : idxS < bS₁.bmMaxPeers.val) (hidxT : idxT < bT.bmMaxPeers.val) (hbits : bT.bmBits = bS.bmBits)
    (hbits₁ : bS₁.bmBits = bS.bmBits) (hset : ∀ i, bS.bit idxS i = true → bS₁.bit idxS i = true) :
    ∃ bT' bS₁', bitmapTransfer bS idxS bT idxT agreedProVersion rleS = .ok bT' ∧
      bitmapTransfer bT' idxT bS₁ idxS agreedProVersion rleT = .ok bS₁' ∧
      (∀ i < bS.bmBits, bT'.bit idxT i = (bT.bit idxT i || bS.bit idxS i) ∧
        bS₁'.bit idxS i = (bS₁.bit idxS i || bT.bit idxT i)) ∧
      ((∀ i < bS.bmBits, bS₁.bit idxS i = bS.bit idxS i) → bS₁'.bmSet idxS = bT'.bmSet idxT) := by
  obtain ⟨bT', hfirst, hm⟩ := bitmapTransfer_spec agreedProVersion rleS hS hT hidxT hbits
  have hbitsT : bT'.bmBits = bS.bmBits := hm.shape.bits.trans hbits
  have hidxT' : idxT < bT'.bmMaxPeers.val := hm.shape.maxPeers ▸ hidxT
  obtain ⟨bS₁', hsecond, hm'⟩ := bitmapTransfer_spec agreedProVersion rleT
    ⟨hm.inv.valid, hidxT', hbitsT ▸ hS.bits_le⟩ hS₁ hidxS (hbits₁.trans hbitsT.symm)
  have hunion : ∀ i < bS.bmBits, bT'.bit idxT i = (bT.bit idxT i || bS.bit idxS i) ∧
      bS₁'.bit idxS i = (bS₁.bit idxS i || bT.bit idxT i) := by
    intro i hi
    have hgrown := hset i
    rw [hm'.bit_eq idxS hidxS i, hm.bit_eq idxT hidxT i]
    cases hold : bS.bit idxS i <;> simp_all
  refine ⟨bT', bS₁', hfirst, hsecond, hunion, fun hsame => ?_⟩
  rw [hm'.inv.counted idxS (hm'.shape.maxPeers ▸ hidxS), hm.inv.counted idxT hidxT', hm'.shape.bits, hbits₁, hbitsT]
  refine tally_congr fun i _ hi => ?_
  rw [Nat.zero_add] at hi
  rw [(hunion i hi).1, (hunion i hi).2, hsame i hi, Bool.or_comm]

/-- Bits 5 to 40 of the source, and none of the target, are out of sync. -/
theorem bitmap_exchange_converges_blank : ∃ r bT' bS', bmOp (blankBitmap .one) 0 5 40 .set [] =
      .ok r ∧ bitmapTransfer r.bitmap 0 (blankBitmap .one) 0 112 (fun _ => true) = .ok bT' ∧
      bitmapTransfer bT' 0 r.bitmap 0 112 (fun _ => false) = .ok bS' ∧ bS'.bmSet 0 = bT'.bmSet 0 := by
  have hinv := blankBitmap_inv .one
  obtain ⟨r, hrun, hdone⟩ := bmOpInner_done .set 5 40 [] hinv.valid (by decide)
    (show 0 < 1 by decide) nofun rfl (bufferOk_plain nofun nofun)
  have hbits : r.bitmap.bmBits = 64 := hdone.shape.bits
  have hidx : 0 < r.bitmap.bmMaxPeers.val := hdone.shape.maxPeers ▸ Nat.one_pos
  have hinv' := hdone.inv hinv (by decide)
  obtain ⟨bT', bS', hfirst, hsecond, -, hcount⟩ := bitmap_exchange_converges r.bitmap r.bitmap (blankBitmap .one) 0 0
    112 (fun _ => true) (fun _ => false) ⟨hinv'.valid, hidx, by omega⟩ hinv' hinv hidx Nat.one_pos hbits.symm rfl
    fun _ => id
  exact ⟨r, bT', bS', by rw [bmOp_eq hinv.valid (by decide)]; exact hrun, hfirst, hsecond, hcount fun _ _ => rfl⟩

/-! ## Words beyond the end -/

/-- The 64-bit words that the plain packets of a transfer carry. -/
def wordsSent (sent : List (Packet × XferCtx)) : List Nat :=
  sent.flatMap fun x =>
    match x.1 with
    | .plain words => range' (x.2.wordOffset - words.length / 2) (words.length / 2)
    | .compressed _ _ => []

/-- A transfer of plain packets that sends every word once, none from beyond the end of the bitmap,
and no further packet once the last bit has been sent. -/
structure ExactTransfer (b : BsrBitmap) (sent : List (Packet × XferCtx)) : Prop where
  once : wordsSent sent = range ((b.bmBits + 63) / 64)
  ends : ∀ x ∈ sent.dropLast, x.2.bitOffset < b.bmBits

/-- Without `use_rle`, or before protocol 90, every packet is a plain one. -/
theorem sendBitmapRleOrPlain_off {b : BsrBitmap} {idx agreedProVersion : Nat}
    {useRle : Bool} {c : XferCtx} {r : SendResult} (hoff : useRle = false ∨ agreedProVersion < 90)
    (h : sendBitmapRleOrPlain b idx useRle agreedProVersion c = .ok r) : ∃ words, r.packet = some (.plain words) := by
  simp only [sendBitmapRleOrPlain, fillBitmapRleBits, if_pos hoff, sendPlain] at h
  split at h
  · cases h
  · cases h
    exact ⟨_, rfl⟩

/-- A plain packet carries the words between its two contexts, and the one that carries none ends
the transfer; a compressed one has no words. -/
theorem PacketFor.words {bits : Nat → Bool} {b : BsrBitmap} {agreedProVersion : Nat}
    {c c' : XferCtx} {p : Packet} {ret : XferRet} (hp : PacketFor bits agreedProVersion c p c' ret)
    (hc : CtxOk b c) : c.wordOffset ≤ c'.wordOffset ∧
      (wordsSent [(p, c')] = range' c.wordOffset (c'.wordOffset - c.wordOffset) ∧
          c'.wordOffset ≤ c.bmWords ∧ (ret = .done ↔ c.wordOffset = c.bmWords) ∨
        (∀ words, p ≠ .plain words) ∧ wordsSent [(p, c')] = []) := by
  cases hp with
  | @plain words hlen =>
    have hle := hc.word_le
    have hzero : plainWords agreedProVersion c = 0 ↔ c.bmWords ≤ c.wordOffset := plainWords_eq_zero
    have hroom : plainWords agreedProVersion c ≤ c.bmWords - c.wordOffset := Nat.min_le_right _ _
    refine ⟨Nat.le_add_right _ _, .inl ⟨?_, show c.wordOffset + _ ≤ _ by omega, ?_⟩⟩
    · show range' (c.wordOffset + plainWords agreedProVersion c - words.length / 2) (words.length / 2) ++ [] =
        range' c.wordOffset (c.wordOffset + plainWords agreedProVersion c - c.wordOffset)
      rw [append_nil, hlen, Nat.mul_div_cancel_left _ (by decide), Nat.add_sub_cancel, Nat.add_sub_cancel_left]
    · rw [ite_eq_left_iff]
      simp only [reduceCtorEq, imp_false, not_not]
      omega
  | @compressed runs ws start next o encoding code hruns hcoded hlt hle =>
    have hplace := hc.place
    refine ⟨?_, .inr ⟨nofun, rfl⟩⟩
    show c.wordOffset ≤ o / 64
    omega

/-- From a packet boundary on, the words are sent in order and none twice; plain packets alone send
all of them up to `bm_words`, and end at once where none is left. -/
theorem sendLoop_words {b : BsrBitmap} {idx : Nat} {c : XferCtx} (agreedProVersion : Nat)
    (useRle : Nat → Bool) (fuel n : Nat) (hb : Sendable b idx) (hc : CtxOk b c) (hfuel : c.left < fuel) :
    ∃ b' sent, sendLoop idx agreedProVersion useRle fuel n b c = .ok (b', sent, .done) ∧
      (∀ w ∈ wordsSent sent, c.wordOffset ≤ w) ∧ (wordsSent sent).Pairwise (· < ·) ∧
      ((∀ k, useRle k = false ∨ agreedProVersion < 90) →
        wordsSent sent = range' c.wordOffset (bsrBmWords b - c.wordOffset) ∧
        (c.wordOffset = bsrBmWords b → sent.dropLast = [])) := by
  induction fuel generalizing n b c with
  | zero => omega
  | succ fuel ih =>
    have hlimit := hc.words_eq
    have hle := hc.word_le
    obtain ⟨b₁, p, c₁, ret, hsend, hu, hp⟩ := sendBitmapRleOrPlain_spec hb hc (useRle n) agreedProVersion
    obtain ⟨hmono, hwords⟩ := hp.words hc
    have hsorted : (wordsSent [(p, c₁)]).Pairwise (· < ·) ∧
        ∀ w ∈ wordsSent [(p, c₁)], c.wordOffset ≤ w ∧ w < c₁.wordOffset := by
      rcases hwords with ⟨heq, -⟩ | ⟨-, hnone⟩
      · rw [heq]
        refine ⟨pairwise_lt_range', fun w hw => ?_⟩
        rw [mem_range'_1] at hw
        omega
      · rw [hnone]
        exact ⟨.nil, nofun⟩
    have hall : (∀ k, useRle k = false ∨ agreedProVersion < 90) →
        wordsSent [(p, c₁)] = range' c.wordOffset (c₁.wordOffset - c.wordOffset) ∧
          c₁.wordOffset ≤ c.bmWords ∧ (ret = .done ↔ c.wordOffset = c.bmWords) := by
      intro hoff
      obtain ⟨words, hplain⟩ := sendBitmapRleOrPlain_off (hoff n) hsend
      exact hwords.resolve_right fun h => h.1 words (Option.some.inj hplain)
    rcases hp.progress hc hb.valid with ⟨rfl, hend⟩ | ⟨rfl, hc₁, _, _⟩
    · refine ⟨b₁, [(p, c₁)], sendLoop_done hsend, fun w hw => (hsorted.2 w hw).1, hsorted.1, fun hoff => ?_⟩
      obtain ⟨heq, hle₁, hdone⟩ := hall hoff
      have hat := hdone.1 rfl
      refine ⟨?_, fun _ => rfl⟩
      rw [heq, show c₁.wordOffset = bsrBmWords b by omega]
    · obtain ⟨b₂, sent, hrest, hge, hpair, hplain⟩ := ih (n + 1) (hb.of_untouched hu)
        (hc₁.of_untouched hb.valid hu) (by omega)
      have hsplit : wordsSent ((p, c₁) :: sent) = wordsSent [(p, c₁)] ++ wordsSent sent := by
        simp [wordsSent]
      refine ⟨b₂, (p, c₁) :: sent, sendLoop_more hsend hrest, ?_, ?_, fun hoff => ?_⟩
      · rw [hsplit]
        intro w hw
        rcases mem_append.1 hw with hw | hw
        · exact (hsorted.2 w hw).1
        · exact hmono.trans (hge w hw)
      · rw [hsplit, pairwise_append]
        exact ⟨hsorted.1, hpair, fun w hw w' hw' => (hsorted.2 w hw).2.trans_le (hge w' hw')⟩
      · obtain ⟨heq, hle₁, hdone⟩ := hall hoff
        have hsame : bsrBmWords b₁ = bsrBmWords b := by
          rw [bsrBmWords_eq hb.valid, bsrBmWords_eq (hb.of_untouched hu).valid, hu.shape.bits]
        have hnext : c₁.wordOffset = c.wordOffset + (c₁.wordOffset - c.wordOffset) := by omega
        refine ⟨?_, fun hat => absurd (hdone.2 (hat.trans hlimit.symm)) (by decide)⟩
        rw [hsplit, heq, (hplain hoff).1, hsame]
        nth_rewrite 2 [hnext]
        rw [range'_append_1]
        congr 1
        omega

end Bsr.Exchange
