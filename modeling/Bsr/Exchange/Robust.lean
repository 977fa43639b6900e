import Bsr.Exchange.Code
import Bsr.Exchange.Lockstep

/-!
# Packets of any peer

`recv_bm_rle_bits` on packets that no sender made.

* `codeWords` lists the code words that its loop comes to, without the bitmap;
* `CodeWord.Harmless` excludes what the loop lets through: a run of zeroes is not compared with the
  size of the bitmap, and a run of ones is set before the loop sees that the packet ends inside its
  code word;
* `Received` are the contexts that packets of harmless code words lead to.
-/

namespace Bsr.Exchange

open Lib Bitmap

/-- A code word and the run that it stands for. -/
structure CodeWord where
  s : Nat
  rl : Nat
  ones : Bool
  /-- The packet ends inside the code word. -/
  truncated : Bool

/-- A truncated run of ones leaves the bitmap, and a complete run of zeroes does not. -/
def CodeWord.Harmless (bmBits : Nat) (w : CodeWord) : Prop :=
  (w.ones = true → w.truncated = true → bmBits < w.s + w.rl) ∧
    (w.ones = false → w.truncated = false → w.s + w.rl ≤ bmBits)

instance (bmBits : Nat) (w : CodeWord) : Decidable (w.Harmless bmBits) :=
  inferInstanceAs (Decidable (_ ∧ _))

/-- The code words that the loop of `recv_bm_rle_bits` comes to; the last one is truncated, or its
run of ones leaves the bitmap, or the packet ends behind it. -/
def codeWords (bmBits : Nat) : Nat → Bitstream → Nat → Nat → Nat → Bool → List CodeWord
  | 0, _, _, _, _, _ => []
  | fuel + 1, bs, lookAhead, haveBits, s, toggle =>
    match vliDecodeBits lookAhead with
    | none => []
    | some (bits, rl) =>
      if haveBits = 0 then []
      else
        ⟨s, rl, toggle, decide (haveBits + bs.left < bits)⟩ ::
          if toggle = true ∧ bmBits < s + rl ∨ haveBits < bits then []
          else
            match bitstreamGetBits bs (64 - (haveBits - bits)) with
            | none => []
            | some (tmp, got, bs) =>
              codeWords bmBits fuel bs ((if bits < 64 then lookAhead >>> bits else 0) |||
                ((tmp <<< (haveBits - bits)) % 2 ^ 64)) (haveBits - bits + got) (s + rl) !toggle

/-- The code words of a packet that `decode_bitmap_c` lets through: neither its code nor its size is
looked at here. -/
def packetWords (encoding : BitVec 8) (code : List Nat) (c : XferCtx) : List CodeWord :=
  match bitstreamGetBits (bitstreamInit code (dcbpGetPadBits encoding)) 64 with
  | none => []
  | some (lookAhead, haveBits, bs) =>
    codeWords c.bmBits (8 * code.length + 1) bs lookAhead haveBits c.bitOffset (dcbpGetStart encoding)

/-- A packet of bytes whose code words are harmless. -/
def Packet.Harmless (c : XferCtx) : Packet → Prop
  | .plain _ => True
  | .compressed encoding code => IsBytes code ∧ ∀ w ∈ packetWords encoding code c, w.Harmless c.bmBits

/-- The contexts of a transfer into a bitmap shaped like `b`; its bits may change between the
packets. -/
inductive Received (b : BsrBitmap) (idx agreedProVersion : Nat) : XferCtx → Prop
  | init : Received b idx agreedProVersion (XferCtx.init b)
  | packet {c : XferCtx} {b' : BsrBitmap} {p : Packet} {r : RecvResult} (h : Received b idx agreedProVersion c)
      (hshape : b.SameShape b') (hinv : b'.Inv) (hp : p.Harmless c)
      (hrun : receiveBitmap b' idx agreedProVersion p c = .ok r) (hmore : r.ret = .more) :
      Received b idx agreedProVersion r.ctx

/-- New bits are bits of the bitmap, in runs of ones with a complete code word. -/
structure Gained (idx : Nat) (ws : List CodeWord) (b b' : BsrBitmap) : Prop where
  shape : b.SameShape b'
  inv : b'.Inv
  new : ∀ slot < b.bmMaxPeers.val, ∀ i, b'.bit slot i = true → b.bit slot i = false →
    slot = idx ∧ i < b.bmBits ∧ ∃ w ∈ ws, w.ones = true ∧ w.truncated = false ∧ w.s ≤ i ∧ i < w.s + w.rl

variable {b b₁ b₂ : BsrBitmap} {idx agreedProVersion : Nat} {c : XferCtx} {w : CodeWord} {ws : List CodeWord}

theorem Gained.refl (hb : b.Inv) : Gained idx ws b b :=
  ⟨.rfl, hb, fun _ _ _ h h' => absurd (h.symm.trans h') nofun⟩

theorem vliDecodeBits_bounds {x t rl : Nat} (h : vliDecodeBits x = some (t, rl)) : 0 < t ∧ t ≤ 64 ∧ 0 < rl := by
  rw [vliDecodeBits, vliDecodeLevels_eq fun l hl => (vliLevels_total l hl).2] at h
  obtain ⟨⟨l, hl, rfl⟩, hrl⟩ := levelDecode_level h
  exact ⟨(vliLevels_total l hl).1, (vliLevels_total l hl).2, hrl⟩

theorem Gained.cons (hwhole : w.truncated = false) (hend : w.s + w.rl ≤ b.bmBits)
    (h₁ : Merged b b₁ idx w.s (w.s + w.rl) fun _ => w.ones) (h₂ : Gained idx ws b₁ b₂) :
    Gained idx (w :: ws) b b₂ := by
  refine ⟨h₁.shape.trans h₂.shape, h₂.inv, fun slot hslot i hbit hold => ?_⟩
  have hstep := h₁.bit_eq slot hslot i
  rw [hold] at hstep
  cases hmid : b₁.bit slot i with
  | false =>
    obtain ⟨hidx, hi, v, hv, hin⟩ := h₂.new slot (by rw [h₁.shape.maxPeers]; exact hslot) i hbit hmid
    exact ⟨hidx, h₁.shape.bits ▸ hi, v, List.mem_cons_of_mem _ hv, hin⟩
  | true =>
    rw [hmid] at hstep
    obtain ⟨hin, hset⟩ := Bool.and_eq_true_iff.mp hstep.symm
    obtain ⟨hidx, hlo, hhi⟩ := of_decide_eq_true hin
    exact ⟨hidx, hhi.trans_le hend, w, List.mem_cons_self, hset, hwhole, hlo, hhi⟩

open Bitstream

theorem decodeLoop_gained {bs : Bitstream} {v lookAhead haveBits s : Nat} {toggle : Bool}
    (fuel : Nat) (hbs : bs.Carries v) (hpad : bs.pos + bs.padBits ≤ 8 * bs.buf.length)
    (hhave : haveBits = min 64 (haveBits + bs.left)) (hfuel : haveBits + bs.left < fuel)
    (hb : b.Inv) (hidx : idx < b.bmMaxPeers.val) (hs : s ≤ b.bmBits)
    (hwords : ∀ w ∈ codeWords b.bmBits fuel bs lookAhead haveBits s toggle, w.Harmless b.bmBits) :
    ∃ b' o, decodeLoop idx b.bmBits fuel ⟨b, bs, lookAhead, haveBits, s, toggle⟩ = .ok (b', o) ∧
      (∀ s ∈ o, s ≤ b.bmBits) ∧ Gained idx (codeWords b.bmBits fuel bs lookAhead haveBits s toggle) b b' := by
  induction fuel generalizing b bs lookAhead haveBits s toggle with
  | zero => omega
  | succ fuel ih =>
    obtain ⟨⟨t, rl⟩, hdec⟩ := Option.isSome_iff_exists.mp (vliDecodeBits_isSome lookAhead)
    obtain ⟨_, _, _⟩ := vliDecodeBits_bounds hdec
    unfold decodeLoop
    unfold codeWords at hwords ⊢
    simp only [hdec] at hwords ⊢
    by_cases hzero : haveBits = 0
    · rw [if_pos hzero]
      exact ⟨_, _, rfl, by simpa using hs, .refl hb⟩
    rw [if_neg hzero] at hwords
    rw [if_neg hzero, if_neg hzero, if_neg (by omega)]
    obtain ⟨hword, hwords⟩ := List.forall_mem_cons.mp hwords
    by_cases hbeyond : toggle = true ∧ b.bmBits < s + rl
    · rw [if_pos ⟨hbeyond.1, by omega⟩]
      exact ⟨_, _, rfl, by simp, .refl hb⟩
    rw [if_neg fun h => hbeyond ⟨h.1, by omega⟩]
    by_cases hfit : haveBits < t
    · -- a truncated run of zeroes
      cases toggle with
      | true => exact absurd ⟨rfl, hword.1 rfl (decide_eq_true (by omega))⟩ hbeyond
      | false =>
        rw [if_neg Bool.false_ne_true]
        dsimp only
        rw [if_pos hfit]
        exact ⟨_, _, rfl, by simp, .refl hb⟩
    have hwhole : decide (haveBits + bs.left < t) = false := decide_eq_false (by omega)
    have hend : s + rl ≤ b.bmBits := by
      cases toggle with
      | true => exact Nat.not_lt.mp fun hlt => hbeyond ⟨rfl, hlt⟩
      | false => exact hword.2 rfl hwhole
    obtain ⟨b₁, hmark, hmerged⟩ : ∃ b₁,
        (if toggle then bmManyBitsOp b idx s (s + rl - 1) .set else .ok b) = .ok b₁ ∧
          Merged b b₁ idx s (s + rl) fun _ => toggle := by
      cases toggle with
      | true => exact Merged.of_set hb hidx (by omega) hend fun _ _ _ => rfl
      | false => exact ⟨_, rfl, .of_clear hb fun _ _ _ => rfl⟩
    have hget := bitstreamGetBits_spec (64 - (haveBits - t)) hbs hpad (by omega) (by omega)
    rw [if_neg (not_or.mpr ⟨hbeyond, hfit⟩), hget] at hwords
    rw [hmark, if_neg (not_or.mpr ⟨hbeyond, hfit⟩), hget]
    dsimp only at hwords ⊢
    rw [if_neg hfit]
    rw [← hmerged.shape.bits] at hwords hend ⊢
    obtain ⟨b₂, o, hrun, ho, hgained⟩ := ih (hbs.advance _) (advance_room hpad (Nat.min_le_right ..))
      (by rw [advance_left]; omega) (by rw [advance_left]; omega) hmerged.inv
      (by rw [hmerged.shape.maxPeers]; exact hidx) hend hwords
    exact ⟨b₂, o, hrun, ho, .cons hwhole (hmerged.shape.bits ▸ hend) hmerged hgained⟩

theorem receiveBitmap_gained {encoding : BitVec 8} {code : List Nat} (hb : b.Inv) (hidx : idx < b.bmMaxPeers.val)
    (hc : CtxOk b c) (hp : (Packet.compressed encoding code).Harmless c) :
    ∃ r, receiveBitmap b idx agreedProVersion (.compressed encoding code) c = .ok r ∧
      Gained idx (packetWords encoding code c) b r.bitmap ∧
      (r.ctx = c ∧ r.ret = .eio ∨
        ∃ o ≤ b.bmBits, r.ctx = c.rleNext o ∧ r.ret = if o ≠ b.bmBits then .more else .done) := by
  obtain ⟨hbytes, hwords⟩ := hp
  have hpadBits : dcbpGetPadBits encoding ≤ 7 := by
    unfold dcbpGetPadBits
    exact Nat.and_le_right
  unfold receiveBitmap
  dsimp only
  split_ifs with hlong hempty
  · exact ⟨_, rfl, .refl hb, .inl ⟨rfl, rfl⟩⟩
  · exact ⟨_, rfl, .refl hb, .inl ⟨rfl, rfl⟩⟩
  · have hbs : (bitstreamInit code (dcbpGetPadBits encoding)).Carries (leVal code) :=
      ⟨hbytes, fun k => (testBit_leVal hbytes k).symm, Nat.zero_lt_succ 7⟩
    have hroom : 0 + dcbpGetPadBits encoding ≤ 8 * code.length := by omega
    have hleft : (bitstreamInit code (dcbpGetPadBits encoding)).left =
        8 * code.length - 0 - dcbpGetPadBits encoding := rfl
    have hget := bitstreamGetBits_spec 64 hbs hroom (by decide) le_rfl
    unfold recvBmRleBits packetWords at *
    rw [hget, hc.bits_eq] at hwords ⊢
    obtain ⟨_, o, hrun, ho, hgained⟩ := decodeLoop_gained (8 * code.length + 1) (hbs.advance _)
      (advance_room hroom (Nat.min_le_right ..)) (by rw [advance_left]; omega)
      (by rw [advance_left]; omega) hb hidx hc.offset_le hwords
    dsimp only
    rw [hrun]
    cases o with
    | none => exact ⟨_, rfl, hgained, .inl ⟨rfl, rfl⟩⟩
    | some o => exact ⟨_, rfl, hgained, .inr ⟨o, ho o rfl, hc.bits_eq ▸ bitToWordOffset_eq c o, rfl⟩⟩
  · exact ⟨_, rfl, .refl hb, .inl ⟨rfl, rfl⟩⟩

theorem Received.ctxOk (h : Received b idx agreedProVersion c) (hb : b.Inv)
    (hidx : idx < b.bmMaxPeers.val) : CtxOk b c := by
  induction h with
  | init => exact ctxOk_init
  | @packet c b' p r h hshape hinv hp hrun hmore ih =>
    have hc : CtxOk b' c := ih.of_bits_eq hb.valid hinv.valid hshape.bits
    refine CtxOk.of_bits_eq ?_ hinv.valid hb.valid hshape.bits.symm
    cases p with
    | plain words =>
      unfold receiveBitmap receiveBitmapPlain at hrun
      dsimp only at hrun
      rw [plainNext_eq] at hrun
      split_ifs at hrun
      · cases hrun
        cases hmore
      · cases hrun
        cases hmore
      · split at hrun
        · cases hrun
        · cases hrun
          exact hc.plainNext
    | compressed encoding code =>
      obtain ⟨_, hrun', -, hend⟩ := @receiveBitmap_gained b' idx agreedProVersion c
        encoding code hinv (by rw [hshape.maxPeers]; exact hidx) hc hp
      cases hrun.symm.trans hrun'
      obtain ⟨-, hret⟩ | ⟨o, ho, hctx, hret⟩ := hend
      · rw [hmore] at hret
        cases hret
      rw [hctx]
      refine hc.rleNext hinv.valid (hc.bits_eq ▸ lt_of_le_of_ne ho ?_)
      rintro rfl
      rw [hmore] at hret
      simp at hret

/-- Any packet ends, sets no bit beyond the bitmap or from a code word that it cuts off, and leaves
the offsets inside the bitmap, if the code words of the transfer are harmless. -/
theorem recv_bm_rle_bits_robust (b₀ b : BsrBitmap) (idx agreedProVersion : Nat) (c : XferCtx) (encoding : BitVec 8)
    (code : List Nat) (hb₀ : b₀.Inv) (hidx : idx < b₀.bmMaxPeers.val) (hc : Received b₀ idx agreedProVersion c)
    (hshape : b₀.SameShape b) (hb : b.Inv) (hp : (Packet.compressed encoding code).Harmless c) :
    ∃ r, receiveBitmap b idx agreedProVersion (.compressed encoding code) c = .ok r ∧
      Gained idx (packetWords encoding code c) b r.bitmap ∧ r.ctx.bitOffset ≤ b.bmBits ∧
      r.ctx.wordOffset ≤ bsrBmWords b := by
  have hok := (hc.ctxOk hb₀ hidx).of_bits_eq hb₀.valid hb.valid hshape.bits
  obtain ⟨r, hrun, hgained, hend⟩ := @receiveBitmap_gained b idx agreedProVersion c encoding code hb
    (by rw [hshape.maxPeers]; exact hidx) hok hp
  refine ⟨r, hrun, hgained, ?_⟩
  obtain ⟨hctx, -⟩ | ⟨o, ho, hctx, -⟩ := hend
  · rw [hctx]
    exact ⟨hok.offset_le, hok.words_eq ▸ hok.word_le⟩
  · rw [hctx, bsrBmWords_eq hb.valid]
    exact ⟨ho, by show o / 64 ≤ _; omega⟩

/-- A cleared bitmap with one slot. -/
def blankSlot : BsrBitmap :=
  blankBitmap .one

/-- A packet with a run of three zeroes. -/
theorem recv_bm_rle_bits_robust_three :
    ∃ r, receiveBitmap blankSlot 0 112 (.compressed 0x52 [1]) (XferCtx.init blankSlot) = .ok r ∧
      r.ctx.bitOffset ≤ 64 := by
  obtain ⟨r, hrun, -, hle, -⟩ := recv_bm_rle_bits_robust blankSlot blankSlot 0 112 _ 0x52 [1] (blankBitmap_inv _)
    (by decide) .init .rfl (blankBitmap_inv _) ⟨(isBytes_replicate 1).set (by decide) 0, by decide +kernel⟩
  exact ⟨r, hrun, hle⟩

/-- A run of 100 zeroes leaves a bitmap of 64 bits, and 17 bits are set from 8 of the 10 bits of a
code word. -/
theorem recv_bm_rle_bits_beyond :
    (receiveBitmap blankSlot 0 112 (.compressed 0x22 [0xdf, 0x0c]) (XferCtx.init blankSlot)).toOption.map
        (fun r => (r.ctx.bitOffset, r.ret)) = some (100, .more) ∧
    (receiveBitmap blankSlot 0 112 (.compressed 0x82 [0x0f]) (XferCtx.init blankSlot)).toOption.map
        (fun r => (r.bitmap.bit 0 16, r.ret)) = some (true, .eio) ∧
    (packetWords 0x82 [0x0f] (XferCtx.init blankSlot)).map CodeWord.truncated = [true] := by
  decide +kernel

end Bsr.Exchange
