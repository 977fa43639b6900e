import Bsr.Bitmap.Fill
import Bsr.Exchange.Model

/-!
# What the sender puts into a packet

`Runs` cuts a range of bits into maximal runs of alternating value. `fill_bitmap_rle_bits` encodes
such runs from the current bit offset on; `PacketFor` is what every packet of the sender says about
the bits it covers, and how the context moves.
-/

namespace Bsr.Exchange

open Lib Bitmap

/-! ## Runs of bits -/

/-- The bits from `o` to `o'` are runs of the given lengths, the first one of value `p` and the one
that would follow of value `p'`. -/
def Runs (bits : Nat → Bool) : List Nat → Bool → Nat → Bool → Nat → Prop
  | [], p, o, p', o' => p = p' ∧ o = o'
  | rl :: rest, p, o, p', o' =>
    0 < rl ∧ (∀ i, o ≤ i → i < o + rl → bits i = p) ∧ Runs bits rest (!p) (o + rl) p' o'

variable {runs : List Nat}

theorem Runs.append_one {bits : Nat → Bool} {p p' : Bool} {o o' rl : Nat}
    (h : Runs bits runs p o p' o') (hrl : 0 < rl) (hbits : ∀ i, o' ≤ i → i < o' + rl → bits i = p') :
    Runs bits (runs ++ [rl]) p o (!p') (o' + rl) := by
  induction runs generalizing p o with
  | nil =>
    obtain ⟨rfl, rfl⟩ := h
    exact ⟨hrl, hbits, rfl, rfl⟩
  | cons r rest ih => exact ⟨h.1, h.2.1, ih h.2.2⟩

theorem Runs.le {bits : Nat → Bool} {p p' : Bool} {o o' : Nat} (h : Runs bits runs p o p' o') : o ≤ o' := by
  induction runs generalizing p o with
  | nil => exact h.2.le
  | cons r rest ih =>
    have := ih h.2.2
    omega

/-! ## Scanning -/

/-- The scan of the sender leaves the bits and the shape of its bitmap alone. -/
structure Untouched (b b' : BsrBitmap) : Prop where
  shape : b.SameShape b'
  bits : ∀ slot < b.bmMaxPeers.val, ∀ i, b'.bit slot i = b.bit slot i

variable {b : BsrBitmap}

theorem Untouched.rfl : Untouched b b :=
  ⟨.rfl, fun _ _ _ => Eq.refl _⟩

theorem Untouched.trans {b b' b'' : BsrBitmap} (h : Untouched b b') (h' : Untouched b' b'') :
    Untouched b b'' :=
  ⟨h.shape.trans h'.shape, fun slot hslot i =>
    (h'.bits slot (by rw [h.shape.maxPeers]; exact hslot) i).trans (h.bits slot hslot i)⟩

/-- A bitmap that can be transferred: the offsets of the scan stay far from the end of 64 bits. -/
structure Sendable (b : BsrBitmap) (idx : Nat) : Prop where
  valid : b.Valid
  idx_lt : idx < b.bmMaxPeers.val
  bits_le : b.bmBits ≤ 2 ^ 62

theorem Sendable.of_untouched {b b' : BsrBitmap} {idx : Nat} (h : Sendable b idx)
    (hu : Untouched b b') : Sendable b' idx where
  valid := h.valid.of_sameShape hu.shape
  idx_lt := by rw [hu.shape.maxPeers]; exact h.idx_lt
  bits_le := by rw [hu.shape.bits]; exact h.bits_le

/-- The value of the bits the search of a round runs over. -/
def runValue (toggle : Nat) : Bool :=
  decide (toggle = 0)

/-- `e` ends the run of `value` that starts at `o`. -/
structure RunEnd (b : BsrBitmap) (idx : Nat) (value : Bool) (o e : Nat) : Prop where
  start_le : o ≤ e
  le_bits : e ≤ b.bmBits
  inside : ∀ i, o ≤ i → i < e → b.bit idx i = value
  stop : e < b.bmBits → b.bit idx e = !value

theorem RunEnd.of_untouched {b b' : BsrBitmap} {idx o e : Nat} {value : Bool} (hu : Untouched b b')
    (hidx : idx < b.bmMaxPeers.val) (h : RunEnd b' idx value o e) : RunEnd b idx value o e where
  start_le := h.start_le
  le_bits := by rw [← hu.shape.bits]; exact h.le_bits
  inside i hlo hhi := by rw [← hu.bits idx hidx]; exact h.inside i hlo hhi
  stop he := by rw [← hu.bits idx hidx]; exact h.stop (by rw [hu.shape.bits]; exact he)

theorem RunEnd.extend {idx o o' e : Nat} {value : Bool} (hle : o ≤ o')
    (hpiece : ∀ i, o ≤ i → i < o' → b.bit idx i = value) (h : RunEnd b idx value o' e) :
    RunEnd b idx value o e where
  start_le := hle.trans h.start_le
  le_bits := h.le_bits
  inside i hlo hhi := by
    by_cases hi : i < o'
    · exact hpiece i hlo hi
    · exact h.inside i (by omega) hhi
  stop := h.stop

theorem findRunEnd_spec {idx : Nat} (hb : Sendable b idx) (toggle fuel offset : Nat)
    (hoffset : offset < b.bmBits) (hfuel : b.bmBits < offset + fuel) :
    ∃ b' tmp offset', findRunEnd idx b.bmBits toggle fuel b offset = .ok (b', tmp, offset') ∧
      Untouched b b' ∧ RunEnd b idx (runValue toggle) offset (min tmp b.bmBits) := by
  have hbig := hb.bits_le
  induction fuel generalizing b offset with
  | zero => omega
  | succ fuel ih =>
    set op : BmOp := if toggle = 0 then .rangeFindZeroBit else .rangeFindBit with hop
    have hfind : op.isFind = true := by rw [hop]; split <;> rfl
    have hwant : op.want = !runValue toggle := by
      rw [hop, runValue]
      split <;> simp_all [BmOp.want]
    have hmiss : findMiss op (offset + rangeFindNextBit) = offset + rangeFindNextBit + 1 := by
      have hlt : offset + rangeFindNextBit + 1 < 2 ^ 64 := by unfold rangeFindNextBit; omega
      rw [hop]
      split <;> exact Nat.mod_eq_of_lt hlt
    obtain ⟨r, hrun, hdone⟩ := bmOpInner_find op offset (offset + rangeFindNextBit) []
      hb.valid (by omega) hb.idx_lt hfind
    have hu : Untouched b r.bitmap := ⟨hdone.shape, fun slot _ i => hdone.bits slot i⟩
    have hother : ∀ i, b.bit idx i ≠ op.want → b.bit idx i = runValue toggle := by
      intro i hne
      rw [hwant] at hne
      exact Bool.eq_not_of_ne hne |>.trans (Bool.not_not _)
    unfold findRunEnd
    dsimp only
    rw [bmOp_eq hb.valid (by omega), hrun]
    dsimp only
    rcases hdone.answer with hmatch | ⟨hret, hnone⟩
    · -- the piece holds the end of the run
      have hlt : r.ret < offset + rangeFindNextBit + 1 :=
        hmatch.lt_end.trans_le (Nat.min_le_left _ _)
      have hltBits : r.ret < b.bmBits := hmatch.lt_end.trans_le (Nat.min_le_right _ _)
      rw [if_pos (.inr hlt)]
      refine ⟨_, _, _, rfl, hu, ?_⟩
      rw [Nat.min_eq_left hltBits.le]
      exact ⟨hmatch.start_le, hltBits.le, fun i hlo hhi => hother i (hmatch.least i hlo hhi),
        fun _ => hmatch.hit.trans hwant⟩
    · rw [hmiss] at hret
      have hend : rangeEnd b (offset + rangeFindNextBit) = min r.ret b.bmBits := by
        rw [hret]
        rfl
      by_cases hlast : r.ret ≥ b.bmBits
      · rw [if_pos (.inl hlast)]
        refine ⟨_, _, _, rfl, hu, ?_⟩
        rw [Nat.min_eq_right hlast] at hend ⊢
        exact ⟨hoffset.le, le_rfl, fun i hlo hhi => hother i (hnone i hlo (by omega)),
          fun h => absurd h (lt_irrefl _)⟩
      -- nothing in this piece: go on behind it
      rw [if_neg (by omega)]
      have hbits := hu.shape.bits
      obtain ⟨b', tmp, offset', hloop, hu', hrest⟩ := ih (hb.of_untouched hu) r.ret
        (by omega) (by rw [hbits]; omega) (by omega)
      rw [hbits] at hloop hrest
      refine ⟨b', tmp, offset', hloop, hu.trans hu', 
        (hrest.of_untouched hu hb.idx_lt).extend (by omega) ?_⟩
      intro i hlo hhi
      exact hother i (hnone i hlo (by omega))

/-! ## Encoding the runs of one packet -/

/-- The code words of a list of run lengths. -/
def Coded (runs : List Nat) (ws : List (Nat × Nat)) : Prop :=
  List.Forall₂ (fun rl w => vliEncode rl = .ok w) runs ws

variable {ws : List (Nat × Nat)}

theorem Coded.bounds (h : Coded runs ws) : ∀ w ∈ ws, 0 < w.1 ∧ w.1 ≤ 64 ∧ w.2 < 2 ^ w.1 := by
  induction h with
  | nil => simp
  | cons hw _ ih =>
    intro v hv
    rcases List.mem_cons.mp hv with rfl | hv
    · exact vliEncode_bounds hw
    · exact ih v hv

theorem Coded.runs_nil (h : Coded runs ws) (hlen : packedLen ws = 0) : runs = [] := by
  cases h with
  | nil => rfl
  | cons hw hrest =>
    obtain ⟨_, -⟩ := vliEncode_bounds hw
    rw [packedLen_cons] at hlen
    omega

theorem Coded.length_le (h : Coded runs ws) : ws.length ≤ packedLen ws := by
  induction h with
  | nil => simp
  | cons hw _ ih =>
    obtain ⟨_, -⟩ := vliEncode_bounds hw
    rw [packedLen_cons, List.length_cons]
    omega

theorem Coded.append_one (h : Coded runs ws) {rl : Nat}
    {w : Nat × Nat} (hw : vliEncode rl = .ok w) : Coded (runs ++ [rl]) (ws ++ [w]) := by
  induction h with
  | nil => exact .cons hw .nil
  | cons hv _ ih => exact .cons hv ih

/-- What the loop of `fill_bitmap_rle_bits` has done so far: the runs from the offset of the packet
up to the current offset are in the bit stream. -/
structure Encoded (b : BsrBitmap) (idx size : Nat) (c : XferCtx) (start next : Bool) (s : RleState)
    (runs : List Nat) (ws : List (Nat × Nat)) : Prop where
  untouched : Untouched b s.bitmap
  ctx_eq : s.ctx = { c with bitOffset := c.bitOffset + s.plainBits }
  runs_eq : Runs (b.bit idx) runs start c.bitOffset next (c.bitOffset + s.plainBits)
  coded : Coded runs ws
  carries : s.bs.Carries (packedVal ws)
  pos_eq : s.bs.pos = packedLen ws
  length_eq : s.bs.buf.length = size
  room : packedLen ws ≤ 8 * size

/-- How the loop can be left on a bitmap that nobody else changes. -/
inductive Exited (b : BsrBitmap) (idx size : Nat) (c : XferCtx) : RleExit → Prop
  | behind {s : RleState} {start next : Bool} {runs : List Nat} {ws : List (Nat × Nat)}
      (henc : Encoded b idx size c start next s runs ws)
      (hstart : s.encoding = dcbpSetStart 0 start) (hle : s.ctx.bitOffset ≤ b.bmBits) :
      Exited b idx size c (.behind s)
  | returnZero {s : RleState} {start next : Bool} {runs : List Nat} {ws : List (Nat × Nat)}
      (henc : Encoded b idx size c start next s runs ws) : Exited b idx size c (.returnZero s)

section Loop

variable {b : BsrBitmap} {idx size : Nat} {c : XferCtx} {start next : Bool} {s : RleState}
  {runs : List Nat} {ws : List (Nat × Nat)} {e : Nat}

section

variable (h : Encoded b idx size c start next s runs ws)

include h

theorem Encoded.offset_eq : s.ctx.bitOffset = c.bitOffset + s.plainBits := by
  rw [h.ctx_eq]

theorem Encoded.ctx_bits : s.ctx.bmBits = c.bmBits := by
  rw [h.ctx_eq]

omit h in
theorem vliEncode_pos {rl : Nat} (hrl : 0 < rl) :
    vliEncode rl = .error .eoverflow ∨ ∃ w, vliEncode rl = .ok w := by
  unfold vliEncode
  rw [if_neg (by omega), vliEncodeLevels_eq vliLevels_prefixFree]
  cases levelEncode vliLevels (0 + 1) rl with
  | none => exact .inl rfl
  | some w => exact .inr ⟨w, rfl⟩

theorem Encoded.put_word {w : Nat × Nat} {bs : Bitstream} (hend : RunEnd b idx next s.ctx.bitOffset e)
    (hlt : s.ctx.bitOffset < e) (hw : vliEncode (e - s.ctx.bitOffset) = .ok w)
    (hcarries : bs.Carries (packedVal ws + 2 ^ s.bs.pos * w.2)) (hpos : bs.pos = s.bs.pos + w.1)
    (hlen : bs.buf.length = s.bs.buf.length) (hroom : s.bs.pos + w.1 ≤ 8 * s.bs.buf.length) :
    Encoded b idx size c start (!next) (s.put bs e) (runs ++ [e - s.ctx.bitOffset])
      (ws ++ [w]) := by
  have hoffset := h.offset_eq
  have hsum : c.bitOffset + (s.plainBits + (e - s.ctx.bitOffset)) = e := by omega
  have hval : packedVal (ws ++ [w]) = packedVal ws + 2 ^ s.bs.pos * w.2 := by
    rw [packedVal_append, h.pos_eq]
    simp [packedVal]
  have hlength : packedLen (ws ++ [w]) = s.bs.pos + w.1 := by
    rw [h.pos_eq]
    simp
  have hruns := h.runs_eq.append_one (show 0 < e - s.ctx.bitOffset by omega)
    (fun i hlo hhi => hend.inside i (by omega) (by omega))
  constructor
  · exact h.untouched
  · show { s.ctx with bitOffset := e } = { c with bitOffset := _ }
    rw [RleState.put, hsum, h.ctx_eq]
  · rw [Nat.add_assoc] at hruns
    exact hruns
  · exact h.coded.append_one hw
  · rw [hval]
    exact hcarries
  · exact hpos.trans hlength.symm
  · exact hlen.trans h.length_eq
  · rw [hlength, ← h.length_eq]
    exact hroom

theorem Encoded.run_cases (hstart : s.encoding = dcbpSetStart 0 start)
    (hend : RunEnd b idx next s.ctx.bitOffset e) (hlt : s.ctx.bitOffset < e) :
    (∃ exit, encodeRun s e = .leave exit ∧ Exited b idx size c exit) ∨
      ∃ bs runs' ws', encodeRun s e = .next (s.put bs e) ∧
        Encoded b idx size c start (!next) (s.put bs e) runs' ws' := by
  unfold encodeRun vliEncodeBits
  rcases vliEncode_pos (show 0 < e - s.ctx.bitOffset by omega) with hcode | ⟨⟨t, _⟩, hcode⟩
  · rw [hcode]
    exact .inl ⟨_, rfl, .returnZero h⟩
  obtain ⟨ht, ht64, hc⟩ := vliEncode_bounds hcode
  have hval : packedVal ws < 2 ^ s.bs.pos := by
    rw [h.pos_eq]
    exact packedVal_lt (fun w hw => (h.coded.bounds w hw).2.2)
  rw [hcode]
  dsimp only
  rcases bitstreamPutBits_spec h.carries hval ht ht64 hc with ⟨hfull, -⟩ |
    ⟨bs, hput, hcarries, hpos, hlen, hroom⟩
  · rw [hfull]
    exact .inl ⟨_, rfl, .behind h hstart (hlt.le.trans hend.le_bits)⟩
  · rw [hput]
    exact .inr ⟨bs, _, _, rfl, h.put_word hend hlt hcode hcarries hpos hlen hroom⟩

theorem Encoded.with_bitmap {b' : BsrBitmap}
    (hu : Untouched s.bitmap b') (encoding : BitVec 8) (toggle : Nat) :
    Encoded b idx size c start next
      { s with bitmap := b', encoding := encoding, toggle := toggle } runs ws :=
  { h with untouched := h.untouched.trans hu }

theorem Encoded.scan (hb : Sendable b idx)
    (hc : c.bmBits = b.bmBits) (hlt : s.ctx.bitOffset < b.bmBits) :
    ∃ b' tmp offset e, findRunEnd idx s.ctx.bmBits s.toggle (s.ctx.bmBits + 1) s.bitmap
        s.ctx.bitOffset = .ok (b', tmp, offset) ∧
      (if tmp > s.ctx.bmBits then s.ctx.bmBits else tmp) = e ∧ Untouched s.bitmap b' ∧
      RunEnd b idx (runValue s.toggle) s.ctx.bitOffset e := by
  have hbits := h.untouched.shape.bits
  obtain ⟨b', tmp, offset, hrun, hu, hend⟩ := findRunEnd_spec (hb.of_untouched h.untouched) s.toggle
    (s.bitmap.bmBits + 1) s.ctx.bitOffset (by rw [hbits]; exact hlt) (by omega)
  have hctx : s.ctx.bmBits = s.bitmap.bmBits := by rw [h.ctx_bits, hc, hbits]
  refine ⟨b', tmp, offset, min tmp s.bitmap.bmBits, by rw [hctx]; exact hrun, ?_, hu,
    hend.of_untouched h.untouched hb.idx_lt⟩
  split <;> omega

end

/-- The state of the loop between two rounds, once the value of the first run is known. -/
structure Running (b : BsrBitmap) (idx size : Nat) (c : XferCtx) (s : RleState) : Prop where
  encoded : ∃ start runs ws, Encoded b idx size c start (runValue s.toggle) s runs ws ∧
    s.encoding = dcbpSetStart 0 start
  toggle_ne : s.toggle ≠ 2
  here : s.ctx.bitOffset < b.bmBits → b.bit idx s.ctx.bitOffset = runValue s.toggle
  le_bits : s.ctx.bitOffset ≤ b.bmBits

theorem runValue_flip (toggle : Nat) : runValue (if toggle = 0 then 1 else 0) = !runValue toggle := by
  unfold runValue
  split <;> simp_all

theorem Encoded.round_end (h : Encoded b idx size c start (runValue s.toggle) s runs ws)
    (hstart : s.encoding = dcbpSetStart 0 start)
    (hend : RunEnd b idx (runValue s.toggle) s.ctx.bitOffset e) (hlt : s.ctx.bitOffset < e) :
    (∃ exit, encodeRun s e = .leave exit ∧ Exited b idx size c exit) ∨
      ∃ s', encodeRun s e = .next s' ∧ Running b idx size c s' ∧ s.ctx.bitOffset < s'.ctx.bitOffset := by
  rcases h.run_cases hstart hend hlt with hleave | ⟨bs, runs', ws', hnext, henc⟩
  · exact .inl hleave
  refine .inr ⟨s.put bs e, hnext, ?_, hlt⟩
  have hvalue : runValue (s.put bs e).toggle = !runValue s.toggle := runValue_flip s.toggle
  constructor
  · rw [hvalue]
    exact ⟨start, runs', ws', henc, hstart⟩
  · show (if s.toggle = 0 then 1 else 0) ≠ 2
    split <;> decide
  · intro hmore
    rw [hvalue]
    exact hend.stop hmore
  · exact hend.le_bits

theorem Running.round (h : Running b idx size c s) (hb : Sendable b idx) (hc : c.bmBits = b.bmBits)
    (hlt : s.ctx.bitOffset < b.bmBits) :
    (∃ exit, rleRound idx s = .ok (.leave exit) ∧ Exited b idx size c exit) ∨
      ∃ s', rleRound idx s = .ok (.next s') ∧ Running b idx size c s' ∧
        s.ctx.bitOffset < s'.ctx.bitOffset := by
  obtain ⟨start, runs, ws, henc, hstart⟩ := h.encoded
  obtain ⟨b', _, _, e, hfind, hclip, hu, hend⟩ := henc.scan hb hc hlt
  have hpos : s.ctx.bitOffset < e := by
    -- the first bit of the run has the value of the run
    rcases hend.start_le.eq_or_lt with heq | hgt
    · have hstop := hend.stop (by omega)
      rw [← heq, h.here hlt] at hstop
      cases hv : runValue s.toggle <;> rw [hv] at hstop <;> cases hstop
    · exact hgt
  have hround : rleRound idx s = .ok (encodeRun { s with bitmap := b' } e) := by
    unfold rleRound
    rw [hfind]
    dsimp only
    rw [hclip, if_neg (fun hcond => h.toggle_ne hcond.1), if_neg h.toggle_ne, if_neg (by
      show ¬ e - s.ctx.bitOffset = 0
      omega)]
  have henc' : Encoded b idx size c start (runValue s.toggle) { s with bitmap := b' } runs ws :=
    henc.with_bitmap hu s.encoding s.toggle
  rw [hround]
  rcases Encoded.round_end (s := { s with bitmap := b' }) henc' hstart hend hpos with
    ⟨exit, hrun, hexit⟩ | ⟨s', hrun, hrest⟩
  · exact .inl ⟨exit, by rw [hrun], hexit⟩
  · exact .inr ⟨s', by rw [hrun], hrest⟩

theorem rleLoop_running (h : Running b idx size c s) (hb : Sendable b idx) (hc : c.bmBits = b.bmBits)
    (fuel : Nat) (hlt : s.ctx.bitOffset < b.bmBits) (hfuel : b.bmBits ≤ s.ctx.bitOffset + fuel) :
    ∃ exit, rleLoop idx fuel s = .ok exit ∧ Exited b idx size c exit := by
  induction fuel generalizing s with
  | zero => omega
  | succ fuel ih =>
    unfold rleLoop
    rcases h.round hb hc hlt with ⟨exit, hround, hexit⟩ | ⟨_, hround, hrun, _⟩
    · rw [hround]
      exact ⟨exit, rfl, hexit⟩
    rw [hround]
    dsimp only
    obtain ⟨_, _, _, henc, hstart⟩ := hrun.encoded
    rw [henc.ctx_bits, hc]
    split_ifs with hcond
    · exact ih hrun hcond (by omega)
    · exact ⟨_, rfl, .behind henc hstart hrun.le_bits⟩

/-- The state before the first round. -/
def rleInit (b : BsrBitmap) (size : Nat) (c : XferCtx) : RleState :=
  ⟨b, c, 0, bitstreamInit (List.replicate size 0) 0, 0, 2⟩

theorem encoded_init (b : BsrBitmap) (idx size : Nat) (c : XferCtx) (start : Bool) :
    Encoded b idx size c start start (rleInit b size c) [] [] where
  untouched := .rfl
  ctx_eq := rfl
  runs_eq := ⟨rfl, rfl⟩
  coded := .nil
  carries := ⟨isBytes_replicate size, holds_replicate size, Nat.zero_lt_succ 7⟩
  pos_eq := rfl
  length_eq := by simp [rleInit, bitstreamInit]
  room := by simp

theorem rleRound_first (size : Nat) (hb : Sendable b idx) (hc : c.bmBits = b.bmBits)
    (hlt : c.bitOffset < b.bmBits) :
    (∃ exit, rleRound idx (rleInit b size c) = .ok (.leave exit) ∧ Exited b idx size c exit) ∨
      ∃ s', rleRound idx (rleInit b size c) = .ok (.next s') ∧ Running b idx size c s' ∧
        c.bitOffset ≤ s'.ctx.bitOffset := by
  have hinit := encoded_init b idx size c
  obtain ⟨b', _, _, e, hfind, hclip, hu, hend⟩ := (hinit false).scan hb hc hlt
  have htoggle : (rleInit b size c).toggle = 2 := rfl
  have hoffset : (rleInit b size c).ctx.bitOffset = c.bitOffset := rfl
  unfold rleRound
  rw [hfind]
  dsimp only
  rw [hclip, if_pos htoggle]
  rw [hoffset] at hend ⊢
  by_cases hzero : e - c.bitOffset = 0
  · -- the first bit is set
    have heq : e = c.bitOffset := by have := hend.start_le; omega
    rw [if_pos ⟨htoggle, hzero⟩]
    refine .inr ⟨_, rfl, ?_, le_rfl⟩
    constructor
    · exact ⟨true, [], [], (hinit true).with_bitmap hu _ 0, rfl⟩
    · exact Nat.zero_ne_add_one 1
    · intro hmore
      have hstop := hend.stop (by omega)
      rw [heq] at hstop
      exact hstop
    · exact hlt.le
  · rw [if_neg (fun hcond => hzero hcond.2), if_neg hzero]
    have henc := (hinit false).with_bitmap hu (dcbpSetStart 0 false) 2
    have hpos : c.bitOffset < e := by omega
    rcases Encoded.round_end (s := ⟨b', c, dcbpSetStart 0 false, _, 0, 2⟩) henc rfl hend hpos with
      ⟨exit, hrun, hexit⟩ | ⟨s', hrun, hrest, hmore⟩
    · exact .inl ⟨exit, congrArg Except.ok hrun, hexit⟩
    · exact .inr ⟨s', congrArg Except.ok hrun, hrest, hmore.le⟩

/-- The loop of `fill_bitmap_rle_bits` ends, and never with an error. -/
theorem rleLoop_exits (size : Nat) (hb : Sendable b idx) (hc : c.bmBits = b.bmBits)
    (hlt : c.bitOffset < b.bmBits) :
    ∃ exit, rleLoop idx (c.bmBits + 2) (rleInit b size c) = .ok exit ∧ Exited b idx size c exit := by
  unfold rleLoop
  rcases rleRound_first size hb hc hlt with ⟨exit, hround, hexit⟩ | ⟨s', hround, hrun, _⟩
  · rw [hround]
    exact ⟨exit, rfl, hexit⟩
  rw [hround]
  dsimp only
  obtain ⟨_, _, _, henc, hstart⟩ := hrun.encoded
  by_cases hcond : s'.ctx.bitOffset < b.bmBits
  · rw [if_pos (by rw [henc.ctx_bits, hc]; exact hcond)]
    exact rleLoop_running hrun hb hc _ hcond (by omega)
  · rw [if_neg (by rw [henc.ctx_bits, hc]; exact hcond)]
    exact ⟨_, rfl, .behind henc hstart hrun.le_bits⟩

end Loop

end Bsr.Exchange
