import Bsr.Lib.Reach
import Bsr.Bitmap.Fill

/-!
# Runs of bitmap calls

The calls the rest of the driver makes on a bitmap, as events of a transition system that starts
with a fresh bitmap. The counters are right in every reachable state, and a resize keeps the old
bits and fills the new ones.
-/

namespace Bsr.Bitmap

open Lib

/-- A call on the bitmap of one device. -/
inductive BmCall
  /-- `bsr_bm_set_bits`. -/
  | setBits (idx start stop : Nat)
  /-- `bsr_bm_clear_bits`. -/
  | clearBits (idx start stop : Nat)
  /-- `bsr_bm_count_bits`. -/
  | countBits (idx start stop : Nat)
  /-- `bsr_bm_merge_lel`. -/
  | mergeLel (idx offset number : Nat) (buffer : List (BitVec 32))
  /-- `bsr_bm_set_many_bits`. -/
  | setManyBits (idx start stop : Nat)
  /-- `bsr_bm_clear_many_bits`. -/
  | clearManyBits (idx start stop : Nat)
  /-- `bsr_bm_resize`. -/
  | resize (capacity : Nat) (setNewBits : Bool) (md : Option MdOffsets) (allocOk : Bool)

namespace BmCall

def exec (b : BsrBitmap) : BmCall → Except Fault BsrBitmap
  | setBits idx start stop => (bmOp b idx start stop .set []).map BmResult.bitmap
  | clearBits idx start stop => (bmOp b idx start stop .clear []).map BmResult.bitmap
  | countBits idx start stop => (bmOp b idx start stop .count []).map BmResult.bitmap
  | mergeLel idx offset number buffer =>
    (bsrBmMergeLel b idx offset number buffer).map BmResult.bitmap
  | setManyBits idx start stop => bmManyBitsOp b idx start stop .set
  | clearManyBits idx start stop => bmManyBitsOp b idx start stop .clear
  | resize capacity setNewBits md allocOk =>
    (bsrBmResize b capacity setNewBits md allocOk).map Prod.fst

/-- What the callers promise: an existing slot, a buffer with the announced number of words that
lies inside the 64-bit bit space, a capacity of at most `BSR_MAX_SECTORS_FLEX`. -/
def Legal (b : BsrBitmap) : BmCall → Prop
  | setBits idx _ _ | clearBits idx _ _ | countBits idx _ _ => idx < b.bmMaxPeers.val
  | setManyBits idx _ _ | clearManyBits idx _ _ => idx < b.bmMaxPeers.val
  | mergeLel idx offset number buffer =>
    idx < b.bmMaxPeers.val ∧ 0 < number ∧ buffer.length = 2 * number ∧
      (offset + number) * 64 ≤ 2 ^ 64
  | resize capacity _ _ _ => capacity ≤ maxSectorsFlex

def Step (b : BsrBitmap) (call : BmCall) (b' : BsrBitmap) : Prop :=
  call.Legal b ∧ call.exec b = .ok b'

variable {b : BsrBitmap}

theorem bmOp_inv {op : BmOp} (hop : op = .set ∨ op = .clear ∨ op = .count) (hb : b.Inv) {idx : Nat}
    (hidx : idx < b.bmMaxPeers.val) (start stop : Nat) :
    ∃ r, bmOp b idx start stop op [] = .ok r ∧ r.bitmap.Inv ∧
      r.bitmap.bmMaxPeers = b.bmMaxPeers := by
  by_cases hbits : b.bmBits = 0
  · rw [bmOp, if_pos (.inr hbits)]
    exact ⟨_, rfl, hb, rfl⟩
  have hplain : op ≠ .merge ∧ op ≠ .extract ∧ op ≠ .test ∧ op.isFind = false := by
    rcases hop with rfl | rfl | rfl <;> exact ⟨by simp, by simp, by simp, rfl⟩
  obtain ⟨r, hrun, hdone⟩ := bmOpInner_done op start stop [] hb.valid (by omega) hidx
    hplain.2.2.1 hplain.2.2.2 (bufferOk_plain hplain.1 hplain.2.1)
  rw [bmOp_eq hb.valid (by omega), hrun]
  exact ⟨r, rfl, hdone.inv hb hidx, hdone.shape.maxPeers⟩

theorem bsrBmMergeLel_inv (hb : b.Inv) {idx offset number : Nat} {buffer : List (BitVec 32)}
    (hidx : idx < b.bmMaxPeers.val) (hnumber : 0 < number) (hbuffer : buffer.length = 2 * number)
    (hspace : (offset + number) * 64 ≤ 2 ^ 64) :
    ∃ r, bsrBmMergeLel b idx offset number buffer = .ok r ∧ r.bitmap.Inv ∧
      r.bitmap.bmMaxPeers = b.bmMaxPeers := by
  by_cases hbits : b.bmBits = 0
  · simp only [bsrBmMergeLel, lelOp]
    rw [bmOp, if_pos (.inr hbits)]
    exact ⟨_, rfl, hb, rfl⟩
  · obtain ⟨r, hrun, hdone⟩ := lelOp_done (.inl rfl) hb.valid (by omega) hidx offset number buffer
      hnumber (fun _ => hbuffer) hspace
    exact ⟨r, hrun, hdone.inv hb hidx, hdone.shape.maxPeers⟩

theorem bmManyBitsOp_inv {op : BmOp} (hop : op = .set ∨ op = .clear) (hb : b.Inv)
    (hbits : b.bmBits ≠ 0) {idx : Nat} (hidx : idx < b.bmMaxPeers.val) (start stop : Nat) :
    ∃ b', bmManyBitsOp b idx start stop op = .ok b' ∧ b'.Inv ∧ b'.bmMaxPeers = b.bmMaxPeers := by
  obtain ⟨b', hrun, hshape, hinv, -⟩ := bmManyBitsOp_spec hop hb (by omega) hidx start stop
  exact ⟨b', hrun, hinv, hshape.maxPeers⟩

theorem bmManyBitsOp_empty (op : BmOp) (hbits : b.bmBits = 0) (idx start stop : Nat) :
    bmManyBitsOp b idx start stop op = .ok b ∨
      bmManyBitsOp b idx start stop op = .error .noReturn := by
  have hop : ∀ first last, bmOp b idx first last op [] = .ok ⟨b, 0, []⟩ := by
    intro first last
    rw [bmOp, if_pos (.inr hbits)]
  unfold bmManyBitsOp
  rw [hbits]
  simp only [manyBitsLoop, hop]
  generalize (if stop ≥ 0 then (0 + (2 ^ 64 - 1)) % 2 ^ 64 else stop) = last
  by_cases hstart : start ≤ last
  · exact .inr (if_pos hstart)
  · exact .inl (if_neg hstart)

/-- The calls that do not return: a page index beyond `BM_PAGE_IDX_MASK` in a resize, and the
many-bits loop of an empty bitmap. -/
def Stuck (b : BsrBitmap) (call : BmCall) : Prop :=
  (∃ capacity setNewBits md allocOk, call = .resize capacity setNewBits md allocOk ∧
      call.exec b = .error .bug ∧ bmPageIdxMask + 1 <
        BsrBitmap.pagesFor (BsrBitmap.wordsFor ((capacity + 7) / 8) b.bmMaxPeers.val)) ∨
    (∃ idx start stop, (call = .setManyBits idx start stop ∨ call = .clearManyBits idx start stop) ∧
      call.exec b = .error .noReturn ∧ b.bmBits = 0)

theorem exec_inv (hb : b.Inv) {call : BmCall} (hlegal : call.Legal b) :
    (∃ b', call.exec b = .ok b' ∧ b'.Inv ∧ b'.bmMaxPeers = b.bmMaxPeers) ∨ Stuck b call := by
  have hresult : ∀ {x : Except Fault BmResult},
      (∃ r, x = .ok r ∧ r.bitmap.Inv ∧ r.bitmap.bmMaxPeers = b.bmMaxPeers) →
      ∃ b', x.map BmResult.bitmap = .ok b' ∧ b'.Inv ∧ b'.bmMaxPeers = b.bmMaxPeers := by
    rintro _ ⟨r, rfl, hinv, hpeers⟩
    exact ⟨r.bitmap, rfl, hinv, hpeers⟩
  cases call with
  | setBits idx start stop => exact .inl (hresult (bmOp_inv (.inl rfl) hb hlegal start stop))
  | clearBits idx start stop => exact .inl (hresult (bmOp_inv (.inr (.inl rfl)) hb hlegal start stop))
  | countBits idx start stop => exact .inl (hresult (bmOp_inv (.inr (.inr rfl)) hb hlegal start stop))
  | mergeLel idx offset number buffer =>
    obtain ⟨hidx, hnumber, hbuffer, hspace⟩ := hlegal
    exact .inl (hresult (bsrBmMergeLel_inv hb hidx hnumber hbuffer hspace))
  | setManyBits idx start stop =>
    by_cases hbits : b.bmBits = 0
    · rcases bmManyBitsOp_empty .set hbits idx start stop with h | h
      · exact .inl ⟨b, h, hb, rfl⟩
      · exact .inr (.inr ⟨idx, start, stop, .inl rfl, h, hbits⟩)
    · exact .inl (bmManyBitsOp_inv (.inl rfl) hb hbits hlegal start stop)
  | clearManyBits idx start stop =>
    by_cases hbits : b.bmBits = 0
    · rcases bmManyBitsOp_empty .clear hbits idx start stop with h | h
      · exact .inl ⟨b, h, hb, rfl⟩
      · exact .inr (.inr ⟨idx, start, stop, .inr rfl, h, hbits⟩)
    · exact .inl (bmManyBitsOp_inv (.inr rfl) hb hbits hlegal start stop)
  | resize capacity setNewBits md allocOk =>
    rcases bsrBmResize_total setNewBits md allocOk hb hlegal with ⟨⟨b', _⟩, hrun⟩ | ⟨hbug, hbig⟩
    · refine .inl ⟨b', by simp only [exec, hrun, Except.map], ?_⟩
      rcases bsrBmResize_returns hb hlegal hrun with ⟨-, -, hdone⟩ | ⟨-, rfl, -⟩
      · exact ⟨hdone.inv, hdone.maxPeers⟩
      · exact ⟨hb, rfl⟩
    · refine .inr (.inl ⟨capacity, setNewBits, md, allocOk, rfl, ?_, hbig⟩)
      simp only [exec, hbug, Except.map]

/-- The bitmaps that runs of legal calls from a fresh bitmap reach. -/
def Reached (slots : PeerSlots) : BsrBitmap → Prop :=
  Reachable (fun b => b = bsrBmAlloc slots) Step

theorem Reached.inv {slots : PeerSlots} (hr : Reached slots b) : b.Inv ∧ b.bmMaxPeers = slots := by
  refine Reachable.invariant (P := fun b => b.Inv ∧ b.bmMaxPeers = slots) ?_ ?_ hr
  · rintro s rfl
    exact ⟨empty_inv slots (fun _ _ => rfl), rfl⟩
  rintro s _ _ ⟨hinv, hslots⟩ ⟨hlegal, hexec⟩
  rcases exec_inv hinv hlegal with ⟨_, hrun, hinv', hpeers⟩ | hstuck
  · rw [hexec] at hrun
    cases hrun
    exact ⟨hinv', hpeers.trans hslots⟩
  · rcases hstuck with ⟨_, _, _, _, _, herr, _⟩ | ⟨_, _, _, _, herr, _⟩ <;>
      · rw [hexec] at herr
        cases herr

end BmCall

/-- In every bitmap that calls on a fresh one lead to, each counter is the number of set bits of its
slot; a resize with memory and room on disk succeeds, keeps the bits below both sizes and gives
every new bit the fill value, and one that fails changes nothing. Every legal call returns, but for
the two stuck ones. -/
theorem bitmap_runs_keep_counters {slots : PeerSlots} {b : BsrBitmap}
    (hr : BmCall.Reached slots b) : (∀ slot < slots.val, b.bmSet slot =
      ((Finset.range b.bmBits).filter (fun i => b.bit slot i = true)).card) ∧
    (∀ capacity setNewBits md allocOk b' err, capacity ≤ maxSectorsFlex →
      bsrBmResize b capacity setNewBits md allocOk = .ok (b', err) →
      (err = none → b'.bmBits = (capacity + 7) / 8 ∧
        (∀ slot < slots.val, ∀ i, i < min b.bmBits b'.bmBits → b'.bit slot i = b.bit slot i) ∧
        ∀ slot < slots.val, ∀ i, b.bmBits ≤ i → i < b'.bmBits → b'.bit slot i = setNewBits) ∧
      (err ≠ none → b' = b) ∧
      (allocOk = true → (∀ d ∈ md, (capacity + 7) / 8 ≤ bsrMdOnDiskBits slots d) → err = none)) ∧
    ∀ call : BmCall, call.Legal b → (∃ b', call.exec b = .ok b') ∨ call.Stuck b := by
  obtain ⟨hinv, rfl⟩ := hr.inv
  refine ⟨fun slot hslot => ?_, ?_, ?_⟩
  · rw [hinv.counted slot hslot, tally_eq_card, Nat.zero_add, Finset.range_eq_Ico]
  · intro capacity setNewBits md allocOk b' err hcap hrun
    rcases bsrBmResize_returns hinv hcap hrun with ⟨rfl, hsize, hdone⟩ | ⟨herr, rfl, hwhy⟩
    · exact ⟨fun _ => ⟨hsize, hdone.keep, hdone.fill⟩, fun h => absurd rfl h, fun _ _ => rfl⟩
    · refine ⟨fun h => absurd h herr, fun _ => rfl, fun halloc hroom => ?_⟩
      rcases hwhy with hfailed | ⟨d, hd, hfew⟩
      · cases hfailed.symm.trans halloc
      · exact absurd (hroom d hd) (Nat.not_le.2 hfew)
  · intro call hlegal
    rcases BmCall.exec_inv hinv hlegal with ⟨b', hrun, -, -⟩ | hstuck
    · exact .inl ⟨b', hrun⟩
    · exact .inr hstuck

/-- A fresh bitmap of three slots is resized to 64 bits that are all set. -/
theorem bitmap_runs_keep_counters_example :
    ∃ b, BmCall.Step (bsrBmAlloc ⟨3, by decide, by decide⟩) (.resize 512 true none true) b ∧ b.bmBits = 64 ∧
      b.bmSet 2 = ((Finset.range b.bmBits).filter (fun i => b.bit 2 i = true)).card := by
  obtain ⟨b, hexec, hbits⟩ : ∃ b, (BmCall.resize 512 true none true).exec
      (bsrBmAlloc ⟨3, by decide, by decide⟩) = .ok b ∧ b.bmBits = 64 := ⟨_, rfl, rfl⟩
  have hstep : BmCall.Step (bsrBmAlloc ⟨3, by decide, by decide⟩) (.resize 512 true none true) b :=
    ⟨show 512 ≤ maxSectorsFlex by decide, hexec⟩
  exact ⟨b, hstep, hbits, (bitmap_runs_keep_counters (.next _ (.start rfl) hstep)).1 2 (by decide)⟩

/-- In every such bitmap: `__bm_many_bits_op`, which goes from page to page, leaves the bits and
counters of one call of `__bm_op` for the whole range. -/
theorem many_bits_agree {slots : PeerSlots} {b : BsrBitmap} (hr : BmCall.Reached slots b) (hbits : 0 < b.bmBits)
    {op : BmOp} (hop : op = .set ∨ op = .clear) {idx : Nat} (hidx : idx < slots.val) (start stop : Nat) :
    ∃ b' r, bmManyBitsOp b idx start stop op = .ok b' ∧ bmOp b idx start stop op [] = .ok r ∧
      ∀ slot < slots.val, b'.bmSet slot = r.bitmap.bmSet slot ∧ ∀ i, b'.bit slot i = r.bitmap.bit slot i := by
  obtain ⟨hinv, rfl⟩ := hr.inv
  obtain ⟨b', hmany, hshape, hinv', hdone⟩ := bmManyBitsOp_spec hop hinv hbits hidx start stop
  have hplain : op ≠ .test ∧ op.isFind = false ∧ BufferOk op b start stop [] := by
    rcases hop with rfl | rfl <;> exact ⟨by simp, rfl, bufferOk_plain nofun nofun⟩
  obtain ⟨r, hone, hdone'⟩ :=
    bmOpInner_done op start stop [] hinv.valid hbits hidx hplain.1 hplain.2.1 hplain.2.2
  have hsame : ∀ slot < b.bmMaxPeers.val, ∀ i, b'.bit slot i = r.bitmap.bit slot i := by
    intro slot hslot i
    rw [hdone slot hslot i, hdone'.bits slot hslot i]
    rcases hop with rfl | rfl <;> rfl
  refine ⟨b', r, hmany, by rw [bmOp_eq hinv.valid hbits]; exact hone, fun slot hslot => ⟨?_, hsame slot hslot⟩⟩
  rw [hinv'.counted slot (hshape.maxPeers ▸ hslot), (hdone'.inv hinv hidx).counted slot
    (hdone'.shape.maxPeers ▸ hslot), hshape.bits, hdone'.shape.bits]
  exact tally_congr fun i _ _ => hsame slot hslot i

/-- Both functions clear blocks 5 to 40 of a new bitmap. -/
theorem many_bits_agree_example : ∃ b b' r, BmCall.Step (bsrBmAlloc .one) (.resize 512 true none true) b ∧
    bmManyBitsOp b 0 5 40 .clear = .ok b' ∧ bmOp b 0 5 40 .clear [] = .ok r ∧ b'.bmSet 0 = r.bitmap.bmSet 0 := by
  obtain ⟨b, hexec, hbits⟩ : ∃ b, (BmCall.resize 512 true none true).exec (bsrBmAlloc .one) = .ok b ∧ 0 < b.bmBits :=
    ⟨_, rfl, by decide⟩
  have hstep : BmCall.Step (bsrBmAlloc .one) (.resize 512 true none true) b :=
    ⟨show 512 ≤ maxSectorsFlex by decide, hexec⟩
  obtain ⟨b', r, hmany, hone, hsame⟩ :=
    many_bits_agree (.next _ (.start rfl) hstep) hbits (.inr rfl) (show 0 < 1 by decide) 5 40
  exact ⟨b, b', r, hstep, hmany, hone, (hsame 0 (by decide)).1⟩

end Bsr.Bitmap
