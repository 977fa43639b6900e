import Bsr.Bitmap.Op

/-!
# `____bm_op` refines operations on sets of bits

The abstract view of a bitmap is one set of bits per slot, `BsrBitmap.slotSet`. Every operation of
`____bm_op` acts on the set of its slot as the corresponding set operation on the range
`start..end`, clipped to the bitmap, and returns the size of the change, the count, the position
found or the end marker. A result `.ok` says that no access went past `bm_number_of_pages`.
-/

namespace Bsr.Bitmap

open Lib Finset

namespace BsrBitmap

/-- The bits of a slot that are set. -/
def slotSet (b : BsrBitmap) (slot : Nat) : Set Nat :=
  {i | b.bit slot i = true}

theorem mem_slotSet {b : BsrBitmap} {slot i : Nat} : i ∈ b.slotSet slot ↔ b.bit slot i = true :=
  Iff.rfl

end BsrBitmap

/-- The bits an operation with bounds `start..stop` ranges over. -/
def rangeBits (b : BsrBitmap) (start stop : Nat) : Finset Nat :=
  Finset.Ico start (rangeEnd b stop)

theorem opCount_eq_card (op : BmOp) (b : BsrBitmap) (idx start stop : Nat) (src : Nat → Bool) :
    opCount op b idx start stop src = ((rangeBits b start stop).filter
      (fun i => op.tallied (b.bit idx i) (src (i - start)) = true)).card := by
  rw [opCount, tally_eq_card, rangeBits]
  congr 2
  ext i
  simp only [mem_Ico]
  omega

variable {b : BsrBitmap} {idx start stop : Nat} {buffer : List (BitVec 32)}

theorem bmOpInner_test (hv : b.Valid) (hbits : 0 < b.bmBits) (hidx : idx < b.bmMaxPeers.val) :
    bmOpInner b idx start stop .test buffer =
      .ok ⟨b, if start < rangeEnd b stop ∧ b.bit idx start = true then 1 else 0, []⟩ := by
  have hclip := clipStop_add_one hv hbits stop
  rw [bmOpInner_eq, pageLoop]
  by_cases hstart : start ≤ clipStop b stop
  · obtain ⟨hcursor, hpage⟩ := initScan_cursor b idx start buffer
    have hbound : start < b.bmBits := by
      unfold rangeEnd at hclip
      omega
    have hlt := hv.page_lt hidx hbound
    rw [← hcursor] at hlt
    set pg := word32ToPage (interleavedWord32 b.bmMaxPeers.val idx start)
    have hpg : pg < b.bmPages.length := by
      unfold bitsPerPage at hlt hpage
      omega
    have hdiv : bitAddr b.bmMaxPeers.val idx start / bitsPerPage = pg := by
      rw [← hcursor]
      unfold bitsPerPage at hpage ⊢
      omega
    have hmod : bitAddr b.bmMaxPeers.val idx start % bitsPerPage =
        (initScan b idx start buffer).bitInPage := by
      rw [← hcursor]
      unfold bitsPerPage at hpage ⊢
      omega
    have hget : b.bmPages[pg]? = some b.bmPages[pg] := List.getElem?_eq_getElem hpg
    have hbit : b.bit idx start =
        b.bmPages[pg].testBit (initScan b idx start buffer).bitInPage := by
      rw [BsrBitmap.bit, memBit, hdiv, hget, hmod]
    rw [if_pos (show (initScan b idx start buffer).start ≤ clipStop b stop from hstart), hget]
    simp only [Scan.pageBody, hbit]
    simp [show start < rangeEnd b stop by omega]
    rfl
  · rw [if_neg (show ¬ (initScan b idx start buffer).start ≤ clipStop b stop from hstart)]
    simp [show ¬ start < rangeEnd b stop by omega]
    exact ⟨rfl, rfl, rfl⟩

/-- A result whose slot sets are `f` applied to the range on slot `idx`, and unchanged elsewhere. -/
def UpdatesSlot (b b' : BsrBitmap) (idx : Nat) (new : Set Nat) : Prop :=
  b.SameShape b' ∧ b'.slotSet idx = new ∧
    ∀ slot < b.bmMaxPeers.val, slot ≠ idx → b'.slotSet slot = b.slotSet slot

variable {r : BmResult} {op : BmOp}

theorem OpDone.updatesSlot (h : OpDone op b idx start stop buffer r)
    (hidx : idx < b.bmMaxPeers.val) : UpdatesSlot b r.bitmap idx
      {i | (if i ∈ rangeBits b start stop then
        op.newBit (b.bit idx i) (streamBit buffer (i - start)) else b.bit idx i) = true} := by
  refine ⟨h.shape, ?_, ?_⟩
  · ext i
    rw [BsrBitmap.mem_slotSet, h.bits idx hidx i]
    simp [rangeBits]
  · intro slot hslot hne
    ext i
    rw [BsrBitmap.mem_slotSet, BsrBitmap.mem_slotSet, h.bits slot hslot i,
      if_neg (fun hcond => hne hcond.1)]

/-- The range, as the set operations below use it, splits a slot into touched and untouched bits. -/
theorem OpDone.slot_eq (h : OpDone op b idx start stop buffer r)
    (hidx : idx < b.bmMaxPeers.val) {new : Set Nat} (hin : ∀ i ∈ rangeBits b start stop,
      op.newBit (b.bit idx i) (streamBit buffer (i - start)) = true ↔ i ∈ new)
    (hout : ∀ i ∉ rangeBits b start stop, b.bit idx i = true ↔ i ∈ new) :
    UpdatesSlot b r.bitmap idx new := by
  obtain ⟨hshape, hslot, hother⟩ := h.updatesSlot hidx
  refine ⟨hshape, ?_, hother⟩
  rw [hslot]
  ext i
  by_cases hi : i ∈ rangeBits b start stop
  · simpa [hi] using hin i hi
  · simpa [hi] using hout i hi

/-- The set operation `new` and the counted bits `q` an operation without output amounts to. -/
theorem bmOpInner_updates (op : BmOp) (hv : b.Valid) (hbits : 0 < b.bmBits)
    (hidx : idx < b.bmMaxPeers.val) (hop : op ≠ .test ∧ op.isFind = false ∧ op ≠ .extract)
    (hbuf : BufferOk op b start stop buffer)
    {q : Nat → Prop} [DecidablePred q] {new : Set Nat}
    (hq : ∀ i, op.tallied (b.bit idx i) (streamBit buffer (i - start)) = true ↔ q i)
    (hin : ∀ i ∈ rangeBits b start stop,
      op.newBit (b.bit idx i) (streamBit buffer (i - start)) = true ↔ i ∈ new)
    (hout : ∀ i ∉ rangeBits b start stop, b.bit idx i = true ↔ i ∈ new) :
    ∃ b', bmOpInner b idx start stop op buffer =
        .ok ⟨b', ((rangeBits b start stop).filter q).card, []⟩ ∧ UpdatesSlot b b' idx new := by
  obtain ⟨⟨b', ret, out⟩, hrun, hdone⟩ := bmOpInner_done op start stop buffer hv hbits hidx
    hop.1 hop.2.1 hbuf
  have hret : ret = ((rangeBits b start stop).filter q).card := by
    rw [show ret = _ from hdone.ret_eq, opCount_eq_card]
    congr 1
    exact filter_congr (fun i _ => hq i)
  have hnil : out = [] := hdone.out_other hop.2.2
  exact ⟨b', by rw [hrun, hret, hnil], hdone.slot_eq hidx hin hout⟩

/-- A search of `____bm_op` for bits of value `want`: the least match of the range, or the end
marker when the range has none. -/
def Searches (b : BsrBitmap) (idx start stop : Nat) (want : Bool) (r : BmResult) : Prop :=
  b.SameShape r.bitmap ∧ (∀ slot, r.bitmap.slotSet slot = b.slotSet slot) ∧
    ((r.ret ∈ rangeBits b start stop ∧ b.bit idx r.ret = want ∧
        ∀ i ∈ rangeBits b start stop, i < r.ret → b.bit idx i ≠ want) ∨
      (r.ret = endOfBitmap ∧ ∀ i ∈ rangeBits b start stop, b.bit idx i ≠ want))

theorem FindDone.searches (h : FindDone op b idx start stop r)
    (hmiss : findMiss op stop = endOfBitmap) : Searches b idx start stop op.want r := by
  refine ⟨h.shape, fun slot => ?_, ?_⟩
  · ext i
    rw [BsrBitmap.mem_slotSet, BsrBitmap.mem_slotSet, h.bits]
  simp only [rangeBits, mem_Ico]
  rcases h.answer with hmatch | ⟨hret, hnone⟩
  · exact .inl ⟨⟨hmatch.start_le, hmatch.lt_end⟩, hmatch.hit,
      fun i hi hlt => hmatch.least i hi.1 hlt⟩
  · exact .inr ⟨hret.trans hmiss, fun i hi => hnone i hi.1 hi.2⟩

/-- On a non-empty bitmap of any length, for every number of peer slots and every range, each
operation of `____bm_op` is the corresponding operation on the bit set of its slot. -/
theorem bmOpInner_refines_slotSets (hv : b.Valid) (hbits : 0 < b.bmBits)
    (hidx : idx < b.bmMaxPeers.val) (start stop : Nat) (buffer : List (BitVec 32)) :
    (∃ b', bmOpInner b idx start stop .set buffer = .ok ⟨b',
        ((rangeBits b start stop).filter (fun i => b.bit idx i = false)).card, []⟩ ∧
      UpdatesSlot b b' idx (b.slotSet idx ∪ rangeBits b start stop)) ∧
    (∃ b', bmOpInner b idx start stop .clear buffer = .ok ⟨b',
        ((rangeBits b start stop).filter (fun i => b.bit idx i = true)).card, []⟩ ∧
      UpdatesSlot b b' idx (b.slotSet idx \ rangeBits b start stop)) ∧
    (∃ b', bmOpInner b idx start stop .count buffer = .ok ⟨b',
        ((rangeBits b start stop).filter (fun i => b.bit idx i = true)).card, []⟩ ∧
      UpdatesSlot b b' idx (b.slotSet idx)) ∧
    bmOpInner b idx start stop .test buffer =
      .ok ⟨b, if start < rangeEnd b stop ∧ b.bit idx start = true then 1 else 0, []⟩ ∧
    (start % 32 = 0 → ((rangeBits b start stop).card + 31) / 32 ≤ buffer.length →
      ∃ b', bmOpInner b idx start stop .merge buffer = .ok ⟨b', ((rangeBits b start stop).filter
          (fun i => b.bit idx i = false ∧ streamBit buffer (i - start) = true)).card, []⟩ ∧
        UpdatesSlot b b' idx (b.slotSet idx ∪
          {i | i ∈ rangeBits b start stop ∧ streamBit buffer (i - start) = true})) ∧
    (start % 32 = 0 → ∃ b' out, bmOpInner b idx start stop .extract buffer = .ok ⟨b', 0, out⟩ ∧
      UpdatesSlot b b' idx (b.slotSet idx) ∧
      out.length = ((rangeBits b start stop).card + 31) / 32 ∧
      ∀ j, streamBit out j = (decide (start + j ∈ rangeBits b start stop) && b.bit idx (start + j))) ∧
    (∃ r, bmOpInner b idx start stop .findBit buffer = .ok r ∧ Searches b idx start stop true r) ∧
    (∃ r, bmOpInner b idx start stop .findZeroBit buffer = .ok r ∧
      Searches b idx start stop false r) := by
  have hcard : (rangeBits b start stop).card = rangeEnd b stop - start := Nat.card_Ico _ _
  have hplain : ∀ op, op ≠ .merge ∧ op ≠ .extract → BufferOk op b start stop buffer :=
    fun op hop => ⟨fun h => absurd h (not_or.2 hop), fun h => absurd h hop.1⟩
  refine ⟨?_, ?_, ?_, bmOpInner_test hv hbits hidx, ?_, ?_, ?_, ?_⟩
  · refine bmOpInner_updates .set hv hbits hidx (by decide) (hplain _ (by decide))
      (fun i => by simp [BmOp.tallied]) (fun i hi => ?_) (fun i hi => ?_)
    · simp [BmOp.newBit, hi]
    · simp [BsrBitmap.mem_slotSet, hi]
  · refine bmOpInner_updates .clear hv hbits hidx (by decide) (hplain _ (by decide))
      (fun i => by simp [BmOp.tallied]) (fun i hi => ?_) (fun i hi => ?_)
    · simp [BmOp.newBit, hi]
    · simp [BsrBitmap.mem_slotSet, hi]
  · exact bmOpInner_updates .count hv hbits hidx (by decide) (hplain _ (by decide))
      (fun i => by simp [BmOp.tallied]) (fun _ _ => Iff.rfl) (fun _ _ => Iff.rfl)
  · intro halign henough
    refine bmOpInner_updates .merge hv hbits hidx (by decide)
      ⟨fun _ => halign, fun _ => by rw [← hcard]; exact henough⟩
      (fun i => by simp [BmOp.tallied]) (fun i hi => ?_) (fun i hi => ?_)
    · simp [BmOp.newBit, hi, BsrBitmap.mem_slotSet]
    · simp [BsrBitmap.mem_slotSet, hi]
  · intro halign
    obtain ⟨⟨b', _, out⟩, hrun, hdone⟩ := bmOpInner_done .extract start stop buffer hv
      hbits hidx (by simp) rfl ⟨fun _ => halign, (by simp)⟩
    have hret := hdone.ret_eq.trans (opCount_eq_card _ _ _ _ _ _)
    simp only [BmOp.tallied, Bool.false_eq_true, filter_false, card_empty] at hret
    refine ⟨b', out, by rw [hrun, ← hret],
      hdone.slot_eq hidx (fun _ _ => Iff.rfl) (fun _ _ => Iff.rfl), ?_, fun j => ?_⟩
    · rw [hcard]
      exact hdone.out_length rfl
    rw [hdone.out_bits rfl j]
    congr 1
    simp only [rangeBits, mem_Ico, decide_eq_decide]
    omega
  · obtain ⟨r, hrun, hdone⟩ := bmOpInner_find .findBit start stop buffer hv hbits hidx rfl
    exact ⟨r, hrun, hdone.searches rfl⟩
  · obtain ⟨r, hrun, hdone⟩ := bmOpInner_find .findZeroBit start stop buffer hv hbits hidx rfl
    exact ⟨r, hrun, hdone.searches rfl⟩

/-- A small bitmap: 64 blocks, three peer slots, one page. -/
def threePeers : BsrBitmap :=
  ⟨⟨3, by decide, by decide⟩, 64, 6, 512, [Page.zero], fun _ => 0⟩

theorem threePeers_valid : threePeers.Valid :=
  ⟨rfl, rfl, rfl, by decide⟩

/-- Blocks 5 to 40 are set for the second peer. -/
theorem bmOpInner_refines_slotSets_threePeers : ∃ b', bmOpInner threePeers 1 5 40 .set [] = .ok ⟨b',
        ((rangeBits threePeers 5 40).filter (fun i => threePeers.bit 1 i = false)).card, []⟩ ∧
      UpdatesSlot threePeers b' 1 (threePeers.slotSet 1 ∪ rangeBits threePeers 5 40) :=
  (bmOpInner_refines_slotSets threePeers_valid (by decide) (by decide) 5 40 []).1

/-- The two contracts behind the theorem are needed: a MERGE that starts inside a word runs into
`BUG()`, and on an empty bitmap, which only `__bm_op` filters out, page 0 is addressed. -/
theorem bmOpInner_needs_contract : bmOpInner threePeers 1 1 40 .merge [0, 0] = .error .bug ∧
      bmOpInner (bsrBmAlloc ⟨3, by decide, by decide⟩) 0 0 0 .count [] = .error (.pageIndex 0) :=
  ⟨rfl, rfl⟩

end Bsr.Bitmap
