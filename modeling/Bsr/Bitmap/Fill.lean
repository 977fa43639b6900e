import Bsr.Bitmap.Counter

/-!
# Filling and page-wise ranges

What the fill loop of a growing resize, the reallocation of pages and `__bm_many_bits_op` do to the
bits of every slot.
-/

namespace Bsr.Bitmap

open Function List

open Lib

variable {b : BsrBitmap} {idx : Nat}

theorem rangeEnd_endOfBitmap (hv : b.Valid) : rangeEnd b endOfBitmap = b.bmBits := by
  have hlt := hv.bits_lt
  unfold rangeEnd endOfBitmap
  omega

variable (setNewBits : Bool)

theorem fillOp_newBit (old src : Bool) :
    (if setNewBits then BmOp.set else BmOp.clear).newBit old src = setNewBits := by
  cases setNewBits <;> rfl

/-- The fill loop gives every bit from `obits` on its value, in every slot of the list, and adds the
new bits to the counters. -/
theorem fillSlots_spec (slots : List Nat) (obits : Nat) (setNewBits : Bool) (hv : b.Valid)
    (hbits : 0 < b.bmBits) (hslots : ∀ idx ∈ slots, idx < b.bmMaxPeers.val) (hnodup : slots.Nodup) :
    ∃ b', fillSlots obits b.bmBits setNewBits slots b = .ok b' ∧ b.SameShape b' ∧
      (∀ slot < b.bmMaxPeers.val, ∀ i, b'.bit slot i =
        if slot ∈ slots ∧ obits ≤ i ∧ i < b.bmBits then setNewBits else b.bit slot i) ∧
      ∀ slot, b'.bmSet slot =
        if slot ∈ slots ∧ setNewBits = true then b.bmSet slot + (b.bmBits - obits)
        else b.bmSet slot := by
  induction slots generalizing b with
  | nil => exact ⟨b, rfl, .rfl, by simp, by simp⟩
  | cons idx rest ih =>
    have hidx := hslots idx mem_cons_self
    obtain ⟨hnotMem, hnodup'⟩ := nodup_cons.mp hnodup
    obtain ⟨r, hrun, hdone⟩ := bmOpInner_done (if setNewBits then .set else .clear) obits
      endOfBitmap [] hv hbits hidx (by cases setNewBits <;> nofun) (by cases setNewBits <;> rfl)
      (bufferOk_plain (by cases setNewBits <;> nofun) (by cases setNewBits <;> nofun))
    set set₁ := if setNewBits then b.bmSet idx + (b.bmBits - obits) else b.bmSet idx
    set b₁ : BsrBitmap :=
      { r.bitmap with bmSet := update r.bitmap.bmSet idx set₁ } with hb₁
    have hshape : b.SameShape b₁ := { hdone.shape with }
    have hbit₁ : ∀ slot < b.bmMaxPeers.val, ∀ i, b₁.bit slot i =
        if slot = idx ∧ obits ≤ i ∧ i < b.bmBits then setNewBits else b.bit slot i := by
      intro slot hslot i
      have h := hdone.bits slot hslot i
      rw [rangeEnd_endOfBitmap hv, fillOp_newBit] at h
      exact h
    have hset₁ : ∀ slot, b₁.bmSet slot = if slot = idx then set₁ else b.bmSet slot := by
      intro slot
      show update r.bitmap.bmSet idx set₁ slot = _
      by_cases heq : slot = idx
      · simp [heq]
      · rw [update_of_ne heq, if_neg heq, hdone.set_eq]
        cases setNewBits <;> exact update_of_ne heq _ _
    obtain ⟨b', hrest, hshape', hbits', hset'⟩ := ih (hv.of_sameShape hshape)
      (by rw [hshape.bits]; exact hbits)
      (fun i hi => by rw [hshape.maxPeers]; exact hslots i (mem_cons_of_mem _ hi)) hnodup'
    rw [hshape.bits, hshape.maxPeers] at hbits'
    rw [hshape.bits] at hset' hrest
    refine ⟨b', ?_, hshape.trans hshape', fun slot hslot i => ?_, fun slot => ?_⟩
    · simp only [fillSlots, hrun]
      exact hrest
    · rw [hbits' slot hslot i, hbit₁ slot hslot i]
      by_cases heq : slot = idx
      · subst heq
        simp [hnotMem]
      · simp [heq]
    · rw [hset' slot, hset₁ slot]
      by_cases heq : slot = idx
      · subst heq
        cases setNewBits <;> simp [hnotMem, set₁]
      · simp [heq]

/-! ## Pages -/

theorem memBit_take {pages : List Page} {n k : Nat} (h : k / bitsPerPage < n) :
    memBit (pages.take n) k = memBit pages k := by
  rw [memBit, memBit, getElem?_take_of_lt h]

theorem memBit_append_left {pages more : List Page} {k : Nat}
    (h : k / bitsPerPage < pages.length) : memBit (pages ++ more) k = memBit pages k := by
  rw [memBit, memBit, getElem?_append_left h]

variable {allocOk : Bool}

theorem bmReallocPages_spec {pages npages : List Page} {want : Nat}
    (h : bmReallocPages pages want allocOk = .ok (some npages)) : npages.length = want ∧
      ∀ k, k / bitsPerPage < pages.length → k / bitsPerPage < want →
        memBit npages k = memBit pages k := by
  unfold bmReallocPages at h
  split at h
  · cases h
  split at h
  · cases h
    exact ⟨by rw [length_take]; omega, fun k _ hk => memBit_take hk⟩
  split at h
  · cases h
  cases h
  exact ⟨by rw [length_append, length_replicate]; omega,
    fun k hk _ => memBit_append_left hk⟩

/-! ## `__bm_many_bits_op` -/

theorem bmOp_eq (hv : b.Valid) (hbits : 0 < b.bmBits) (start stop : Nat) (op : BmOp)
    (buffer : List (BitVec 32)) :
    bmOp b idx start stop op buffer = bmOpInner b idx start stop op buffer := by
  have hpos : 0 < b.bmMaxPeers.val := b.bmMaxPeers.pos
  have hpage := hv.page_lt hpos hbits
  have hpages : b.bmPages ≠ [] := by
    intro hnil
    rw [hnil] at hpage
    exact Nat.not_lt_zero _ hpage
  rw [bmOp, if_neg]
  rintro (h | h)
  · exact hpages h
  · omega

variable {op : BmOp}

theorem BitsDone.append {b₁ b₂ : BsrBitmap} {first last stop : Nat}
    {src src' src'' : Nat → Bool} (hop : op ≠ .merge) (hshape : b.SameShape b₁)
    (hfirst : first ≤ last) (hlast : last ≤ stop) (hstop : stop < b.bmBits)
    (h₁ : BitsDone op b b₁ idx first last src) (h₂ : BitsDone op b₁ b₂ idx (last + 1) stop src') :
    BitsDone op b b₂ idx first stop src'' := by
  have hend : ∀ s < b.bmBits, rangeEnd b s = s + 1 := fun s hs => Nat.min_eq_left hs
  have hend₁ : rangeEnd b₁ stop = stop + 1 := Nat.min_eq_left (by rw [hshape.bits]; exact hstop)
  intro slot hslot i
  rw [h₂ slot (by rw [hshape.maxPeers]; exact hslot) i, h₁ slot hslot i, hend₁, hend _ hstop,
    hend last (by omega)]
  by_cases hslotIdx : slot = idx
  · subst hslotIdx
    split_ifs
    all_goals first | omega | rfl | exact BmOp.newBit_src hop _ _ _
  · simp [hslotIdx]

theorem manyBitsLoop_spec (hop : op = .set ∨ op = .clear) (fuel bit stop : Nat)
    (hb : b.Inv) (hidx : idx < b.bmMaxPeers.val) (hstop : stop < b.bmBits)
    (hfuel : stop + 1 < bit + fuel) (hpos : 0 < fuel) :
    ∃ b', manyBitsLoop idx stop op fuel b bit = .ok b' ∧ b.SameShape b' ∧ b'.Inv ∧
      BitsDone op b b' idx bit stop (fun _ => false) := by
  have hlt := hb.valid.bits_lt
  have hplain : op ≠ .merge ∧ op ≠ .extract ∧ op ≠ .test ∧ op.isFind = false := by
    rcases hop with rfl | rfl <;> exact ⟨nofun, nofun, nofun, rfl⟩
  induction fuel generalizing b bit with
  | zero => omega
  | succ fuel ih =>
    rw [manyBitsLoop]
    split_ifs with hmore
    · have hlast := le_lastBitOnPage b.bmMaxPeers.val idx bit
      simp only
      set lastBit := if stop < lastBitOnPage b.bmMaxPeers.val idx bit then stop
        else lastBitOnPage b.bmMaxPeers.val idx bit with hlastBit
      have hbounds : bit ≤ lastBit ∧ lastBit ≤ stop := by
        rw [hlastBit]
        split <;> omega
      obtain ⟨r, hrun, hdone⟩ := bmOpInner_done op bit lastBit [] hb.valid (by omega) hidx
        hplain.2.2.1 hplain.2.2.2 (bufferOk_plain hplain.1 hplain.2.1)
      have hpeers := hdone.shape.maxPeers
      have hbits := hdone.shape.bits
      obtain ⟨b', hloop, hshape, hinv, hrest⟩ := ih
        ((lastBit + 1) % 2 ^ 64) (hdone.inv hb hidx) (by rw [hpeers]; exact hidx)
        (by rw [hbits]; exact hstop) (by omega) (by omega) (by rw [hbits]; exact hlt)
      rw [bmOp_eq hb.valid (by omega), hrun]
      refine ⟨b', hloop, hdone.shape.trans hshape, hinv, ?_⟩
      rw [Nat.mod_eq_of_lt (by omega)] at hrest
      exact BitsDone.append hplain.1 hdone.shape hbounds.1 hbounds.2 hstop hdone.bits hrest
    · refine ⟨b, rfl, .rfl, hb, fun slot hslot i => ?_⟩
      have hend : rangeEnd b stop = stop + 1 := Nat.min_eq_left hstop
      rw [if_neg (by omega)]

/-- `__bm_many_bits_op` sets or clears exactly the range, clipped to the bitmap. -/
theorem bmManyBitsOp_spec (hop : op = .set ∨ op = .clear) (hb : b.Inv)
    (hbits : 0 < b.bmBits) (hidx : idx < b.bmMaxPeers.val) (start stop : Nat) :
    ∃ b', bmManyBitsOp b idx start stop op = .ok b' ∧ b.SameShape b' ∧ b'.Inv ∧
      BitsDone op b b' idx start stop (fun _ => false) := by
  have hclip := clipStop_add_one hb.valid hbits stop
  have hle : rangeEnd b stop ≤ b.bmBits := Nat.min_le_right _ _
  obtain ⟨b', hrun, hshape, hinv, hdone⟩ := manyBitsLoop_spec hop (b.bmBits + 1) start
    (clipStop b stop) hb hidx (by omega) (by omega) (by omega)
  refine ⟨b', hrun, hshape, hinv, fun slot hslot i => ?_⟩
  rw [hdone slot hslot i, show rangeEnd b (clipStop b stop) = rangeEnd b stop by
    rw [← hclip]; exact Nat.min_eq_left (by omega)]

/-! ## Words of a packet -/

theorem lelOp_done (hop : op = .merge ∨ op = .extract) (hv : b.Valid)
    (hbits : 0 < b.bmBits) (hidx : idx < b.bmMaxPeers.val) (offset number : Nat)
    (buffer : List (BitVec 32)) (hnumber : 0 < number) (hbuffer : op = .merge → buffer.length = 2 * number)
    (hspace : (offset + number) * 64 ≤ 2 ^ 64) : ∃ r, lelOp b idx offset number op buffer = .ok r ∧
      OpDone op b idx (offset * 64) (offset * 64 + number * 64 - 1) buffer r := by
  have hstart : offset * 64 % 2 ^ 64 = offset * 64 := Nat.mod_eq_of_lt (by omega)
  have hstop : (offset * 64 + number * 64 + (2 ^ 64 - 1)) % 2 ^ 64 =
      offset * 64 + number * 64 - 1 := by
    omega
  have hrange : rangeEnd b (offset * 64 + number * 64 - 1) ≤ offset * 64 + number * 64 := by
    unfold rangeEnd
    omega
  simp only [lelOp, hstart, hstop]
  rw [bmOp_eq hv hbits]
  refine bmOpInner_done op _ _ buffer hv hbits hidx (by rcases hop with rfl | rfl <;> nofun)
    (by rcases hop with rfl | rfl <;> rfl) ⟨fun _ => by omega, fun h => ?_⟩
  have := hbuffer h
  omega

/-! ## `bsr_bm_resize` -/

/-- `BSR_MAX_SECTORS_FLEX`: the largest capacity the callers ask for. -/
def maxSectorsFlex : Nat := 2 ^ 51

/-- A resize of `b` to `capacity` sectors that succeeded with `b'`. -/
structure ResizeDone (b b' : BsrBitmap) (capacity : Nat) (setNewBits : Bool) : Prop where
  maxPeers : b'.bmMaxPeers = b.bmMaxPeers
  capacity_eq : b'.bmDevCapacity = capacity
  keep : ∀ slot < b.bmMaxPeers.val, ∀ i, i < min b.bmBits b'.bmBits → b'.bit slot i = b.bit slot i
  fill : ∀ slot < b.bmMaxPeers.val, ∀ i, b.bmBits ≤ i → i < b'.bmBits →
    b'.bit slot i = setNewBits
  inv : b'.Inv

/-- The bitmap between the exchange of the pages and the fill or the recount. -/
abbrev resized (b : BsrBitmap) (capacity : Nat) (npages : List Page) : BsrBitmap :=
  ⟨b.bmMaxPeers, (capacity + 7) / 8, BsrBitmap.wordsFor ((capacity + 7) / 8) b.bmMaxPeers.val,
    capacity, npages, b.bmSet⟩

/-- The pages a resize goes on with have the wanted number and keep the bits that stay. -/
structure PagesFit (b : BsrBitmap) (bits : Nat) (npages : List Page) : Prop where
  length : npages.length = BsrBitmap.pagesFor (BsrBitmap.wordsFor bits b.bmMaxPeers.val)
  keep : ∀ slot < b.bmMaxPeers.val, ∀ i, i < min b.bmBits bits →
    memBit npages (bitAddr b.bmMaxPeers.val slot i) = b.bit slot i

variable {capacity : Nat} {npages : List Page}

theorem resized_valid (hcap : capacity ≤ maxSectorsFlex)
    (hfit : PagesFit b ((capacity + 7) / 8) npages) : (resized b capacity npages).Valid := by
  refine ⟨rfl, rfl, hfit.length, ?_⟩
  show (capacity + 7) / 8 + 64 < 2 ^ 64
  unfold maxSectorsFlex at hcap
  omega

/-- A growing resize: the old bits stay, the new ones get the fill value. -/
theorem grow_done (hb : b.Inv) (hcap : capacity ≤ maxSectorsFlex)
    (hfit : PagesFit b ((capacity + 7) / 8) npages) (hgrow : b.bmBits < (capacity + 7) / 8) :
    ∃ b', fillSlots b.bmBits ((capacity + 7) / 8) setNewBits (range b.bmMaxPeers.val)
        (resized b capacity npages) = .ok b' ∧
      b'.bmBits = (capacity + 7) / 8 ∧ ResizeDone b b' capacity setNewBits := by
  have hv := resized_valid hcap hfit
  obtain ⟨b', hrun, hshape, hbits, hset⟩ := fillSlots_spec (range b.bmMaxPeers.val) b.bmBits
    setNewBits hv (show 0 < (capacity + 7) / 8 by omega) (fun i hi => mem_range.mp hi)
    nodup_range
  have hbits' : ∀ slot < b.bmMaxPeers.val, ∀ i, b'.bit slot i =
      if b.bmBits ≤ i ∧ i < (capacity + 7) / 8 then setNewBits else (resized b capacity npages).bit slot i := by
    intro slot hslot i
    have h := hbits slot hslot i
    simp only [mem_range, hslot, true_and] at h
    exact h
  have hold : ∀ slot < b.bmMaxPeers.val, ∀ i < b.bmBits, b'.bit slot i = b.bit slot i := by
    intro slot hslot i hi
    rw [hbits' slot hslot i, if_neg (by omega)]
    exact hfit.keep slot hslot i (by omega)
  have hnew : ∀ slot < b.bmMaxPeers.val, ∀ i, b.bmBits ≤ i → i < (capacity + 7) / 8 →
      b'.bit slot i = setNewBits := by
    intro slot hslot i hlo hhi
    rw [hbits' slot hslot i, if_pos ⟨hlo, hhi⟩]
  have hsize : b'.bmBits = (capacity + 7) / 8 := hshape.bits
  refine ⟨b', hrun, hsize, hshape.maxPeers, hshape.capacity, ?_, ?_, hv.of_sameShape hshape, ?_⟩
  · intro slot hslot i hi
    exact hold slot hslot i (by omega)
  · intro slot hslot i hlo hhi
    exact hnew slot hslot i hlo (by omega)
  · intro slot hslot
    rw [hshape.maxPeers] at hslot
    have hsplit := tally_add (b'.bit slot) 0 b.bmBits ((capacity + 7) / 8 - b.bmBits)
    have hlow : tally (b'.bit slot) 0 b.bmBits = b.bmSet slot := by
      rw [hb.counted slot hslot]
      exact tally_congr (fun i _ hi => hold slot hslot i (by omega))
    have hhigh : tally (b'.bit slot) (0 + b.bmBits) ((capacity + 7) / 8 - b.bmBits) =
        if setNewBits = true then (capacity + 7) / 8 - b.bmBits else 0 := by
      cases setNewBits with
      | true => exact tally_eq_length (fun i hlo hhi => hnew slot hslot i (by omega) (by omega))
      | false => exact tally_eq_zero (fun i hlo hhi => hnew slot hslot i (by omega) (by omega))
    rw [show b.bmBits + ((capacity + 7) / 8 - b.bmBits) = (capacity + 7) / 8 by omega, hlow,
      hhigh] at hsplit
    have hslotSet := hset slot
    simp only [mem_range, show slot < b.bmMaxPeers.val from hslot] at hslotSet
    rw [hsize, hsplit, hslotSet]
    cases setNewBits <;> rfl

/-- A resize that does not grow: the kept bits stay and are counted anew. -/
theorem shrink_done (hcap : capacity ≤ maxSectorsFlex)
    (hfit : PagesFit b ((capacity + 7) / 8) npages) (hshrink : ¬ b.bmBits < (capacity + 7) / 8) :
    ∃ b', bmCountBits (resized b capacity npages) = .ok b' ∧
      b'.bmBits = (capacity + 7) / 8 ∧ ResizeDone b b' capacity setNewBits := by
  have hv := resized_valid hcap hfit
  obtain ⟨b', hrun, hsame, hset⟩ := countSlots_spec (range b.bmMaxPeers.val) hv
    (fun i hi => mem_range.mp hi)
  have hsize : b'.bmBits = (capacity + 7) / 8 := hsame.shape.bits
  refine ⟨b', hrun, hsize, hsame.shape.maxPeers, hsame.shape.capacity, ?_, ?_,
    hv.of_sameShape hsame.shape, ?_⟩
  · intro slot hslot i hi
    rw [hsame.bits slot hslot i]
    exact hfit.keep slot hslot i (by omega)
  · omega
  · intro slot hslot
    rw [hsame.shape.maxPeers] at hslot
    rw [hset slot, if_pos (mem_range.mpr hslot), hsize]
    exact tally_congr (fun i _ _ => (hsame.bits slot hslot i).symm)

theorem empty_inv (slots : PeerSlots) {set : Nat → Nat} (hset : ∀ i < slots.val, set i = 0) :
    BsrBitmap.Inv ⟨slots, 0, 0, 0, [], set⟩ := by
  have hwords : BsrBitmap.wordsFor 0 slots.val = 0 := by
    rw [BsrBitmap.wordsFor_eq]
    omega
  refine ⟨⟨show 0 = (0 + 7) / 8 by decide, hwords.symm,
    (BsrBitmap.pagesFor_eq 0).symm, show 0 + 64 < 2 ^ 64 by decide⟩, ?_⟩
  intro slot hslot
  exact hset slot hslot

theorem resizePages_spec {bits : Nat} (hb : b.Inv)
    (h : resizePages b (BsrBitmap.pagesFor (BsrBitmap.wordsFor bits b.bmMaxPeers.val)) allocOk =
      .ok (some npages)) : PagesFit b bits npages := by
  unfold resizePages at h
  split at h
  · rename_i hwant
    cases h
    exact ⟨hwant.symm, fun _ _ _ _ => rfl⟩
  · obtain ⟨hlen, hmem⟩ := bmReallocPages_spec h
    refine ⟨hlen, fun slot hslot i hi => hmem _ ?_ ?_⟩
    · exact hb.valid.page_lt hslot (by omega)
    · exact BsrBitmap.page_lt_pagesFor hslot (by omega)

theorem bsrBmResize_returns {setNewBits : Bool} {md : Option MdOffsets}
    (hb : b.Inv) (hcap : capacity ≤ maxSectorsFlex) {b' : BsrBitmap}
    {err : Option Errno} (h : bsrBmResize b capacity setNewBits md allocOk = .ok (b', err)) :
    (err = none ∧ b'.bmBits = (capacity + 7) / 8 ∧ ResizeDone b b' capacity setNewBits) ∨
      (err ≠ none ∧ b' = b ∧
        (allocOk = false ∨ ∃ d ∈ md, bsrMdOnDiskBits b.bmMaxPeers d < (capacity + 7) / 8)) := by
  have hbitsEq : (capacity + 7) / 8 * 8 / 8 = (capacity + 7) / 8 := by omega
  unfold bsrBmResize at h
  by_cases hsameCap : capacity = b.bmDevCapacity
  · rw [if_pos hsameCap] at h
    cases h
    refine .inl ⟨rfl, by rw [hb.valid.bits_eq, hsameCap], rfl, hsameCap.symm, fun _ _ _ _ => rfl,
      ?_, hb⟩
    omega
  split_ifs at h with hzero
  · cases h
    subst hzero
    refine .inl ⟨rfl, rfl, rfl, rfl, ?_, ?_, empty_inv _ (fun i hi => if_pos hi)⟩
    · simp
    · simp
  rw [hbitsEq] at h
  dsimp only at h
  split at h
  · rename_i hany
    cases h
    refine .inr ⟨nofun, rfl, .inr ?_⟩
    simpa [Option.any_eq_true] using hany
  split at h
  · cases h
  · rename_i hnone
    cases h
    refine .inr ⟨nofun, rfl, .inl ?_⟩
    unfold resizePages bmReallocPages at hnone
    split_ifs at hnone with _ _ _ halloc
    all_goals simp_all
  · rename_i npages hnpages
    have hfit := resizePages_spec hb hnpages
    split at h
    · rename_i hgrow
      obtain ⟨b'', hrun, hsize, hdone⟩ := grow_done setNewBits hb hcap hfit hgrow
      rw [hrun] at h
      cases h
      exact .inl ⟨rfl, hsize, hdone⟩
    · rename_i hshrink
      obtain ⟨b'', hrun, hsize, hdone⟩ := shrink_done setNewBits hcap hfit hshrink
      rw [hrun] at h
      cases h
      exact .inl ⟨rfl, hsize, hdone⟩

/-- `bsr_bm_resize` returns, unless a new page's index does not fit `BM_PAGE_IDX_MASK`. -/
theorem bsrBmResize_total (md : Option MdOffsets)
    (allocOk : Bool) (hb : b.Inv) (hcap : capacity ≤ maxSectorsFlex) :
    (∃ res, bsrBmResize b capacity setNewBits md allocOk = .ok res) ∨
      (bsrBmResize b capacity setNewBits md allocOk = .error .bug ∧
        bmPageIdxMask + 1 <
          BsrBitmap.pagesFor (BsrBitmap.wordsFor ((capacity + 7) / 8) b.bmMaxPeers.val)) := by
  have hbitsEq : (capacity + 7) / 8 * 8 / 8 = (capacity + 7) / 8 := by omega
  unfold bsrBmResize
  by_cases hsameCap : capacity = b.bmDevCapacity
  · rw [if_pos hsameCap]
    exact .inl ⟨_, rfl⟩
  by_cases hzero : capacity = 0
  · rw [if_neg hsameCap, if_pos hzero]
    exact .inl ⟨_, rfl⟩
  rw [if_neg hsameCap, if_neg hzero, hbitsEq]
  dsimp only
  split
  · exact .inl ⟨_, rfl⟩
  cases hpages : resizePages b (BsrBitmap.pagesFor
      (BsrBitmap.wordsFor ((capacity + 7) / 8) b.bmMaxPeers.val)) allocOk with
  | error f =>
    refine .inr ?_
    unfold resizePages bmReallocPages at hpages
    split_ifs at hpages
    all_goals cases hpages
    exact ⟨rfl, by omega⟩
  | ok npages =>
    refine .inl ?_
    cases npages with
    | none => exact ⟨_, rfl⟩
    | some npages =>
      have hfit := resizePages_spec hb hpages
      dsimp only
      split
      · rename_i hgrow
        obtain ⟨b'', hrun, -, -⟩ := grow_done setNewBits hb hcap hfit hgrow
        rw [hrun]
        exact ⟨_, rfl⟩
      · rename_i hshrink
        obtain ⟨b'', hrun, -, -⟩ := shrink_done setNewBits hcap hfit hshrink
        rw [hrun]
        exact ⟨_, rfl⟩

end Bsr.Bitmap
