import Bsr.Bitmap.Resize

/-!
# The running counters

`bm_set[i]` is kept by adding and subtracting what the operations return. `BsrBitmap.Counted` says
that it is the number of set bits of its slot; this file shows that every operation keeps it, and
that `bm_count_bits` and the fill loop of a resize establish it.
-/

namespace Bsr.Bitmap

open Function

open Lib

namespace BsrBitmap

/-- Every counter is the number of set bits of its slot below `bm_bits`. -/
def Counted (b : BsrBitmap) : Prop :=
  ∀ slot < b.bmMaxPeers.val, b.bmSet slot = tally (b.bit slot) 0 b.bmBits

/-- The bitmap has its shape and its counters are right. -/
structure Inv (b : BsrBitmap) : Prop where
  valid : b.Valid
  counted : b.Counted

end BsrBitmap

variable {op : BmOp} {b : BsrBitmap} {idx start stop : Nat} {src : List (BitVec 32)} {r : BmResult}

section

variable (h : OpDone op b idx start stop src r)

include h

theorem OpDone.tally_changed (hidx : idx < b.bmMaxPeers.val) {f : Bool → Bool → Bool}
    (hf : ∀ old src, f old (op.newBit old src) = op.tallied old src) (hself : ∀ v, f v v = false) :
    tally (fun i => f (b.bit idx i) (r.bitmap.bit idx i)) 0 b.bmBits = r.ret := by
  rw [h.ret_eq, tally_window (show rangeEnd b stop ≤ b.bmBits from Nat.min_le_right _ _)]
  · apply tally_congr
    intro i _ _
    rw [h.bits idx hidx i, if_pos ⟨rfl, by omega⟩, hf]
  · intro i _ hout
    rw [h.bits idx hidx i, if_neg (fun hcond => hout hcond.2), hself]

theorem OpDone.tally_gain (hidx : idx < b.bmMaxPeers.val) (hop : op = .set ∨ op = .merge) :
    tally (r.bitmap.bit idx) 0 b.bmBits = tally (b.bit idx) 0 b.bmBits + r.ret := by
  have hmono : ∀ i, b.bit idx i = true → r.bitmap.bit idx i = true := by
    intro i hi
    rw [h.bits idx hidx i]
    split
    · rcases hop with rfl | rfl <;> simp [BmOp.newBit, hi]
    · exact hi
  rw [Lib.tally_gain (fun i _ _ => hmono i), ← h.tally_changed hidx (f := fun o n => !o && n)]
  · rcases hop with rfl | rfl <;> decide
  · decide

omit h in
theorem OpDone.tally_loss (h : OpDone .clear b idx start stop src r) (hidx : idx < b.bmMaxPeers.val) :
    tally (b.bit idx) 0 b.bmBits = tally (r.bitmap.bit idx) 0 b.bmBits + r.ret := by
  have hmono : ∀ i, r.bitmap.bit idx i = true → b.bit idx i = true := by
    intro i hi
    rw [h.bits idx hidx i] at hi
    split at hi
    · cases hi
    · exact hi
  rw [Lib.tally_gain (fun i _ _ => hmono i), ← h.tally_changed hidx (f := fun o n => !n && o)]
  · decide
  · decide

theorem OpDone.tally_same (hidx : idx < b.bmMaxPeers.val) (hop : ∀ old src, op.newBit old src = old) :
    tally (r.bitmap.bit idx) 0 b.bmBits = tally (b.bit idx) 0 b.bmBits := by
  apply tally_congr
  intro i _ _
  rw [h.bits idx hidx i, hop, ite_self]

theorem OpDone.inv (hb : b.Inv) (hidx : idx < b.bmMaxPeers.val) : r.bitmap.Inv := by
  have hv' := hb.valid.of_sameShape h.shape
  refine ⟨hv', fun slot hslot => ?_⟩
  rw [h.shape.maxPeers] at hslot
  rw [h.shape.bits, h.set_eq]
  by_cases hne : slot = idx
  · subst hne
    have hold := hb.counted slot hslot
    have hle := tally_le (r.bitmap.bit slot) 0 b.bmBits
    have hle' := tally_le (b.bit slot) 0 b.bmBits
    have hlt := hb.valid.bits_lt
    cases op with
    | set =>
      have hgain := h.tally_gain hslot (.inl rfl)
      simp only [setAfter, update_self]
      omega
    | merge =>
      have hgain := h.tally_gain hslot (.inr rfl)
      simp only [setAfter, update_self]
      omega
    | clear =>
      have hloss := h.tally_loss hslot
      simp only [setAfter, update_self]
      omega
    | _ =>
      rw [h.tally_same hslot (fun _ _ => rfl)]
      exact hold
  · have hset : setAfter op b idx r.ret slot = b.bmSet slot := by
      cases op <;> simp [setAfter, hne]
    rw [hset, hb.counted slot hslot]
    apply tally_congr
    intro i _ _
    rw [h.bits slot hslot i, if_neg (fun hcond => hne hcond.1)]

/-! ## `bm_count_bits` -/

/-- Same shape and same bits in every slot. -/
structure SameBits (b b' : BsrBitmap) : Prop where
  shape : b.SameShape b'
  bits : ∀ slot < b.bmMaxPeers.val, ∀ i, b'.bit slot i = b.bit slot i

omit h in
theorem SameBits.trans {b b' b'' : BsrBitmap} (h : SameBits b b') (h' : SameBits b' b'') :
    SameBits b b'' := by
  refine ⟨h.shape.trans h'.shape, fun slot hslot i => ?_⟩
  rw [h'.bits slot (by rw [h.shape.maxPeers]; exact hslot), h.bits slot hslot]

omit h in
theorem SameBits.withSet {b b' : BsrBitmap} (h : SameBits b b') (set : Nat → Nat) :
    SameBits b { b' with bmSet := set } :=
  ⟨{ h.shape with }, h.bits⟩

theorem OpDone.sameBits (hop : ∀ old src, op.newBit old src = old) : SameBits b r.bitmap := by
  refine ⟨h.shape, fun slot hslot i => ?_⟩
  rw [h.bits slot hslot i, hop, ite_self]

end

theorem bufferOk_plain (hmerge : op ≠ .merge) (hextract : op ≠ .extract) :
    BufferOk op b start stop src :=
  ⟨fun h => by rcases h with h | h <;> contradiction, fun h => absurd h hmerge⟩

theorem countSlot_spec (fuel : Nat) (hv : b.Valid) (hidx : idx < b.bmMaxPeers.val) (bit acc : Nat)
    (hfuel : b.bmBits < bit + fuel) (hpos : 0 < fuel) : ∃ b', countSlot idx fuel b bit acc =
        .ok (b', acc + tally (b.bit idx) bit (b.bmBits - bit)) ∧
      SameBits b b' ∧ b'.bmSet = b.bmSet := by
  induction fuel generalizing b bit acc with
  | zero => omega
  | succ fuel ih =>
    rw [countSlot]
    by_cases hmore : bit < b.bmBits
    · have hlast := le_lastBitOnPage b.bmMaxPeers.val idx bit
      set lastBit := lastBitOnPage b.bmMaxPeers.val idx bit
      obtain ⟨r, hrun, hdone⟩ := bmOpInner_done .count bit lastBit [] hv (by omega) hidx nofun rfl
        (bufferOk_plain nofun nofun)
      have hsame := hdone.sameBits (fun _ _ => rfl)
      have hbits := hdone.shape.bits
      have hpeers := hdone.shape.maxPeers
      obtain ⟨b', hloop, hsame', hset⟩ := ih
        (hv.of_sameShape hdone.shape) (by rw [hpeers]; exact hidx) (lastBit + 1) (acc + r.ret)
        (by rw [hbits]; omega) (by omega)
      refine ⟨b', ?_, hsame.trans hsame', ?_⟩
      · rw [if_pos hmore]
        simp only [hrun, hloop]
        congr 2
        rw [hdone.ret_eq, opCount, hbits, tally_congr (fun i _ _ => hsame.bits idx hidx i),
          Nat.add_assoc]
        congr 1
        -- the page's range and the rest make up the range from `bit` on
        by_cases hend : lastBit + 1 ≤ b.bmBits
        · have hrange : rangeEnd b lastBit = lastBit + 1 := Nat.min_eq_left hend
          rw [hrange]
          have hsplit := tally_add (b.bit idx) bit (lastBit + 1 - bit) (b.bmBits - (lastBit + 1))
          rw [show bit + (lastBit + 1 - bit) = lastBit + 1 by omega,
            show lastBit + 1 - bit + (b.bmBits - (lastBit + 1)) = b.bmBits - bit by omega] at hsplit
          exact hsplit.symm
        · have hrange : rangeEnd b lastBit = b.bmBits := Nat.min_eq_right (by omega)
          rw [hrange, show b.bmBits - (lastBit + 1) = 0 by omega]
          rfl
      · rw [hset, hdone.set_eq]
        rfl
    · rw [if_neg hmore, show b.bmBits - bit = 0 by omega]
      exact ⟨b, rfl, ⟨.rfl, fun _ _ _ => rfl⟩, rfl⟩

theorem countSlots_spec (slots : List Nat) (hv : b.Valid)
    (hslots : ∀ idx ∈ slots, idx < b.bmMaxPeers.val) :
    ∃ b', countSlots slots b = .ok b' ∧ SameBits b b' ∧
      ∀ slot, b'.bmSet slot =
        if slot ∈ slots then tally (b.bit slot) 0 b.bmBits else b.bmSet slot := by
  induction slots generalizing b with
  | nil => exact ⟨b, rfl, ⟨.rfl, fun _ _ _ => rfl⟩, fun slot => by simp⟩
  | cons idx rest ih =>
    have hidx := hslots idx (List.mem_cons_self)
    obtain ⟨b₁, hloop, hsame, hset⟩ := countSlot_spec (b.bmBits + 1) hv hidx 0 0 (by omega)
      (by omega)
    set b₂ : BsrBitmap :=
      { b₁ with bmSet := update b₁.bmSet idx (0 + tally (b.bit idx) 0 (b.bmBits - 0)) }
    have hsame₂ : SameBits b b₂ := hsame.withSet _
    obtain ⟨b', hrest, hsame', hset'⟩ := ih (hv.of_sameShape hsame₂.shape) (by
      intro i hi
      rw [hsame₂.shape.maxPeers]
      exact hslots i (List.mem_cons_of_mem _ hi))
    refine ⟨b', ?_, hsame₂.trans hsame', fun slot => ?_⟩
    · simp only [countSlots, hloop]
      exact hrest
    have hbits₂ := hsame₂.shape.bits
    rw [hset' slot, hbits₂]
    by_cases hmem : slot ∈ rest
    · rw [if_pos hmem, if_pos (List.mem_cons_of_mem _ hmem)]
      have hslot := hslots slot (List.mem_cons_of_mem _ hmem)
      exact tally_congr (fun i _ _ => hsame₂.bits slot hslot i)
    rw [if_neg hmem]
    show update b₁.bmSet idx _ slot = _
    by_cases heq : slot = idx
    · subst heq
      simp
    · rw [hset]
      simp [heq, hmem]

end Bsr.Bitmap
