import Bsr.ActLog.Model

/-!
# One transaction block

* the stripes give every ring position a block of its own, for the writer and for the reader;
* `recordOf` says which slots a transaction mentions: the changed ones with their new extents, and
  those in its context window with the extents they have;
* `applyBlock_alTransaction`: replaying a written block overwrites exactly these slots.
-/

namespace Bsr.ActLog

open Function

open Lib Lru

/-! ## Stripes -/

namespace AlLayout

variable (L : AlLayout)

theorem alSize4k_pos : 0 < L.alSize4k :=
  Nat.lt_of_lt_of_le (by decide) L.lower

theorem alSize4k_le : L.alSize4k ≤ 2 ^ 22 :=
  L.upper

theorem alStripes_pos : 0 < L.alStripes :=
  Nat.pos_of_mul_pos_right L.alSize4k_pos

theorem div_alStripes_lt {t : Nat} (ht : t < L.alSize4k) : t / L.alStripes < L.alStripeSize4k :=
  Nat.div_lt_of_lt_mul ht

theorem stripe_lt {t : Nat} (ht : t < L.alSize4k) : L.stripe t < L.alSize4k := by
  have hmod := Nat.mod_lt t L.alStripes_pos
  have hmul := Nat.mul_le_mul_right L.alStripeSize4k (show t % L.alStripes + 1 ≤ L.alStripes from hmod)
  rw [Nat.add_mul] at hmul
  have hdiv := L.div_alStripes_lt ht
  unfold stripe alSize4k
  omega

theorem stripe_inj {t u : Nat} (ht : t < L.alSize4k) (hu : u < L.alSize4k)
    (heq : L.stripe t = L.stripe u) : t = u := by
  have htd := L.div_alStripes_lt ht
  have hud := L.div_alStripes_lt hu
  unfold stripe at heq
  have hdiv : t / L.alStripes = u / L.alStripes := by
    have hmod := congrArg (· % L.alStripeSize4k) heq
    simpa [Nat.mod_eq_of_lt htd, Nat.mod_eq_of_lt hud] using hmod
  have hmod : t % L.alStripes = u % L.alStripes := by
    rw [hdiv] at heq
    exact Nat.eq_of_mul_eq_mul_right (Nat.zero_lt_of_lt htd) (Nat.add_right_cancel heq)
  rw [← Nat.div_add_mod t L.alStripes, ← Nat.div_add_mod u L.alStripes, hdiv, hmod]

/-- What the reader sees at ring position `p`. -/
def cell (disk : Nat → DiskBlock) (p : Nat) : DiskBlock :=
  L.alDisk disk (L.alTrNumberToOnDiskSlot p)

/-- The reader finds transaction `n` at ring position `n % mx`, and a write changes nothing else. -/
theorem cell_update (disk : Nat → DiskBlock) (n : Nat) (block : DiskBlock) {p : Nat}
    (hp : p < L.alSize4k) : L.cell (update disk (L.alTrNumberToOnDiskSector n) block) p =
      if p = n % L.alSize4k then block else L.cell disk p := by
  have hn := Nat.mod_lt n L.alSize4k_pos
  have hle := L.alSize4k_le
  have hsmall := L.stripe_lt hn
  unfold cell alDisk alTrNumberToOnDiskSlot alTrNumberToOnDiskSector
  rw [Nat.mod_eq_of_lt hp, Nat.mod_eq_of_lt (show L.stripe (n % L.alSize4k) * 8 < 2 ^ 32 by omega)]
  by_cases heq : p = n % L.alSize4k
  · rw [if_pos heq, ← heq, Nat.mul_comm 8, update_self]
  · have hne : L.stripe p ≠ L.stripe (n % L.alSize4k) := fun h => heq (L.stripe_inj hp hn h)
    rw [if_neg heq, update_of_ne (by omega)]

/-- The limit on the number of extents leaves room for a full round of contexts in all blocks of the
ring but one. -/
theorem bsrAlExtentsMax_le : L.bsrAlExtentsMax ≤ alContextPerTransaction * (L.alSize4k - 1) ∧
      L.bsrAlExtentsMax ≤ alExtentsMax := by
  unfold bsrAlExtentsMax alExtentsMax alContextPerTransaction
  dsimp only
  split
  · omega
  · omega

end AlLayout

/-! ## The effect of a block -/

/-- What replaying a transaction built from `lc` writes to a slot. -/
def recordOf (lc : LruCache) (alTrCycle e : Nat) : Option Nat :=
  if e ∈ lc.list .toBeChanged then some (lc.lcElement e).lcNewNumber
  else if alTrCycle ≤ e ∧ e < alTrCycle + alContextPerTransaction ∧ e < lc.nrElements then
    some (lc.lcElement e).lcNumber
  else none

section Effect

variable {lc : LruCache} {alTrNumber alTrCycle : Nat}

open List

theorem foldl_applyContext (hnr : lc.nrElements ≤ alExtentsMax) (hcycle : alTrCycle < 2 ^ 16)
    (hot : Nat → Nat) (e : Nat) {k : Nat} (hk : k ≤ alContextPerTransaction) :
    (range k).foldl (applyContext (alTransaction lc alTrNumber alTrCycle)) hot e =
      if alTrCycle ≤ e ∧ e < alTrCycle + k ∧ e < lc.nrElements then (lc.lcElement e).lcNumber
      else hot e := by
  have hnr' : lc.nrElements % 2 ^ 16 = lc.nrElements := Nat.mod_eq_of_lt (by
    unfold alExtentsMax at hnr
    omega)
  induction k with
  | zero => rw [if_neg (by omega)]; rfl
  | succ k ih =>
    rw [range_succ, foldl_append, foldl_cons, foldl_nil]
    have ih := ih (by omega)
    simp only [applyContext, alTransaction, hnr', Nat.mod_eq_of_lt hcycle] at ih ⊢
    by_cases hin : alTrCycle + k < lc.nrElements
    · have hlen : k < min alContextPerTransaction (lc.nrElements - alTrCycle) := by omega
      rw [if_pos hlen, if_neg (by omega), if_neg (by omega)]
      by_cases he : e = alTrCycle + k
      · rw [he, update_self, if_pos (by omega)]
      rw [update_of_ne he, ih]
      congr 1
      apply propext
      omega
    · have hlen : ¬ k < min alContextPerTransaction (lc.nrElements - alTrCycle) := by omega
      rw [if_neg hlen, if_pos ⟨rfl, by omega⟩, ih]
      congr 1
      apply propext
      omega

theorem applyUpdate_some {i f : Nat} (hget : (lc.list .toBeChanged)[i]? = some f)
    (hf : f < alExtentsMax) (hot : Nat → Nat) :
    applyUpdate (alTransaction lc alTrNumber alTrCycle) hot i =
      update hot f (lc.lcElement f).lcNewNumber := by
  have hlen := (List.getElem?_eq_some_iff.mp hget).1
  have hslot : (alTransaction lc alTrNumber alTrCycle).updateSlotNr i = f := by
    simp only [alTransaction, hget]
    unfold alExtentsMax at hf
    omega
  have hextent : (alTransaction lc alTrNumber alTrCycle).updateExtentNr i =
      (lc.lcElement f).lcNewNumber := by
    simp only [alTransaction, hget]
  simp only [applyUpdate, hslot, hextent]
  rw [if_neg, if_neg (Nat.not_le.mpr hf)]
  rintro ⟨hge, -⟩
  exact absurd hlen (Nat.not_lt.mpr hge)

theorem applyUpdate_none {i : Nat} (hget : (lc.list .toBeChanged)[i]? = none) (hot : Nat → Nat) :
    applyUpdate (alTransaction lc alTrNumber alTrCycle) hot i = hot := by
  have hslot : (alTransaction lc alTrNumber alTrCycle).updateSlotNr i = 2 ^ 16 - 1 := by
    simp only [alTransaction, hget]
  simp only [applyUpdate, hslot]
  rw [if_pos]
  exact ⟨getElem?_eq_none_iff.mp hget, trivial⟩

theorem foldl_applyUpdate (hslots : ∀ e ∈ lc.list .toBeChanged, e < alExtentsMax)
    (hot : Nat → Nat) (e k : Nat) :
    (range k).foldl (applyUpdate (alTransaction lc alTrNumber alTrCycle)) hot e =
      if e ∈ (lc.list .toBeChanged).take k then (lc.lcElement e).lcNewNumber else hot e := by
  induction k with
  | zero => simp
  | succ k ih =>
    rw [range_succ, foldl_append, foldl_cons, foldl_nil]
    cases hget : (lc.list .toBeChanged)[k]? with
    | none =>
      have hlen := getElem?_eq_none_iff.mp hget
      rw [applyUpdate_none hget, ih, take_of_length_le hlen,
        take_of_length_le (Nat.le_succ_of_le hlen)]
    | some f =>
      rw [applyUpdate_some hget (hslots f (mem_of_getElem? hget)), take_add_one, hget]
      by_cases he : e = f
      · rw [he, update_self, if_pos (by simp)]
      · rw [update_of_ne he, ih]
        simp [he]

theorem applyBlock_alTransaction (hnr : lc.nrElements ≤ alExtentsMax) (hcycle : alTrCycle < 2 ^ 16)
    (hslots : ∀ e ∈ lc.list .toBeChanged, e < lc.nrElements)
    (hlen : (lc.list .toBeChanged).length ≤ alUpdatesPerTransaction) (hot : Nat → Nat) :
    applyBlock hot ⟨alTransaction lc alTrNumber alTrCycle, true⟩ =
      overwrite (recordOf lc alTrCycle) hot := by
  have hslots' : ∀ e ∈ lc.list .toBeChanged, e < alExtentsMax := fun e he =>
    Nat.lt_of_lt_of_le (hslots e he) hnr
  ext e
  unfold applyBlock
  rw [if_neg (by simp [alTransaction])]
  rw [foldl_applyUpdate hslots', foldl_applyContext hnr hcycle _ _ (Nat.le_refl _),
    take_of_length_le hlen]
  unfold overwrite recordOf
  split_ifs <;> rfl

end Effect

end Bsr.ActLog
