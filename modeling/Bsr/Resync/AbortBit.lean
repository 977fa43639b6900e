import Bsr.Lib.BitRange

/-!
# Where an aborted verify resumes

A fast online verify has a bitmap of its own (`fast_ov_bitmap`). `bsr_ov_bm_find_abort_bit` counts
`ov_left` bits from its end to find where the verify stopped (`bsr_bitmap.c`).

* `totalWeight` and `rangeFindNext` are the weight and the search of a verify from some position on;
* `find_abort_bit_iff`: the verify resumes with the bits that are left, unless there are none.
-/

namespace Bsr.Resync

open Lib

/-- A verify with a bitmap, to which a reference is held. -/
structure OvBitmap where
  /-- `bsr_bm_bits`. -/
  bits : Nat
  buffer : Nat → UInt8
  ovLeft : Nat

namespace OvBitmap

variable (v : OvBitmap)

def testBit (bit : Nat) : Bool :=
  (v.buffer (bit >>> 3)).toNat.testBit (bit % 8)

/-- `bsr_ov_bm_total_weight` of a verify at position `bit` that is not stopped. -/
def totalWeight (bit : Nat) : Nat :=
  tally v.testBit bit (v.bits - bit)

/-- `bsr_ov_bm_range_find_next` of a verify that is not stopped. -/
def rangeFindNext (start stop : Nat) : Nat :=
  findFrom (fun bit => v.bits ≤ bit || v.testBit bit) (stop - start) start

/-- The loop of `bsr_ov_bm_find_abort_bit` from `bit` down, with `s` bits found; bit 0 is not looked
at. -/
def abortFrom : Nat → Nat → Nat
  | 0, _ => 0
  | bit + 1, s =>
    if v.testBit (bit + 1) then if s + 1 = v.ovLeft then bit + 1 else abortFrom bit (s + 1)
    else abortFrom bit s

/-- `bsr_ov_bm_find_abort_bit`; without bits the position wraps. -/
def findAbortBit : Nat :=
  v.abortFrom ((v.bits + (2 ^ 64 - 1)) % 2 ^ 64) 0

/-- A verify from `bit` on begins with this bit and has `ov_left` bits. -/
structure Resumes (bit : Nat) : Prop where
  lt : bit < v.bits
  next : ∀ stop > bit, v.rangeFindNext bit stop = bit
  weight : v.totalWeight bit = v.ovLeft

variable {v : OvBitmap} {bit : Nat}

theorem totalWeight_eq (h : bit < v.bits) :
    v.totalWeight bit = v.totalWeight (bit + 1) + (v.testBit bit).toNat := by
  have hround : v.bits - bit = 1 + (v.bits - (bit + 1)) := by omega
  rw [totalWeight, hround, tally_add, Nat.add_comm, totalWeight, tally_succ, tally_zero, Nat.zero_add]
  cases v.testBit bit <;> rfl

theorem rangeFindNext_eq_iff (h : bit < v.bits) :
    (∀ stop > bit, v.rangeFindNext bit stop = bit) ↔ v.testBit bit = true := by
  constructor
  · intro hnext
    have hone := hnext (bit + 1) (by omega)
    rw [rangeFindNext, Nat.add_sub_cancel_left, findFrom, findFrom] at hone
    cases hset : v.testBit bit
    · simp [hset, h] at hone
    · rfl
  · intro hset stop hstop
    obtain ⟨n, hn⟩ := Nat.exists_eq_add_of_lt hstop
    have hround : stop - bit = n + 1 := by omega
    rw [rangeFindNext, hround, findFrom, hset, Bool.or_true, if_pos rfl]

/-- The loop has found all bits above `bit`, and fewer than it looks for. -/
theorem abortFrom_spec (hweight : v.ovLeft ≤ v.totalWeight 0) (s : Nat) (hbit : bit < v.bits)
    (hs : s = v.totalWeight (bit + 1)) (hless : s < v.ovLeft) :
    v.abortFrom bit s < v.bits ∧ v.testBit (v.abortFrom bit s) = true ∧
      v.totalWeight (v.abortFrom bit s) = v.ovLeft := by
  have hround := totalWeight_eq hbit
  induction bit generalizing s with
  | zero =>
    rw [Nat.zero_add] at hs hround
    rw [abortFrom]
    cases hset : v.testBit 0 <;> rw [hset] at hround <;> simp at hround
    · omega
    · exact ⟨hbit, rfl, by omega⟩
  | succ bit ih =>
    have hbelow := totalWeight_eq (show bit < v.bits by omega)
    rw [abortFrom]
    cases hset : v.testBit (bit + 1) <;> rw [hset] at hround <;> simp at hround
    · exact ih s (by omega) (by omega) hless hbelow
    · rw [if_pos rfl]
      split
      · exact ⟨hbit, hset, by omega⟩
      · exact ih (s + 1) (by omega) (by omega) (by omega) hbelow

end OvBitmap

open OvBitmap

/-- The verify resumes with exactly what is left, if something is. -/
theorem find_abort_bit_iff {v : OvBitmap} (hbits : v.bits < 2 ^ 64)
    (hweight : v.ovLeft ≤ v.totalWeight 0) : v.Resumes v.findAbortBit ↔ v.ovLeft ≠ 0 := by
  constructor
  · rintro ⟨hlt, hnext, hleft⟩
    rw [totalWeight_eq hlt, (rangeFindNext_eq_iff hlt).1 hnext] at hleft
    simp at hleft
    omega
  · intro hleft
    have hpos : v.bits ≠ 0 := by
      intro hzero
      rw [totalWeight, hzero, tally_zero] at hweight
      omega
    have hlast : (v.bits + (2 ^ 64 - 1)) % 2 ^ 64 = v.bits - 1 := by omega
    have hend : v.totalWeight (v.bits - 1 + 1) = 0 := by
      rw [totalWeight, show v.bits - (v.bits - 1 + 1) = 0 by omega, tally_zero]
    obtain ⟨hlt, hset, htotal⟩ :=
      abortFrom_spec hweight 0 (show v.bits - 1 < v.bits by omega) hend.symm (by omega)
    rw [findAbortBit, hlast]
    exact ⟨hlt, (rangeFindNext_eq_iff hlt).2 hset, htotal⟩

/-- Three bits are set in the byte; with two left the scan resumes at bit 5. -/
theorem find_abort_bit_three : OvBitmap.Resumes ⟨8, fun _ => 0xa1, 2⟩ 5 :=
  (find_abort_bit_iff (v := ⟨8, fun _ => 0xa1, 2⟩) (by decide) (by decide)).2 (by decide)

/-- Nothing is left, and the verify would start over. -/
theorem find_abort_bit_done :
    OvBitmap.findAbortBit ⟨8, fun _ => 0xa1, 0⟩ = 0 ∧ OvBitmap.totalWeight ⟨8, fun _ => 0xa1, 0⟩ 0 = 3 := by
  decide

end Bsr.Resync
