import Bsr.Lib.BitRange

/-!
# Interleaved bitmap layout

The bitmap keeps one bit per 4 KiB block for each of `bm_max_peers` peer slots. The 32-bit words
of the slots are interleaved: word `w` of slot `s` is word `w * bm_max_peers + s` of the page array.

* `interleavedWord32`, `word32ToPage`, `word32InPage`, `lastBitOnPage` are the index functions of
  the source;
* `bitAddr` is the flat address of a bit in the page array, `addrSlot` and `addrBit` invert it.
-/

namespace Bsr.Bitmap

open Lib

/-- `1 << (PAGE_SHIFT - 2)` 32-bit words in a page, with 4 KiB pages. -/
def wordsPerPage : Nat := 1024

def bitsPerPage : Nat := 32768

/-- `BSR_END_OF_BITMAP`, the largest `ULONG_PTR`. -/
def endOfBitmap : Nat := 2 ^ 64 - 1

def peersMax : Nat := 32

/-- The number of peer slots of a bitmap, between 1 and `BSR_PEERS_MAX`. -/
structure PeerSlots where
  val : Nat
  pos : 1 ≤ val
  le_max : val ≤ peersMax

def PeerSlots.one : PeerSlots :=
  ⟨1, by decide, by decide⟩

def interleavedWord32 (maxPeers idx bit : Nat) : Nat :=
  (bit >>> 5) * maxPeers + idx

def word32ToPage (word : Nat) : Nat :=
  word >>> 10

def word32InPage (word : Nat) : Nat :=
  word &&& 1023

/-- `last_bit_on_page`; `~word` is taken in 64 bits. -/
def lastBitOnPage (maxPeers idx bit : Nat) : Nat :=
  let word := interleavedWord32 maxPeers idx bit
  (bit ||| 31) + ((word32InPage (2 ^ 64 - 1 - word) / maxPeers) <<< 5)

theorem word32ToPage_eq (word : Nat) : word32ToPage word = word / 1024 := by
  simp [word32ToPage, Nat.shiftRight_eq_div_pow]

theorem word32InPage_eq (word : Nat) : word32InPage word = word % 1024 :=
  Nat.and_two_pow_sub_one_eq_mod word 10

theorem le_lastBitOnPage (maxPeers idx bit : Nat) : bit ≤ lastBitOnPage maxPeers idx bit := by
  have hor := or_31_eq bit
  calc
    bit ≤ bit ||| 31 := by omega
    _ ≤ lastBitOnPage maxPeers idx bit := Nat.le_add_right _ _

/-! ## Flat bit addresses -/

variable (maxPeers idx i : Nat)

/-- Address of bit `i` of slot `idx`, counted in bits from the start of page 0. -/
def bitAddr : Nat :=
  32 * (i / 32 * maxPeers + idx) + i % 32

/-- The slot that owns a flat bit address. -/
def addrSlot (maxPeers k : Nat) : Nat :=
  k / 32 % maxPeers

/-- The bit of its slot that a flat bit address holds. -/
def addrBit (maxPeers k : Nat) : Nat :=
  32 * (k / 32 / maxPeers) + k % 32

theorem interleavedWord32_eq :
    interleavedWord32 maxPeers idx i = i / 32 * maxPeers + idx := by
  rw [interleavedWord32, shiftRight_5_eq_div]

theorem bitAddr_div :
    bitAddr maxPeers idx i / 32 = i / 32 * maxPeers + idx := by
  unfold bitAddr
  omega

theorem bitAddr_mod : bitAddr maxPeers idx i % 32 = i % 32 := by
  unfold bitAddr
  omega

theorem addrSlot_bitAddr {maxPeers idx : Nat} (hidx : idx < maxPeers) (i : Nat) :
    addrSlot maxPeers (bitAddr maxPeers idx i) = idx := by
  rw [addrSlot, bitAddr_div, Nat.mul_comm, Nat.mul_add_mod, Nat.mod_eq_of_lt hidx]

theorem addrBit_bitAddr {maxPeers idx : Nat} (hidx : idx < maxPeers) (i : Nat) :
    addrBit maxPeers (bitAddr maxPeers idx i) = i := by
  rw [addrBit, bitAddr_div, bitAddr_mod, Nat.mul_comm (i / 32), Nat.mul_add_div (by omega),
    Nat.div_eq_of_lt hidx]
  omega

theorem bitAddr_addrBit (maxPeers k : Nat) :
    bitAddr maxPeers (addrSlot maxPeers k) (addrBit maxPeers k) = k := by
  have hdiv : addrBit maxPeers k / 32 = k / 32 / maxPeers := by
    unfold addrBit
    omega
  have hmod : addrBit maxPeers k % 32 = k % 32 := by
    unfold addrBit
    omega
  rw [bitAddr, hdiv, addrSlot, Nat.mul_comm (k / 32 / maxPeers), Nat.div_add_mod]
  omega

theorem bitAddr_add {maxPeers idx i n : Nat} (h : i % 32 + n < 32) :
    bitAddr maxPeers idx (i + n) = bitAddr maxPeers idx i + n := by
  have hdiv : (i + n) / 32 = i / 32 := by omega
  unfold bitAddr
  rw [hdiv]
  omega

theorem bitAddr_next_word :
    bitAddr maxPeers idx (32 * (i / 32) + 32) + i % 32 =
      bitAddr maxPeers idx i + 32 * maxPeers := by
  have hdiv : (32 * (i / 32) + 32) / 32 = i / 32 + 1 := by omega
  unfold bitAddr
  rw [hdiv, Nat.add_mul]
  omega

/-- The addresses of a run of bits inside one word are exactly the bits of that run. -/
theorem mem_chunk_iff {maxPeers idx i n k : Nat} (hidx : idx < maxPeers) (hn : i % 32 + n ≤ 32) :
    (bitAddr maxPeers idx i ≤ k ∧ k < bitAddr maxPeers idx i + n) ↔
      addrSlot maxPeers k = idx ∧ i ≤ addrBit maxPeers k ∧ addrBit maxPeers k < i + n := by
  constructor
  · rintro ⟨hlo, hhi⟩
    obtain ⟨d, rfl⟩ := Nat.exists_eq_add_of_le hlo
    have hadd : bitAddr maxPeers idx (i + d) = bitAddr maxPeers idx i + d :=
      bitAddr_add (by omega)
    rw [← hadd, addrSlot_bitAddr hidx, addrBit_bitAddr hidx]
    omega
  · rintro ⟨hslot, hlo, hhi⟩
    obtain ⟨d, hd⟩ := Nat.exists_eq_add_of_le hlo
    have hk : k = bitAddr maxPeers idx (i + d) := by
      rw [← hd, ← hslot, bitAddr_addrBit]
    rw [hk, bitAddr_add (by omega)]
    omega

end Bsr.Bitmap
