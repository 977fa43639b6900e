import Mathlib

/-!
# Bytes as a stream of bits

A list of bytes is read as a stream of bits, low bits of the first byte first.

* `byteBit buf k` is bit `k` of the stream;
* `leVal` is the little-endian value of the bytes;
* `Holds buf v` says that the stream is the binary expansion of `v`.
-/

namespace Bsr.Lib

variable (buf : List Nat)

/-- Bit `k` of a byte stream. -/
def byteBit (k : Nat) : Bool :=
  (buf.getD (k / 8) 0).testBit (k % 8)

/-- Every entry is a byte. -/
def IsBytes : Prop :=
  ∀ i, buf.getD i 0 < 256

/-- Little-endian value of a list of bytes. -/
def leVal : List Nat → Nat
  | [] => 0
  | x :: xs => x + 256 * leVal xs

/-- The stream of bits is the binary expansion of `v`. -/
def Holds (v : Nat) : Prop :=
  ∀ k, byteBit buf k = v.testBit k

variable {buf : List Nat}

open List

theorem IsBytes.drop (h : IsBytes buf) (n : Nat) : IsBytes (buf.drop n) := by
  intro i
  have hi := h (n + i)
  simpa [getD_eq_getElem?_getD] using hi

theorem IsBytes.take (h : IsBytes buf) (n : Nat) : IsBytes (buf.take n) := by
  intro i
  have hi := h i
  rw [getD_eq_getElem?_getD] at hi ⊢
  rw [getElem?_take]
  split
  · exact hi
  · simp

theorem testBit_leVal (h : IsBytes buf) (k : Nat) : (leVal buf).testBit k = byteBit buf k := by
  induction buf generalizing k with
  | nil => simp [leVal, byteBit]
  | cons x xs ih =>
    have hx : x < 2 ^ 8 := by simpa using h 0
    have hxs : IsBytes xs := fun i => by simpa using h (i + 1)
    rw [leVal, Nat.add_comm, Nat.testBit_two_pow_mul_add _ hx]
    by_cases hk : k < 8
    · rw [if_pos hk, byteBit, Nat.div_eq_of_lt hk, Nat.mod_eq_of_lt hk]
      rfl
    obtain ⟨j, rfl⟩ := Nat.exists_eq_add_of_le (Nat.le_of_not_lt hk)
    rw [if_neg hk, ih hxs, byteBit, byteBit, Nat.add_sub_cancel_left,
      show (8 + j) / 8 = j / 8 + 1 by omega, show (8 + j) % 8 = j % 8 by omega]
    rfl

theorem byteBit_drop (n k : Nat) : byteBit (buf.drop n) k = byteBit buf (8 * n + k) := by
  unfold byteBit
  rw [show (8 * n + k) / 8 = n + k / 8 by omega]
  simp [getD_eq_getElem?_getD]

theorem byteBit_take (n k : Nat) :
    byteBit (buf.take n) k = (decide (k < 8 * n) && byteBit buf k) := by
  unfold byteBit
  rw [getD_eq_getElem?_getD, getElem?_take, getD_eq_getElem?_getD]
  by_cases hk : k < 8 * n
  · rw [if_pos (by omega), decide_eq_true hk, Bool.true_and]
  · rw [if_neg (by omega), decide_eq_false hk]
    simp

/-- The bytes behind the value are not needed. -/
theorem Holds.take {v n : Nat} (h : Holds buf v) (hv : v < 2 ^ (8 * n)) : Holds (buf.take n) v := by
  intro k
  rw [byteBit_take, h k]
  by_cases hk : k < 8 * n
  · simp [hk]
  · rw [Nat.testBit_lt_two_pow (hv.trans_le (Nat.pow_le_pow_right (by decide) (by omega)))]
    simp

theorem byteBit_set {j : Nat} (hj : j < buf.length) (x k : Nat) :
    byteBit (buf.set j x) k = if k / 8 = j then x.testBit (k % 8) else byteBit buf k := by
  unfold byteBit
  rw [getD_eq_getElem?_getD, getElem?_set]
  by_cases h : k / 8 = j
  · simp [h, hj]
  · rw [if_neg (fun h' => h h'.symm), if_neg h, getD_eq_getElem?_getD]

theorem IsBytes.set (h : IsBytes buf) {x : Nat} (hx : x < 256) (j : Nat) : IsBytes (buf.set j x) := by
  intro i
  rw [getD_eq_getElem?_getD, getElem?_set]
  split
  · split
    · exact hx
    · simp
  · simpa [getD_eq_getElem?_getD] using h i

theorem holds_replicate (n : Nat) : Holds (replicate n 0) 0 := by
  intro k
  unfold byteBit
  rw [getD_eq_getElem?_getD, getElem?_replicate]
  split <;> simp

theorem isBytes_replicate (n : Nat) : IsBytes (replicate n 0) := by
  intro i
  rw [getD_eq_getElem?_getD, getElem?_replicate]
  split <;> simp

end Bsr.Lib
