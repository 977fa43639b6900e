import Mathlib

/-!
# Numbers in big-endian byte order

`be buf i n` is the number in the `n` bytes of `buf` from position `i` on.
-/

namespace Bsr.BigEndian

def be (buf : Nat → UInt8) (i : Nat) : Nat → Nat
  | 0 => 0
  | n + 1 => be buf i n * 2 ^ 8 + (buf (i + n)).toNat

theorem be_lt (buf : Nat → UInt8) (i n : Nat) : be buf i n < 2 ^ (8 * n) := by
  induction n with
  | zero => simp [be]
  | succ n ih =>
    have hbyte : (buf (i + n)).toNat < 2 ^ 8 := (buf (i + n)).toNat_lt
    have hpow : 2 ^ (8 * (n + 1)) = 2 ^ (8 * n) * 2 ^ 8 := by rw [Nat.mul_succ, Nat.pow_add]
    rw [be]
    omega

end Bsr.BigEndian
