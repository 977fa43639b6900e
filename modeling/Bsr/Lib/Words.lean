import Mathlib

/-!
# Words of eight bytes in a byte stream

Numbers of 64 bits, most significant byte first, packed one after the other.

* `bytesOf` and `wordOf` convert one word;
* `pack` puts words into a stream and `unpack n` takes `n` of them from its front;
* `unpack_pack`: what was packed comes back, whatever follows in the stream.
-/

namespace Bsr.Words

/-- The low `n` bytes of `x`. -/
def bytesOfNat : Nat → Nat → List UInt8
  | 0, _ => []
  | n + 1, x => bytesOfNat n (x / 256) ++ [UInt8.ofNat x]

def natOfBytes (bs : List UInt8) : Nat :=
  bs.foldl (fun acc b => acc * 256 + b.toNat) 0

/-- `cpu_to_be64`. -/
def bytesOf (w : BitVec 64) : List UInt8 :=
  bytesOfNat 8 w.toNat

/-- `be64_to_cpu`. -/
def wordOf (bs : List UInt8) : BitVec 64 :=
  BitVec.ofNat 64 (natOfBytes bs)

variable (ws : List (BitVec 64))

def pack : List UInt8 :=
  ws.flatMap bytesOf

/-- The first `n` words of the stream. -/
def unpack : Nat → List UInt8 → List (BitVec 64)
  | 0, _ => []
  | n + 1, bs => wordOf (bs.take 8) :: unpack n (bs.drop 8)

@[simp] theorem length_bytesOfNat (n x : Nat) : (bytesOfNat n x).length = n := by
  induction n generalizing x with
  | zero => rfl
  | succ n ih => simp [bytesOfNat, ih]

@[simp] theorem length_bytesOf (w : BitVec 64) : (bytesOf w).length = 8 :=
  length_bytesOfNat 8 w.toNat

@[simp] theorem length_pack : (pack ws).length = 8 * ws.length := by
  induction ws with
  | nil => rfl
  | cons w ws ih =>
    rw [pack, List.flatMap_cons, List.length_append, length_bytesOf, List.length_cons, ← pack]
    omega

theorem natOfBytes_bytesOfNat (n x : Nat) : natOfBytes (bytesOfNat n x) = x % 256 ^ n := by
  induction n generalizing x with
  | zero => simp [natOfBytes, bytesOfNat, Nat.mod_one]
  | succ n ih =>
    have hlast : natOfBytes (bytesOfNat (n + 1) x) = natOfBytes (bytesOfNat n (x / 256)) * 256 + x % 256 := by
      simp [natOfBytes, bytesOfNat]
    rw [hlast, ih, Nat.pow_succ', Nat.mod_mul]
    omega

theorem wordOf_bytesOf (w : BitVec 64) : wordOf (bytesOf w) = w := by
  have hlt : w.toNat < 256 ^ 8 := w.isLt
  rw [wordOf, bytesOf, natOfBytes_bytesOfNat, Nat.mod_eq_of_lt hlt, BitVec.ofNat_toNat, BitVec.setWidth_eq]

theorem unpack_pack (rest : List UInt8) : unpack ws.length (pack ws ++ rest) = ws := by
  induction ws with
  | nil => rfl
  | cons w ws ih =>
    have hsplit : pack (w :: ws) ++ rest = bytesOf w ++ (pack ws ++ rest) := by simp [pack]
    have htake : (bytesOf w ++ (pack ws ++ rest)).take 8 = bytesOf w := by simp
    have hdrop : (bytesOf w ++ (pack ws ++ rest)).drop 8 = pack ws ++ rest := by simp
    rw [List.length_cons, unpack, hsplit, htake, hdrop, wordOf_bytesOf, ih]

theorem drop_pack (rest : List UInt8) :
    (pack ws ++ rest).drop (8 * ws.length) = rest := by
  rw [← length_pack, List.drop_left]

end Bsr.Words
