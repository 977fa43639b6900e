import Mathlib

/-!
# Bit ranges

Facts about ranges of bits that name no particular data structure.

* `tally p a n` counts the indices of `[a, a + n)` that satisfy `p`;
* `findFrom p n a` is the first index of `[a, a + n)` that satisfies `p`, or `a + n`;
* `hweight w` is the population count of a machine word;
* `streamBit ws j` reads a list of words as one stream of bits;
* a few closed forms of the mask arithmetic used to walk over words.
-/

namespace Bsr.Lib

/-! ## Counting over a range -/

variable (p : Nat → Bool)

/-- Number of indices `i` with `a ≤ i < a + n` and `p i`. -/
def tally (a n : Nat) : Nat :=
  Nat.count (fun i => p (a + i) = true) n

@[simp] theorem tally_zero (a : Nat) : tally p a 0 = 0 := by
  simp [tally]

theorem tally_add (a m n : Nat) :
    tally p a (m + n) = tally p a m + tally p (a + m) n := by
  simp [tally, Nat.count_add, Nat.add_assoc]

theorem tally_succ (a n : Nat) :
    tally p a (n + 1) = tally p a n + if p (a + n) then 1 else 0 := by
  simp [tally, Nat.count_succ]

variable {a n : Nat}

theorem tally_congr {p q : Nat → Bool}
    (h : ∀ i, a ≤ i → i < a + n → p i = q i) : tally p a n = tally q a n := by
  induction n with
  | zero => simp
  | succ n ih =>
    rw [tally_succ, tally_succ, ih (fun i hlo hhi => h i hlo (by omega)),
      h (a + n) (by omega) (by omega)]

theorem tally_le (a n : Nat) : tally p a n ≤ n :=
  Nat.count_le _

/-- A range and a shifted copy of it have the same count. -/
theorem tally_shift (a b n : Nat) :
    tally (fun i => p (b + i)) a n = tally p (b + a) n := by
  simp [tally, Nat.add_assoc]

variable {p : Nat → Bool}

theorem tally_eq_zero (h : ∀ i, a ≤ i → i < a + n → p i = false) : tally p a n = 0 := by
  rw [tally_congr h]
  simp [tally]

/-- Only the window `[a, e)` contributes when nothing outside of it satisfies `p`. -/
theorem tally_window {a e n : Nat} (he : e ≤ n)
    (hout : ∀ i < n, ¬ (a ≤ i ∧ i < e) → p i = false) : tally p 0 n = tally p a (e - a) := by
  by_cases hae : a ≤ e
  · obtain ⟨d, rfl⟩ := Nat.exists_eq_add_of_le hae
    obtain ⟨r, rfl⟩ := Nat.exists_eq_add_of_le he
    have hlow : tally p 0 a = 0 := tally_eq_zero (fun i _ hi => hout i (by omega) (by omega))
    have hhigh : tally p (a + d) r = 0 :=
      tally_eq_zero (fun i hi _ => hout i (by omega) (by omega))
    rw [tally_add, tally_add, Nat.zero_add, Nat.zero_add, hlow, hhigh]
    simp
  · rw [show e - a = 0 by omega]
    exact tally_eq_zero (fun i _ hi => hout i (by omega) (by omega))

theorem tally_eq_length (h : ∀ i, a ≤ i → i < a + n → p i = true) : tally p a n = n := by
  rw [tally_congr h]
  simp [tally]

/-- Bits gained inside a window add up with the bits already there. -/
theorem tally_gain {p q : Nat → Bool} (h : ∀ i, a ≤ i → i < a + n → p i = true → q i = true) :
    tally q a n = tally p a n + tally (fun i => !p i && q i) a n := by
  induction n with
  | zero => simp
  | succ n ih =>
    rw [tally_succ, tally_succ, tally_succ, ih (fun i hlo hhi => h i hlo (by omega))]
    cases hp : p (a + n) <;> cases hq : q (a + n) <;> simp_all <;> omega

theorem tally_eq_card (a n : Nat) :
    tally p a n = ((Finset.Ico a (a + n)).filter (fun i => p i = true)).card := by
  induction n with
  | zero => simp
  | succ n ih =>
    have hsplit : Finset.Ico a (a + n + 1) = insert (a + n) (Finset.Ico a (a + n)) := by
      ext i
      simp only [Finset.mem_Ico, Finset.mem_insert]
      omega
    have hnotMem : a + n ∉ (Finset.Ico a (a + n)).filter (fun i => p i = true) := by
      simp
    rw [tally_succ, ih, ← Nat.add_assoc, hsplit, Finset.filter_insert]
    split
    · rw [Finset.card_insert_of_notMem hnotMem]
    · rfl

/-! ## First match in a range -/

/-- First index of `[a, a + n)` that satisfies `p`, and `a + n` when there is none. -/
def findFrom (p : Nat → Bool) : Nat → Nat → Nat
  | 0, a => a
  | n + 1, a => if p a then a else findFrom p n (a + 1)

theorem le_findFrom (p : Nat → Bool) (n a : Nat) : a ≤ findFrom p n a := by
  induction n generalizing a with
  | zero => simp [findFrom]
  | succ n ih =>
    simp only [findFrom]
    split
    · omega
    · have := ih (a + 1)
      omega

theorem findFrom_minimal {n a i : Nat} (hlo : a ≤ i) (hhi : i < findFrom p n a) : p i = false := by
  induction n generalizing a with
  | zero =>
    simp only [findFrom] at hhi
    omega
  | succ n ih =>
    simp only [findFrom] at hhi
    split at hhi
    · omega
    rename_i hpa
    rcases Nat.eq_or_lt_of_le hlo with rfl | hlt
    · simpa using hpa
    · exact ih hlt hhi

theorem findFrom_sound {n a : Nat} (h : findFrom p n a < a + n) : p (findFrom p n a) = true := by
  induction n generalizing a with
  | zero =>
    simp only [findFrom] at h
    omega
  | succ n ih =>
    simp only [findFrom] at h ⊢
    split
    · assumption
    rename_i hpa
    rw [if_neg hpa] at h
    exact ih (by omega)

/-! ## Machine words -/

/-- Population count, `hweight32` of the kernel at width 32. -/
def hweight {w : Nat} (x : BitVec w) : Nat :=
  tally x.getLsbD 0 w

/-- The population count of a word whose bits from `n` on are clear. -/
theorem hweight_eq_tally {w n : Nat} {x : BitVec w} {f : Nat → Bool} (hn : n ≤ w)
    (hlow : ∀ j < n, x.getLsbD j = f j) (hhigh : ∀ j, n ≤ j → x.getLsbD j = false) :
    hweight x = tally f 0 n := by
  obtain ⟨d, hd⟩ := Nat.exists_eq_add_of_le hn
  have hsplit : hweight x = tally x.getLsbD 0 (n + d) := by rw [← hd]; rfl
  have hnone : tally x.getLsbD (0 + n) d = 0 :=
    tally_eq_zero (fun j hlo _ => hhigh j (by omega))
  rw [hsplit, tally_add, hnone]
  exact tally_congr (fun j _ hj => hlow j (by omega))

/-- The low `n` bits of a word, as `(1 << n) - 1` builds them. -/
def lowMask (w n : Nat) : BitVec w :=
  BitVec.ofNat w (2 ^ n - 1)

@[simp] theorem getLsbD_lowMask (w n i : Nat) :
    (lowMask w n).getLsbD i = (decide (i < w) && decide (i < n)) := by
  simp [lowMask, BitVec.getLsbD_ofNat, Nat.testBit_two_pow_sub_one]

/-- Bit `j` of a list of 32-bit words read as one little-endian stream. -/
def streamBit (ws : List (BitVec 32)) (j : Nat) : Bool :=
  ((ws[j / 32]?).getD 0).getLsbD (j % 32)

variable {j : Nat}

theorem streamBit_cons_low {x : BitVec 32} {ws : List (BitVec 32)} (h : j < 32) :
    streamBit (x :: ws) j = x.getLsbD j := by
  have hdiv : j / 32 = 0 := by omega
  have hmod : j % 32 = j := by omega
  simp [streamBit, hdiv, hmod]

theorem streamBit_drop (ws : List (BitVec 32)) (n j : Nat) :
    streamBit (ws.drop n) j = streamBit ws (32 * n + j) := by
  have hdiv : (32 * n + j) / 32 = n + j / 32 := by omega
  have hmod : (32 * n + j) % 32 = j % 32 := by omega
  simp [streamBit, hdiv, hmod]

theorem streamBit_append_left {ws vs : List (BitVec 32)} (h : j < 32 * ws.length) :
    streamBit (ws ++ vs) j = streamBit ws j := by
  have hlt : j / 32 < ws.length := by omega
  simp [streamBit, List.getElem?_append_left hlt]

theorem streamBit_append_right (ws vs : List (BitVec 32)) (j : Nat) :
    streamBit (ws ++ vs) (32 * ws.length + j) = streamBit vs j := by
  have hdiv : (32 * ws.length + j) / 32 = ws.length + j / 32 := by omega
  have hmod : (32 * ws.length + j) % 32 = j % 32 := by omega
  simp [streamBit, hdiv, hmod, List.getElem?_append_right]

theorem streamBit_of_length_le {ws : List (BitVec 32)} (h : 32 * ws.length ≤ j) :
    streamBit ws j = false := by
  have hlt : ws.length ≤ j / 32 := by omega
  simp [streamBit, List.getElem?_eq_none hlt]

/-! ## Mask arithmetic -/

theorem and_31_eq_mod (n : Nat) : n &&& 31 = n % 32 :=
  Nat.and_two_pow_sub_one_eq_mod n 5

theorem shiftRight_5_eq_div (n : Nat) : n >>> 5 = n / 32 := by
  simp [Nat.shiftRight_eq_div_pow]

theorem or_31_eq (n : Nat) : n ||| 31 = 32 * (n / 32) + 31 := by
  have hlt : n % 32 < 2 ^ 5 := by omega
  have hor : n % 32 ||| 31 = 31 := by
    have : ∀ r < 32, r ||| 31 = 31 := by decide
    exact this _ (by omega)
  calc
    n ||| 31 = (2 ^ 5 * (n / 32) + n % 32) ||| 31 :=
        congrArg (· ||| 31) (by omega)
    _ = (2 ^ 5 * (n / 32) ||| n % 32) ||| 31 := by rw [Nat.two_pow_add_eq_or_of_lt hlt]
    _ = 2 ^ 5 * (n / 32) ||| 31 := by rw [Nat.or_assoc, hor]
    _ = 32 * (n / 32) + 31 := by
        rw [← Nat.two_pow_add_eq_or_of_lt (by decide : 31 < 2 ^ 5)]

theorem shiftLeft_5_or_mod (q n : Nat) : (q <<< 5) ||| (n &&& 31) = 32 * q + n % 32 := by
  have hlt : n % 32 < 2 ^ 5 := by omega
  rw [and_31_eq_mod, Nat.shiftLeft_eq, Nat.mul_comm q, ← Nat.two_pow_add_eq_or_of_lt hlt]

end Bsr.Lib
