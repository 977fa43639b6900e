import Mathlib

/-!
# Ring logs

A ring log writes record `n` at position `n % m`, so that only the last `m` records survive, and a
reader replays the survivors from the oldest to the newest.

* `serialDiff` compares record numbers of 32 bits that are close to each other;
* `overwrite` and `replay` apply partial updates in the order of the records, and
  `replay_eq_of_last` says that the last record that mentions an item decides;
* `Rotates` describes a window that advances with every record and starts over at the end, and
  `Rotates.covers` that it has passed every item after enough records.
-/

namespace Bsr.Lib

/-! ## Positions and numbers -/

/-- Two records at one position are a whole ring apart. -/
theorem ringPos_inj {m n k : Nat} (hpos : n % m = k % m) (hnear : n < k + m ∧ k < n + m) :
    n = k := by
  have hn' := Nat.div_add_mod n m
  have hk' := Nat.div_add_mod k m
  have hquot : n / m = k / m := by
    by_contra hne
    rcases Nat.lt_or_gt_of_ne hne with hlt | hlt
    · have := Nat.mul_le_mul_left m (show n / m + 1 ≤ k / m from hlt)
      rw [Nat.mul_add] at this
      omega
    · have := Nat.mul_le_mul_left m (show k / m + 1 ≤ n / m from hlt)
      rw [Nat.mul_add] at this
      omega
  rw [hquot] at hn'
  omega

/-- The last record written at position `p` of a ring of `m`, before record `n`. -/
theorem exists_ringPos {m n p : Nat} (hp : p < m) (hn : m ≤ n) :
    ∃ k, k < n ∧ n ≤ k + m ∧ k % m = p := by
  have hmod := Nat.mod_lt n (Nat.zero_lt_of_lt hp)
  have hdiv := Nat.div_add_mod n m
  have hquot : 1 ≤ n / m := (Nat.one_le_div_iff (Nat.zero_lt_of_lt hp)).mpr hn
  obtain ⟨q, hq⟩ := Nat.exists_eq_add_of_le' hquot
  rw [hq, Nat.mul_add] at hdiv
  by_cases hlt : p < n % m
  · refine ⟨m * (q + 1) + p, ?_, ?_, ?_⟩
    · rw [Nat.mul_add]
      omega
    · rw [Nat.mul_add]
      omega
    · rw [Nat.mul_add_mod, Nat.mod_eq_of_lt hp]
  · refine ⟨m * q + p, by omega, by omega, ?_⟩
    rw [Nat.mul_add_mod, Nat.mod_eq_of_lt hp]

/-- `(int)a - (int)b` in 32 bits. -/
def serialDiff (a b : Nat) : Int :=
  Int.bmod (a - b) (2 ^ 32)

/-- Numbers that are close compare as numbers. -/
theorem serialDiff_eq {a b : Nat} (hnear : a < b + 2 ^ 31 ∧ b < a + 2 ^ 31) :
    serialDiff a b = (a : Int) - b := by
  apply Int.bmod_eq_of_le_mul_two
  · push_cast
    omega
  · push_cast
    omega

/-! ## Replay -/

section Replay

variable {ι ν : Type*}

/-- Apply the partial update `m`. -/
def overwrite (m : ι → Option ν) (h : ι → ν) : ι → ν :=
  fun e => (m e).getD (h e)

/-- Apply the records `lo`, `lo + 1`, …, `lo + len - 1`. -/
def replay (hist : Nat → ι → Option ν) (lo len : Nat) (h : ι → ν) : ι → ν :=
  (List.range len).foldl (fun h k => overwrite (hist (lo + k)) h) h

theorem replay_succ (hist : Nat → ι → Option ν) (lo len : Nat) (h : ι → ν) :
    replay hist lo (len + 1) h = overwrite (hist (lo + len)) (replay hist lo len h) := by
  rw [replay, List.range_succ, List.foldl_append]
  rfl

/-- The last record that mentions an item decides. -/
theorem replay_eq_of_last {hist : Nat → ι → Option ν} {lo len n : Nat} (h : ι → ν) {e : ι} {v : ν}
    (hlo : lo ≤ n) (hhi : n < lo + len) (hset : hist n e = some v)
    (hlater : ∀ k, n < k → k < lo + len → hist k e = none ∨ hist k e = some v) :
    replay hist lo len h e = v := by
  induction len with
  | zero => omega
  | succ len ih =>
    rw [replay_succ, overwrite]
    by_cases hlast : n = lo + len
    · rw [← hlast, hset, Option.getD_some]
    have ih := ih (by omega) fun k hk hk' => hlater k hk (by omega)
    rcases hlater (lo + len) (by omega) (by omega) with hnone | hsome
    · rw [hnone, Option.getD_none, ih]
    · rw [hsome, Option.getD_some]

end Replay

/-! ## Rotating windows -/

/-- From `a` up to `b`, the windows `[start n, start n + w)` walk over `size` items and start over
at the end. -/
structure Rotates (w size : Nat) (start : Nat → Nat) (a b : Nat) : Prop where
  aligned : ∀ n, a ≤ n → n ≤ b → w ∣ start n
  inside : ∀ n, a ≤ n → n ≤ b → start n < size
  next : ∀ n, a ≤ n → n < b → start (n + 1) = if start n + w ≥ size then 0 else start n + w

namespace Rotates

variable {w size a b : Nat} {start : Nat → Nat}

/-- Before the end, the window moves on by its width. -/
theorem start_add (h : Rotates w size start a b) {n k : Nat} (ha : a ≤ n) (hb : n + k ≤ b)
    (hk : start n + w * k < size) : start (n + k) = start n + w * k := by
  induction k with
  | zero => rfl
  | succ k ih =>
    rw [Nat.mul_add] at hk ⊢
    have ih := ih (by omega) (by omega)
    rw [← Nat.add_assoc, h.next (n + k) (by omega) (by omega), if_neg (by omega)]
    omega

/-- Behind the end, it starts over. -/
theorem start_wrap (h : Rotates w size start a b) {n k : Nat} (ha : a ≤ n) (hb : n + k < b)
    (hk : start n + w * k < size) (hend : size ≤ start n + w * k + w) : start (n + k + 1) = 0 := by
  rw [h.next (n + k) (by omega) hb, h.start_add ha (by omega) hk, if_pos (by omega)]

/-- Enough records pass every item. -/
theorem covers (h : Rotates w size start a b) (hw : 0 < w) {e rounds : Nat} (he : e < size)
    (hrounds : size ≤ w * rounds) (hlen : a + rounds ≤ b) :
    ∃ n, a ≤ n ∧ n < b ∧ start n ≤ e ∧ e < start n + w := by
  obtain ⟨q, _⟩ := h.aligned a (by omega) (by omega)
  have hin := h.inside a (by omega) (by omega)
  have he' := Nat.div_add_mod e w
  have hmod := Nat.mod_lt e hw
  have hsize := Nat.div_add_mod (size - 1) w
  have hsizemod := Nat.mod_lt (size - 1) hw
  have hlast : (size - 1) / w < rounds := by
    rw [Nat.div_lt_iff_lt_mul hw, Nat.mul_comm]
    omega
  have hqlast : q ≤ (size - 1) / w := by
    rw [Nat.le_div_iff_mul_le hw, Nat.mul_comm]
    omega
  have helast : e / w ≤ (size - 1) / w := Nat.div_le_div_right (by omega)
  -- `window` is the number of the window of `e`, `last` that of the last one
  generalize e / w = window at *
  generalize (size - 1) / w = last at *
  by_cases hahead : q ≤ window
  · obtain ⟨k, rfl⟩ := Nat.exists_eq_add_of_le hahead
    rw [Nat.mul_add] at he'
    have hstart := h.start_add (n := a) (k := k) (by omega) (by omega) (by omega)
    exact ⟨a + k, by omega, by omega, by omega, by omega⟩
  · -- the window of `e` comes after the next start
    obtain ⟨k, rfl⟩ := Nat.exists_eq_add_of_le hqlast
    rw [Nat.mul_add] at hsize
    have hzero := h.start_wrap (n := a) (k := k) (by omega) (by omega) (by omega) (by omega)
    have hstart := h.start_add (n := a + k + 1) (k := window) (by omega) (by omega) (by omega)
    exact ⟨a + k + 1 + window, by omega, by omega, by omega, by omega⟩

end Rotates

end Bsr.Lib
