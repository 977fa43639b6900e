import Bsr.Lib.Window

/-!
# Queues in a ring of cells

A ring of `m` cells holds a queue between a read and a write position; one cell stays free, so that
a full ring differs from an empty one.

* `held` is the number of cells in use;
* `span` and `ringAt` list the cells of a buffer and of a ring;
* `putWrapped` and `takeWrapped` copy in two pieces where the range passes the end of the ring, and
  `ringAt_putWrapped` and `takeWrapped_eq` say that the pieces make up one range of the ring.
-/

namespace Bsr.Lib

open List

variable {α : Type*} {mem src : Nat → α} {m r w n len k : Nat}

/-! ## Positions -/

/-- The number of cells from `r` to `w`. -/
def held (m r w : Nat) : Nat :=
  (w + m - r) % m

theorem wrap_mod (h : m ≤ w + k ∧ w + k < m + m) : (w + k) % m = w + k - m := by
  rw [Nat.mod_eq_sub_mod h.1, Nat.mod_eq_of_lt (by omega)]

theorem held_lt (hr : r < m) : held m r w < m :=
  Nat.mod_lt _ (by omega)

theorem held_of_le (hrw : r ≤ w) (hw : w < m) : held m r w = w - r := by
  have hsplit : w + m - r = w - r + m := by omega
  rw [held, hsplit, Nat.add_mod_right, Nat.mod_eq_of_lt (by omega)]

theorem held_of_lt (hwr : w < r) (hr : r < m) : held m r w = w + m - r :=
  Nat.mod_eq_of_lt (by omega)

/-- The queue ends at the write position. -/
theorem add_held_mod (hr : r < m) (hw : w < m) : (r + held m r w) % m = w := by
  by_cases hrw : r ≤ w
  · rw [held_of_le hrw hw, Nat.add_sub_cancel' hrw, Nat.mod_eq_of_lt hw]
  · have hwrap : r + (w + m - r) = w + m := by omega
    rw [held_of_lt (by omega) hr, hwrap, Nat.add_mod_right, Nat.mod_eq_of_lt hw]

/-- A queue of fewer than `m` cells is measured by its ends. -/
theorem held_add_mod (hr : r < m) (hn : n < m) : held m r ((r + n) % m) = n := by
  by_cases hend : r + n < m
  · rw [Nat.mod_eq_of_lt hend, held_of_le (by omega) hend]
    omega
  · rw [wrap_mod (by omega), held_of_lt (by omega) hr]
    omega

theorem held_write (hr : r < m) (hw : w < m) (hfit : held m r w + len < m) :
    held m r ((w + len) % m) = held m r w + len := by
  have hend : (w + len) % m = (r + (held m r w + len)) % m := by
    conv_lhs => rw [← add_held_mod hr hw]
    rw [Nat.mod_add_mod, Nat.add_assoc]
  rw [hend, held_add_mod hr hfit]

theorem held_read (hr : r < m) (hw : w < m) (hn : n ≤ held m r w) :
    held m ((r + n) % m) w = held m r w - n := by
  have hlt := held_lt (w := w) hr
  have hend : w = ((r + n) % m + (held m r w - n)) % m := by
    have hsum : r + n + (held m r w - n) = r + held m r w := by omega
    rw [Nat.mod_add_mod, hsum, add_held_mod hr hw]
  conv_lhs => rw [hend]
  exact held_add_mod (Nat.mod_lt _ (by omega)) (by omega)

/-! ## Contents -/

/-- The first `n` cells of a buffer. -/
def span (f : Nat → α) (n : Nat) : List α :=
  (range n).map f

/-- `n` cells of the ring, from position `r` on. -/
def ringAt (mem : Nat → α) (m r n : Nat) : List α :=
  span (fun i => mem ((r + i) % m)) n

@[simp] theorem length_span (f : Nat → α) (n : Nat) : (span f n).length = n := by
  simp [span]

theorem span_add (f : Nat → α) (a b : Nat) : span f (a + b) = span f a ++ span (fun i => f (a + i)) b := by
  unfold span
  rw [range_add, map_append, map_map]
  rfl

theorem span_congr {f g : Nat → α} (h : ∀ i < n, f i = g i) : span f n = span g n :=
  map_congr_left fun i hi => h i (mem_range.1 hi)

theorem ringAt_add (a b : Nat) : ringAt mem m r (a + b) = ringAt mem m r a ++ ringAt mem m ((r + a) % m) b := by
  unfold ringAt
  rw [span_add]
  congr 1
  refine span_congr fun i _ => ?_
  rw [Nat.mod_add_mod, Nat.add_assoc]

/-! ## Copies in two pieces -/

/-- Copy `len` cells into the ring at `w`. -/
def putWrapped (mem src : Nat → α) (m w len : Nat) : Nat → α :=
  if m - w < len then patch (patch mem src w (m - w)) (fun i => src (m - w + i)) 0 (len - (m - w))
  else patch mem src w len

/-- Copy `n` cells out of the ring at `r`. -/
def takeWrapped (mem : Nat → α) (m r n : Nat) : List α :=
  if m - r < n then span (fun i => mem (r + i)) (m - r) ++ span mem (n - (m - r))
  else span (fun i => mem (r + i)) n

theorem takeWrapped_eq (hr : r < m) (hn : n ≤ m) : takeWrapped mem m r n = ringAt mem m r n := by
  unfold takeWrapped ringAt
  split_ifs with hwrap
  · have hsplit : n = m - r + (n - (m - r)) := by omega
    conv_rhs => rw [hsplit, span_add]
    congr 1
    · refine span_congr fun i hi => ?_
      rw [Nat.mod_eq_of_lt (by omega)]
    refine span_congr fun i hi => ?_
    have hpos : r + (m - r + i) = i + m := by omega
    rw [hpos, Nat.add_mod_right, Nat.mod_eq_of_lt (by omega)]
  · refine span_congr fun i hi => ?_
    rw [Nat.mod_eq_of_lt (by omega)]

theorem putWrapped_apply (hw : w < m) (hlen : len ≤ m) (hk : k < len) :
    putWrapped mem src m w len ((w + k) % m) = src k := by
  unfold putWrapped
  by_cases hend : w + k < m
  · rw [Nat.mod_eq_of_lt hend]
    split_ifs with hsplit
    · rw [patch_of_not_mem (by omega), patch_of_mem (by omega), Nat.add_sub_cancel_left]
    · rw [patch_of_mem (by omega), Nat.add_sub_cancel_left]
  · have hpos : m - w + (w + k - m - 0) = k := by omega
    rw [wrap_mod (by omega), if_pos (by omega), patch_of_mem (by omega), hpos]

/-- The other cells of the ring are left alone. -/
theorem putWrapped_apply_of_le (hw : w < m) (hlow : len ≤ k) (hhigh : k < m) :
    putWrapped mem src m w len ((w + k) % m) = mem ((w + k) % m) := by
  unfold putWrapped
  by_cases hend : w + k < m
  · rw [Nat.mod_eq_of_lt hend, if_neg (by omega), patch_of_not_mem (by omega)]
  rw [wrap_mod (by omega)]
  split_ifs with hsplit
  · rw [patch_of_not_mem (by omega), patch_of_not_mem (by omega)]
  · rw [patch_of_not_mem (by omega)]

/-- A write appends to the queue. -/
theorem ringAt_putWrapped (hr : r < m) (hw : w < m) (hfit : held m r w + len < m) :
    ringAt (putWrapped mem src m w len) m r (held m r w + len) = ringAt mem m r (held m r w) ++ span src len := by
  rw [ringAt_add, add_held_mod hr hw]
  congr 1
  · -- the cells in use lie `m - held` and more behind the write position
    refine span_congr fun i hi => ?_
    have hend := add_held_mod hr hw
    generalize held m r w = n at *
    have hpos : (r + i) % m = (w + (m - n + i)) % m := by
      have hsum : r + n + (m - n + i) = r + i + m := by omega
      rw [← hend, Nat.mod_add_mod, hsum, Nat.add_mod_right]
    rw [hpos]
    exact putWrapped_apply_of_le hw (by omega) (by omega)
  · exact span_congr fun i hi => putWrapped_apply hw (by omega) hi

end Bsr.Lib
