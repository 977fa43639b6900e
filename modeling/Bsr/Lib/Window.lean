import Mathlib

/-!
# A buffer over a window of a file

A program that changes a large file through a small buffer reads a window, changes the buffer and
writes it back. What counts is the file as it would be after the write.

* `fetch f g pos len` is the buffer `g` after `len` cells from `pos` on were read into it;
* `patch f g pos len` is the file `f` after `len` cells of the buffer `g` were written at `pos`;
* `fill g a n v` has `n` cells from `a` on set to `v`.
-/

namespace Bsr.Lib

variable {α : Type*} {f g : Nat → α} {pos len a n k : Nat} {v : α}

def fetch (f g : Nat → α) (pos len : Nat) : Nat → α :=
  fun j => if j < len then f (pos + j) else g j

def patch (f g : Nat → α) (pos len : Nat) : Nat → α :=
  fun k => if pos ≤ k ∧ k < pos + len then g (k - pos) else f k

def fill (g : Nat → α) (a n : Nat) (v : α) : Nat → α :=
  fun k => if a ≤ k ∧ k < a + n then v else g k

@[simp] theorem patch_zero (f g : Nat → α) (pos : Nat) : patch f g pos 0 = f := by
  funext k
  simp only [patch]
  rw [if_neg (by omega)]

/-- Writing back what was just read changes nothing. -/
@[simp] theorem patch_fetch (f g : Nat → α) (pos len : Nat) : patch f (fetch f g pos len) pos len = f := by
  funext k
  unfold patch fetch
  split_ifs with hin hlt
  · rw [Nat.add_sub_cancel' hin.1]
  · exact absurd hlt (by omega)
  · rfl

/-- A change of the buffer inside the window is a change of the file. -/
theorem patch_fill (hlow : pos ≤ a) (hhigh : a + n ≤ pos + len) :
    patch f (fill g (a - pos) n v) pos len = fill (patch f g pos len) a n v := by
  funext k
  unfold patch fill
  dsimp only
  by_cases hin : a ≤ k ∧ k < a + n
  · rw [if_pos (by omega), if_pos (by omega), if_pos hin]
  rw [if_neg hin]
  split_ifs with hwin hbuf
  · exact absurd hbuf (by omega)
  · rfl
  · rfl

theorem patch_of_mem (hin : pos ≤ k ∧ k < pos + len) : patch f g pos len k = g (k - pos) :=
  if_pos hin

theorem patch_of_not_mem (hout : ¬ (pos ≤ k ∧ k < pos + len)) : patch f g pos len k = f k :=
  if_neg hout

theorem fill_of_mem (hlow : a ≤ k) (hhigh : k < a + n) : fill g a n v k = v :=
  if_pos ⟨hlow, hhigh⟩

theorem fill_of_not_mem (hout : ¬ (a ≤ k ∧ k < a + n)) : fill g a n v k = g k :=
  if_neg hout

end Bsr.Lib
