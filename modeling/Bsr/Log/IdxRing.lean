import Mathlib

/-!
# The index ring of the log buffer

`__printk` takes a slot of the log buffer with `idx_ring_acquire`; the log consumer thread goes
through the slots with `idx_ring_consume` and gives them back with `idx_ring_dispose`
(`bsr_idx_ring.c`).

* `attempt` is one round of `idx_ring_acquire` on the indices that it has read;
* `acquire_again_iff`: after an overflow the free slots are counted right, except where `next` is
  below `disposed`: there the code counts the taken ones.
-/

namespace Bsr.Log

/-- The free slots as `idx_ring_acquire` counts them after an overflow. -/
def remaining (maxCount acquired disposed : Nat) : Int :=
  if acquired + 1 < disposed then (acquired + 1 + maxCount : Int) - disposed
  else maxCount - ((acquired + 1 : Int) - disposed)

/-- One round of the loop of `idx_ring_acquire`: what `acquired` is to be exchanged for, `none` for
`return false`. -/
def attempt (maxCount : Nat) (isOverflowing hasConsumer : Bool) (acquired disposed : Nat) : Option Nat :=
  if isOverflowing ∧ remaining maxCount acquired disposed < (maxCount / 10 : Nat) then none
  else if acquired < disposed then
    if acquired + 1 < disposed then some (acquired + 1)
    else if hasConsumer then none else some (acquired + 1)
  else if maxCount ≤ acquired + 1 then
    if disposed ≠ 0 then some ((acquired + 1) % maxCount)
    else if hasConsumer then none else some ((acquired + 1) % maxCount)
  else some (acquired + 1)

/-! ## After an overflow -/

/-- `struct idx_ring_buffer` with `maxCount` slots, as far as producers use it. -/
structure Ring (maxCount : Nat) where
  acquired : Fin maxCount
  disposed : Fin maxCount
  isOverflowing : Bool
  hasConsumer : Bool

namespace Ring

variable {maxCount : Nat}

/-- `idx_ring_acquire` with no other producer at work: the index. -/
def acquire (r : Ring maxCount) : Option Nat :=
  (attempt maxCount r.isOverflowing r.hasConsumer r.acquired r.disposed).map fun _ => r.acquired

/-- The slots that can be acquired before the ring is full; one always stays empty. -/
def free (r : Ring maxCount) : Nat :=
  if r.acquired < r.disposed then r.disposed - r.acquired - 1 else maxCount - 1 - (r.acquired - r.disposed)

/-- Where `next` is below `disposed`, a tenth of the ring is free and a tenth is taken. Elsewhere a
full ring has a consumer, or is refused for its size, and the tenth is not rounded. -/
def Judged (r : Ring maxCount) : Prop :=
  if r.acquired + 1 < r.disposed.val then
    maxCount / 10 ≤ maxCount - r.free ∧ maxCount ≤ 10 * r.free
  else
    (r.free = 0 → r.hasConsumer = true ∨ r.disposed.val = 0 ∧ 10 ≤ maxCount) ∧
      (0 < r.free → r.free = maxCount / 10 → maxCount % 10 = 0)

/-- After an overflow, a slot is handed out again just when a tenth of the ring is free, if and only
if it is judged from the right count. -/
theorem acquire_again_iff (r : Ring maxCount) (hover : r.isOverflowing = true) :
    (r.acquire.isSome = true ↔ maxCount ≤ 10 * r.free) ↔ r.Judged := by
  obtain ⟨⟨a, ha⟩, ⟨d, hd⟩, overflowing, hasConsumer⟩ := r
  cases hover
  simp only [acquire, attempt, remaining, free, Judged, Option.isSome_map, Fin.mk_lt_mk, true_and]
  cases hasConsumer <;> simp only [Bool.false_eq_true, if_true, if_false, false_or, true_or, implies_true]
  all_goals split_ifs <;> simp <;> omega

/-- A full turn: `next` is not below `disposed`, the ring is empty, and a slot is handed out. -/
theorem acquire_again_ten :
    (10 ≤ 10 * (⟨3, 3, true, true⟩ : Ring 10).free) ∧ (⟨3, 3, true, true⟩ : Ring 10).acquire.isSome = true := by
  have h := (acquire_again_iff (⟨3, 3, true, true⟩ : Ring 10) rfl).2 (by unfold Judged; decide)
  exact ⟨by decide, h.2 (by decide)⟩

/-- 98 of 100 slots are free, and none is handed out. -/
theorem acquire_refused_when_free :
    ¬ ((⟨0, 99, true, true⟩ : Ring 100).acquire.isSome = true ↔ 100 ≤ 10 * (⟨0, 99, true, true⟩ : Ring 100).free) := by
  decide

end Ring

end Bsr.Log
