import Mathlib

/-!
# Families of intrusive lists

An intrusive list node is on at most one list of a family. `Placed L place` says that the lists `L`
hold exactly the items that `place` puts there, each once.

* `unlink` takes an item off whichever list it is on;
* `moveTo` takes it off and adds it at the front of another list;
* both only change the place of that item, and `length_moveTo` counts.
-/

namespace Bsr.Lib

open Function List

variable {κ α : Type*} [DecidableEq κ] [DecidableEq α]

/-- Take `x` off whichever list it is on. -/
def unlink (L : κ → List α) (x : α) : κ → List α :=
  fun k => (L k).erase x

/-- Take `x` off its list and add it at the front of list `k`. -/
def moveTo (L : κ → List α) (x : α) (k : κ) : κ → List α :=
  Function.update (unlink L x) k (x :: unlink L x k)

/-- The lists hold the items where `place` says. -/
structure Placed (L : κ → List α) (place : α → Option κ) : Prop where
  nodup : ∀ k, (L k).Nodup
  mem_iff : ∀ k x, x ∈ L k ↔ place x = some k

variable {L : κ → List α} {place : α → Option κ}

omit [DecidableEq κ] in
theorem Placed.unlink (h : Placed L place) (x : α) : Placed (unlink L x) (update place x none) := by
  constructor
  · intro k
    exact (h.nodup k).erase x
  intro k y
  rw [Lib.unlink, (h.nodup k).mem_erase_iff, h.mem_iff]
  by_cases hy : y = x
  · simp [hy]
  · simp [hy]

theorem Placed.moveTo (h : Placed L place) (x : α) (k : κ) :
    Placed (moveTo L x k) (update place x (some k)) := by
  have hun := h.unlink x
  have hnotMem : x ∉ Lib.unlink L x k := by
    rw [hun.mem_iff]
    simp
  constructor
  · intro j
    by_cases hj : j = k
    · subst hj
      rw [Lib.moveTo, update_self]
      exact nodup_cons.mpr ⟨hnotMem, hun.nodup j⟩
    · rw [Lib.moveTo, update_of_ne hj]
      exact hun.nodup j
  · intro j y
    by_cases hj : j = k
    · subst hj
      rw [Lib.moveTo, update_self, mem_cons, hun.mem_iff]
      by_cases hy : y = x
      · simp [hy]
      · simp [hy]
    · rw [Lib.moveTo, update_of_ne hj, hun.mem_iff]
      by_cases hy : y = x
      · subst hy
        simp [Ne.symm hj]
      · simp [hy]

/-- A move adds one item to the target list and takes one off the list the item was on. -/
theorem Placed.length_moveTo (h : Placed L place) (x : α) (k j : κ) :
    (Lib.moveTo L x k j).length + (if place x = some j then 1 else 0) =
      (L j).length + (if j = k then 1 else 0) := by
  have herase : ((L j).erase x).length + (if place x = some j then 1 else 0) = (L j).length := by
    by_cases hx : place x = some j
    · have hmem := (h.mem_iff j x).mpr hx
      have hpos := length_pos_of_mem hmem
      rw [length_erase_of_mem hmem, if_pos hx]
      omega
    · have hmem : x ∉ L j := fun hmem => hx ((h.mem_iff j x).mp hmem)
      rw [erase_of_not_mem hmem, if_neg hx]
      rfl
  by_cases hj : j = k
  · subst hj
    rw [Lib.moveTo, update_self, length_cons, if_pos rfl, Lib.unlink]
    omega
  · rw [Lib.moveTo, update_of_ne hj, if_neg hj]
    exact herase

end Bsr.Lib
