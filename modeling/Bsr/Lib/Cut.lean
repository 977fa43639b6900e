import Mathlib

/-!
# Cutting a list behind the first hit

`cutAfter p xs` splits `xs` behind the first element that satisfies `p`, as `list_cut_position` does
at the entry a search has found; `none` stands for a search without a hit.
-/

namespace Bsr.Lib

variable {α β : Type*} {p : α → Bool}

def cutAfter (p : α → Bool) : List α → Option (List α × List α)
  | [] => none
  | x :: xs => if p x then some ([x], xs) else (cutAfter p xs).map fun c => (x :: c.1, c.2)

/-- The cut is where the first hit is. -/
theorem cutAfter_append {pre : List α} {x : α} (hpre : ∀ y ∈ pre, p y = false) (hx : p x = true)
    (post : List α) : cutAfter p (pre ++ x :: post) = some (pre ++ [x], post) := by
  induction pre with
  | nil => simp [cutAfter, hx]
  | cons y pre ih =>
    have hy : p y = false := hpre y List.mem_cons_self
    rw [List.cons_append, cutAfter, hy, ih fun z hz => hpre z (List.mem_cons_of_mem _ hz)]
    rfl

end Bsr.Lib
