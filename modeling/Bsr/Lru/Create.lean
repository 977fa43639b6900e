import Bsr.Lru.Model

/-!
# Creating a cache when memory runs out

`lc_create` allocates the elements one by one and gives up at the first one that it does not get.

* `lcCreateAlloc` is `lc_create` with the outcome of its allocations, and the elements that it
  frees;
* `lc_create_frees_iff`: they are those that it allocated only if nothing fails.
-/

namespace Bsr.Lru

open List

/-- The loop over the elements, with `n` rounds left: `i` after it. -/
def preallocate (alloc : Nat → Bool) : Nat → Nat → Nat
  | 0, i => i
  | n + 1, i => if alloc i then preallocate alloc n (i + 1) else i

/-- The indices of the elements that the loop of the error path frees, from `i` on. -/
def freeFrom : Nat → List Nat
  | 0 => []
  | i + 1 => (i + 1) :: freeFrom i

/-- `lc_create`: the cache, and the elements that were freed. `fits` is the test of the size of an
object, `arrays` says whether the slots, the array of elements and the cache itself could be
allocated. -/
def lcCreateAlloc (fits arrays : Bool) (alloc : Nat → Bool) (maxPendingChanges eCount : Nat) :
    Option LruCache × List Nat :=
  if !fits || decide (eCount > lcMaxActive) || !arrays then (none, [])
  else
    let i := preallocate alloc eCount 0
    if i = eCount then (lcCreate maxPendingChanges eCount, [])
    -- `i--` on an unsigned index
    else (none, freeFrom ((i + (2 ^ 32 - 1)) % 2 ^ 32))

/-- The allocations succeed up to the one of element `k`, or all of them. -/
structure FailsAt (alloc : Nat → Bool) (n k : Nat) : Prop where
  le : k ≤ n
  before : ∀ i < k, alloc i = true
  fails : k < n → alloc k = false

theorem FailsAt.preallocate_eq {alloc : Nat → Bool} {n k : Nat} (h : FailsAt alloc n k) :
    preallocate alloc n 0 = k := by
  -- at the start of round `i` all before it succeeded
  have hround : ∀ m i, i + m = n → i ≤ k → preallocate alloc m i = k := by
    intro m
    induction m with
    | zero =>
      intro i hi hik
      have := h.le
      simp only [preallocate]
      omega
    | succ m ih =>
      intro i hi hik
      rw [preallocate]
      obtain hlt | rfl := Nat.lt_or_eq_of_le hik
      · rw [if_pos (h.before i hlt)]
        exact ih (i + 1) (by omega) hlt
      · rw [h.fails (by omega)]
        rfl
  exact hround n 0 (by omega) (Nat.zero_le k)

theorem mem_freeFrom {i j : Nat} : j ∈ freeFrom i ↔ 1 ≤ j ∧ j ≤ i := by
  induction i with
  | zero =>
    simp only [freeFrom, not_mem_nil, false_iff]
    omega
  | succ i ih =>
    rw [freeFrom, mem_cons, ih]
    omega

/-- When the allocation of element `k` fails, element 0 is never freed; and if it is the first one,
the index wraps and the loop frees what lies behind the array. -/
theorem lc_create_frees_iff {alloc : Nat → Bool} {n k : Nat} (hn : n ≤ lcMaxActive)
    (hk : FailsAt alloc n k) (maxPendingChanges : Nat) :
    (lcCreateAlloc true true alloc maxPendingChanges n).2.Perm (if k < n then range k else []) ↔ k = n := by
  have hle := hk.le
  simp only [lcCreateAlloc, hk.preallocate_eq]
  rw [if_neg (by simpa using hn)]
  split_ifs with hall hlt
  · omega
  · simp [hall]
  · refine iff_of_false (fun hperm => ?_) hall
    unfold lcMaxActive at hn
    generalize hi : (k + (2 ^ 32 - 1)) % 2 ^ 32 = i at hperm
    obtain rfl | hpos := Nat.eq_zero_or_pos k
    · have hone : 1 ∈ freeFrom i := mem_freeFrom.2 (by omega)
      exact not_mem_nil (hperm.mem_iff.1 hone)
    · have hzero := mem_freeFrom.1 (hperm.mem_iff.2 (mem_range.2 hpos))
      omega
  · omega

/-- Both elements are allocated: nothing is to be freed. -/
theorem lc_create_frees_two : (lcCreateAlloc true true (fun _ => true) 1 2).2.Perm [] :=
  (lc_create_frees_iff (by decide) ⟨le_rfl, fun _ _ => rfl, fun h => absurd h (by decide)⟩ 1).2 rfl

/-- The second of two elements fails: the first one is not freed. -/
theorem lc_create_leaks :
    FailsAt (· = 0) 2 1 ∧ ¬ (lcCreateAlloc true true (· = 0) 1 2).2.Perm (range 1) :=
  ⟨⟨by decide, by decide, fun _ => rfl⟩, by decide⟩

end Bsr.Lru
