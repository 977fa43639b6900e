import Bsr.Interval.Tree

/-!
# Searching for overlaps

On a sorted tree with exact ends the pruned descent of `bsr_find_overlap` finds the first
overlapping interval in tree order, and `bsr_next_overlap` goes on to the next one.
-/

namespace Bsr.Interval

open Lib AugTree

/-- The half-open ranges of sectors overlap. -/
def Overlaps (sector size : Nat) (i : BsrInterval) : Prop :=
  i.sector < sector + size / 512 ∧ sector < i.sector + i.size / 512

instance (sector size : Nat) (i : BsrInterval) : Decidable (Overlaps sector size i) := by
  unfold Overlaps
  infer_instance

/-- An interval as `bsr_insert_interval` is given it: whole sectors, at least one, and an end that
fits a `sector_t`. -/
structure WellSized (i : BsrInterval) : Prop where
  aligned : i.size % 512 = 0
  pos : 0 < i.size
  fits : i.sector + i.size / 512 < 2 ^ 64

theorem sectorEnd_eq {sector size : Nat} (hfits : sector + size / 512 < 2 ^ 64) :
    sectorEnd sector size = sector + size / 512 := by
  rw [sectorEnd, Nat.shiftRight_eq_div_pow]
  exact Nat.mod_eq_of_lt hfits

variable {i : BsrInterval}

theorem WellSized.stop_eq (h : WellSized i) : i.stop = i.sector + i.size / 512 :=
  sectorEnd_eq h.fits

theorem WellSized.sector_lt (h : WellSized i) : i.sector < i.stop := by
  have haligned := h.aligned
  have hpos := h.pos
  rw [h.stop_eq]
  omega

/-- The test the loops make, with the end of the range as computed. -/
def hits (sector stop : Nat) (i : BsrInterval) : Bool :=
  decide (i.sector < stop ∧ sector < i.stop)

theorem hits_eq {sector size : Nat} (hi : WellSized i) (hfits : sector + size / 512 < 2 ^ 64) :
    hits sector (sectorEnd sector size) i = decide (Overlaps sector size i) := by
  rw [hits, sectorEnd_eq hfits, hi.stop_eq]
  rfl

open List

theorem find_eq_none_of_ge {sector stop : Nat} {xs : List BsrInterval}
    (h : ∀ i ∈ xs, stop ≤ i.sector) : xs.find? (hits sector stop) = none := by
  rw [find?_eq_none]
  intro i hi hhit
  have hge := h i hi
  have hlt := of_decide_eq_true hhit
  omega

variable {t : Tree}

section Search

variable {sector stop : Nat}

/-- The loop turns left when some interval of the left subtree ends after `sector`. -/
theorem turnsLeft_iff {l : Tree} (hends : EndsExact l) :
    l.rootVal.any (fun v => decide (sector < v)) = true ↔ ∃ i ∈ l.inorder, sector < i.stop := by
  cases l with
  | leaf => simp
  | node ll here e lr =>
    obtain ⟨⟨i, hi, _⟩, hle⟩ := hends.1
    simp only [rootVal_node, Option.any_some, decide_eq_true_eq]
    constructor
    · intro hlt
      exact ⟨i, hi, by omega⟩
    · rintro ⟨j, hj, hlt⟩
      exact Nat.lt_of_lt_of_le hlt (hle j hj)

/-- If an interval that ends after `sector` is not hit, nothing from it on is. -/
theorem find_eq_none_of_miss {xs : List BsrInterval} (hend : sector < i.stop)
    (hmiss : ¬ hits sector stop i = true) (hafter : ∀ j ∈ xs, i.sector ≤ j.sector) :
    xs.find? (hits sector stop) = none := by
  have hge : stop ≤ i.sector := by
    by_contra hlt
    exact hmiss (decide_eq_true ⟨by omega, hend⟩)
  apply find_eq_none_of_ge
  intro j hj
  exact Nat.le_trans hge (hafter j hj)

/-- The pruned descent finds what a scan of all nodes in order finds. -/
theorem findOverlap_eq (hsorted : Sorted t) (hends : EndsExact t) (hsized : ∀ i ∈ t.inorder, WellSized i) :
    findOverlap sector stop t = t.inorder.find? (hits sector stop) := by
  induction t with
  | leaf => rfl
  | node l here e r ihl ihr =>
    obtain ⟨hsl, hsr, hl, hr, hlr⟩ := hsorted.node
    have ihl := ihl hsl hends.2.1 fun i hi => hsized i (by simp [hi])
    have ihr := ihr hsr hends.2.2 fun i hi => hsized i (by simp [hi])
    rw [inorder_node, find?_append, findOverlap, ihl, ihr]
    by_cases hleft : ∃ i ∈ l.inorder, sector < i.stop
    · rw [if_pos ((turnsLeft_iff hends.2.1).mpr hleft)]
      obtain ⟨i, hi, hend⟩ := hleft
      cases hfind : l.inorder.find? (hits sector stop) with
      | some j => rfl
      | none =>
        symm
        apply find_eq_none_of_miss hend (find?_eq_none.mp hfind i hi)
        intro j hj
        rcases mem_cons.mp hj with rfl | hj
        · exact (hl i hi).sector_le
        · exact (hlr i hi j hj).sector_le
    · -- everything in the left subtree ends at or before `sector`
      rw [if_neg (fun h => hleft ((turnsLeft_iff hends.2.1).mp h))]
      have hnone : l.inorder.find? (hits sector stop) = none := by
        rw [find?_eq_none]
        intro i hi hhit
        exact hleft ⟨i, hi, (of_decide_eq_true hhit).2⟩
      rw [hnone, Option.none_or, find?_cons]
      by_cases hhere : here.sector < stop ∧ sector < here.stop
      · rw [if_pos hhere, show hits sector stop here = true from decide_eq_true hhere]
      have hmiss : hits sector stop here = false := decide_eq_false hhere
      rw [hmiss]
      split_ifs with hright
      · rfl
      have hend : sector < here.stop := by
        have := (hsized here (by simp)).sector_lt
        omega
      symm
      apply find_eq_none_of_miss hend (by rw [hmiss]; simp)
      intro j hj
      exact (hr j hj).sector_le

/-- From a node of the tree, `bsr_next_overlap` goes to the first hit after it. -/
theorem nextOverlap_eq (rb : RbTree) (hsorted : Sorted t)
    {before after : List BsrInterval} (hsplit : t.inorder = before ++ i :: after) {fuel : Nat}
    (hfuel : after.length < fuel) :
    nextOverlap rb t sector stop fuel i = after.find? (hits sector stop) := by
  induction after generalizing before i fuel with
  | nil =>
    obtain ⟨fuel, rfl⟩ := Nat.exists_eq_succ_of_ne_zero (Nat.ne_zero_of_lt hfuel)
    rw [nextOverlap, rb.next_eq t i before [] hsorted.nodup hsplit]
    rfl
  | cons j after ih =>
    obtain ⟨fuel, rfl⟩ := Nat.exists_eq_succ_of_ne_zero (Nat.ne_zero_of_lt hfuel)
    rw [nextOverlap, rb.next_eq t i before (j :: after) hsorted.nodup hsplit]
    have hrest : ∀ k ∈ j :: after, j.sector ≤ k.sector := by
      have hpair := hsorted
      rw [Sorted, hsplit, pairwise_append, pairwise_cons, pairwise_cons] at hpair
      intro k hk
      rcases mem_cons.mp hk with rfl | hk
      · exact Nat.le_refl _
      · exact (hpair.2.1.2.1 k hk).sector_le
    simp only [head?_cons]
    by_cases hend : j.sector ≥ stop
    · rw [if_pos hend]
      symm
      apply find_eq_none_of_ge
      intro k hk
      exact Nat.le_trans hend (hrest k hk)
    · rw [find?_cons]
      split_ifs with hhit
      · rw [show hits sector stop j = true from decide_eq_true ⟨by omega, hhit⟩]
      rw [show hits sector stop j = false from decide_eq_false (by omega)]
      rw [length_cons] at hfuel
      have hsplit' : t.inorder = (before ++ [i]) ++ j :: after := by simp [hsplit]
      exact ih hsplit' (by omega)

end Search

/-- Iterating from the first hit visits the hits in order, each once. -/
theorem overlapsFrom_eq (rb : RbTree) (hsorted : Sorted t) (sector size : Nat)
    {before after : List BsrInterval} (hsplit : t.inorder = before ++ after) {fuel : Nat}
    (hfuel : after.length < fuel) :
    overlapsFrom rb t sector size fuel (after.find? (hits sector (sectorEnd sector size))) =
      after.filter (hits sector (sectorEnd sector size)) := by
  induction after generalizing before fuel with
  | nil =>
    obtain ⟨fuel, rfl⟩ := Nat.exists_eq_succ_of_ne_zero (Nat.ne_zero_of_lt hfuel)
    rfl
  | cons i after ih =>
    rw [length_cons] at hfuel
    rw [find?_cons, filter_cons]
    have hsplit' : t.inorder = (before ++ [i]) ++ after := by simp [hsplit]
    cases hhit : hits sector (sectorEnd sector size) i with
    | false =>
      exact ih hsplit' (by omega)
    | true =>
      obtain ⟨fuel, rfl⟩ := Nat.exists_eq_succ_of_ne_zero (Nat.ne_zero_of_lt hfuel)
      have hlen : after.length < t.inorder.length + 1 := by
        rw [hsplit, length_append, length_cons]
        omega
      rw [if_pos rfl]
      simp only [overlapsFrom, bsrNextOverlap]
      rw [nextOverlap_eq rb hsorted hsplit hlen]
      rw [ih hsplit' (by omega)]

end Bsr.Interval
