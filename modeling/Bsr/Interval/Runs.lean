import Bsr.Lib.Reach
import Bsr.Interval.Overlap

/-!
# Runs of the interval tree

Any sequence of insertions and removals on an empty tree. Beside the tree the state records which
intervals are held, so that the results speak of the intervals inserted and not yet removed.
-/

namespace Bsr.Interval

open Lib AugTree

/-- The tree, and the intervals inserted and not removed since. -/
structure TreeState where
  root : Tree
  held : Finset BsrInterval

inductive TreeCall where
  | insert (this : BsrInterval) (stale : Nat)
  | remove (this : BsrInterval) (empty : Bool)
deriving DecidableEq, Repr

namespace TreeCall

def exec (rb : RbTree) (s : TreeState) : TreeCall → Except Bug TreeState
  | .insert this stale =>
    (bsrInsertInterval rb s.root this stale).map fun res => ⟨res.1, Insert.insert this s.held⟩
  | .remove this empty => .ok ⟨bsrRemoveInterval rb s.root this empty, s.held.erase this⟩

/-- What the code asks of its callers: whole sectors and no overflow, a node that is in the tree
keeps its sector and size, and a node to remove is in the tree or cleared. -/
def Legal (s : TreeState) : TreeCall → Prop
  | .insert this _ => WellSized this ∧ ∀ i ∈ s.held, i.addr = this.addr → i = this
  | .remove this empty => (this ∈ s.held ∧ empty = false) ∨ (this ∉ s.held ∧ empty = true)

def Step (rb : RbTree) (s : TreeState) (call : TreeCall) (s' : TreeState) : Prop :=
  call.Legal s ∧ call.exec rb s = .ok s'

end TreeCall

/-- States that a run of legal calls reaches from the empty tree. -/
def Reached (rb : RbTree) : TreeState → Prop :=
  Reachable (fun s => s = ⟨.leaf, ∅⟩) (TreeCall.Step rb)

structure TreeInv (s : TreeState) : Prop where
  sorted : Sorted s.root
  augmented : Augmented updateIntervalEnd s.root
  mem_iff : ∀ i, i ∈ s.root.inorder ↔ i ∈ s.held
  sized : ∀ i ∈ s.held, WellSized i

theorem treeInv_empty : TreeInv ⟨.leaf, ∅⟩ := by
  constructor
  · exact List.Pairwise.nil
  · trivial
  · simp
  · simp

variable {rb : RbTree}

open Finset TreeCall

theorem TreeInv.insert {s s' : TreeState} {this : BsrInterval} {stale : Nat}
    (h : TreeInv s) (hlegal : (insert this stale).Legal s)
    (hexec : (insert this stale).exec rb s = .ok s') : TreeInv s' := by
  obtain ⟨hsized, hsame⟩ := hlegal
  have hall : ∀ i ∈ Insert.insert this s.held, WellSized i := by
    intro i hi
    rcases mem_insert.mp hi with rfl | hi
    · exact hsized
    · exact h.sized i hi
  rw [exec, bsrInsertInterval, if_neg (not_not.mpr hsized.aligned)] at hexec
  rcases linkInterval_spec this stale h.sorted with ⟨t', hlink, hlinked⟩ | ⟨hlink, i, hi, hkey⟩
  · rw [hlink] at hexec
    cases hexec
    have hmem : this ∈ t'.inorder := hlinked.mem_iff.mpr (.inl rfl)
    have hnodup := (hlinked.sorted h.sorted).nodup
    have hinorder := rb.inorder_insertColor updateIntervalEnd t' this hmem hnodup
    constructor
    · show List.Pairwise _ _
      rw [hinorder]
      exact hlinked.sorted h.sorted
    · exact rb.augmented_insertColor _ _ _ hmem hnodup (hlinked.off h.augmented)
    · intro i
      rw [hinorder, hlinked.mem_iff, h.mem_iff, mem_insert]
    · exact hall
  · -- the loop met a node with this address, which is `this`
    rw [hlink] at hexec
    cases hexec
    have hthis : this ∈ s.held := by
      have hi := (h.mem_iff i).mp hi
      rwa [hsame i hi hkey.2] at hi
    rw [insert_eq_of_mem hthis]
    exact { h with }

open List

theorem TreeInv.remove {s s' : TreeState} {this : BsrInterval} {empty : Bool}
    (h : TreeInv s) (hlegal : (remove this empty).Legal s)
    (hexec : (remove this empty).exec rb s = .ok s') : TreeInv s' := by
  cases hexec
  rcases hlegal with ⟨hheld, rfl⟩ | ⟨hheld, rfl⟩
  · have hmem := (h.mem_iff this).mpr hheld
    have hinorder := rb.inorder_erase updateIntervalEnd s.root this hmem h.sorted.nodup
    constructor
    · show List.Pairwise _ (inorder (rb.erase _ _ _))
      rw [hinorder]
      exact h.sorted.sublist erase_sublist
    · exact rb.augmented_erase _ _ _ hmem h.sorted.nodup h.augmented
    · intro i
      show i ∈ inorder (rb.erase _ _ _) ↔ _
      rw [hinorder, h.sorted.nodup.mem_erase_iff, h.mem_iff, mem_erase]
    · intro i hi
      exact h.sized i (mem_of_mem_erase hi)
  · rw [erase_eq_of_notMem hheld]
    exact { h with }

variable {s : TreeState}

theorem Reached.inv (hs : Reached rb s) : TreeInv s := by
  apply Reachable.invariant _ _ hs
  · rintro s rfl
    exact treeInv_empty
  rintro s call _ hinv ⟨hlegal, hexec⟩
  cases call with
  | insert this stale => exact hinv.insert hlegal hexec
  | remove this empty => exact hinv.remove hlegal hexec

/-- A legal call on a reached state returns, so that runs never get stuck. -/
theorem TreeCall.exec_ok (call : TreeCall) (hlegal : call.Legal s) : ∃ s', call.exec rb s = .ok s' := by
  cases call with
  | insert this stale =>
    rw [exec, bsrInsertInterval, if_neg (not_not.mpr hlegal.1.aligned)]
    cases linkInterval this stale s.root with
    | none | some t => exact ⟨_, rfl⟩
  | remove this empty => exact ⟨_, rfl⟩

section Queries

variable {s : TreeState} {sector size : Nat}

/-- What a search returns, as a scan of the held intervals in tree order. -/
theorem TreeInv.bsrFindOverlap_eq (h : TreeInv s) (haligned : size % 512 = 0)
    (hfits : sector + size / 512 < 2 ^ 64) : bsrFindOverlap s.root sector size =
      .ok (s.root.inorder.find? fun i => decide (Overlaps sector size i)) := by
  have hsized : ∀ i ∈ s.root.inorder, WellSized i := fun i hi => h.sized i ((h.mem_iff i).mp hi)
  rw [bsrFindOverlap, if_neg (not_not.mpr haligned),
    findOverlap_eq h.sorted (endsExact_of_augmented h.augmented) hsized]
  rw [← head?_filter, ← head?_filter]
  rw [filter_congr fun i hi => hits_eq (hsized i hi) hfits]

theorem TreeInv.bsrForEachOverlap_eq (h : TreeInv s) (rb : RbTree) (haligned : size % 512 = 0)
    (hfits : sector + size / 512 < 2 ^ 64) {fuel : Nat} (hfuel : s.held.card < fuel) :
    bsrForEachOverlap rb s.root sector size fuel =
      .ok (s.root.inorder.filter fun i => decide (Overlaps sector size i)) := by
  have hsized : ∀ i ∈ s.root.inorder, WellSized i := fun i hi => h.sized i ((h.mem_iff i).mp hi)
  have hcard : s.held.card = s.root.inorder.length := by
    rw [← toFinset_card_of_nodup h.sorted.nodup]
    congr 1
    ext i
    rw [mem_toFinset, h.mem_iff]
  rw [bsrForEachOverlap, bsrFindOverlap, if_neg (not_not.mpr haligned),
    findOverlap_eq h.sorted (endsExact_of_augmented h.augmented) hsized]
  show Except.ok _ = _
  rw [overlapsFrom_eq rb h.sorted sector size (nil_append _).symm (hcard ▸ hfuel)]
  congr 1
  apply List.filter_congr
  intro i hi
  exact hits_eq (hsized i hi) hfits

/-- The first overlap in tree order is one with the lowest start sector. -/
theorem TreeInv.find_lowest (h : TreeInv s) {i : BsrInterval}
    (hfind : s.root.inorder.find? (fun i => decide (Overlaps sector size i)) = some i) :
    i ∈ s.held ∧ Overlaps sector size i ∧
      ∀ j ∈ s.held, Overlaps sector size j → i.sector ≤ j.sector := by
  rw [find?_eq_some_iff_append] at hfind
  obtain ⟨hover, _, _, hsplit, hbefore⟩ := hfind
  have hpair := h.sorted
  rw [Sorted, hsplit, List.pairwise_append, List.pairwise_cons] at hpair
  refine ⟨(h.mem_iff i).mp (by simp [hsplit]), of_decide_eq_true hover, ?_⟩
  intro j hj hoverj
  rw [← h.mem_iff, hsplit, List.mem_append, List.mem_cons] at hj
  rcases hj with hj | rfl | hj
  · have := hbefore j hj
    simp [hoverj] at this
  · exact Nat.le_refl _
  · exact (hpair.2.1.1 j hj).sector_le

end Queries

/-- Over any run of insertions and removals: every node's `end` is the highest interval end of its
subtree, `bsr_find_overlap` returns a held interval with the lowest start among those that overlap
the range and nothing exactly when none does, and `bsr_for_each_overlap` visits every overlapping
interval exactly once and ends. -/
theorem interval_tree_runs (rb : RbTree) {s : TreeState} (hs : Reached rb s) :
    EndsExact s.root ∧ (∀ i, i ∈ s.root.inorder ↔ i ∈ s.held) ∧
    ∀ sector size, size % 512 = 0 → sector + size / 512 < 2 ^ 64 →
      (∃ found, bsrFindOverlap s.root sector size = .ok found ∧
        (found = none ↔ ∀ i ∈ s.held, ¬ Overlaps sector size i) ∧
        ∀ i, found = some i → i ∈ s.held ∧ Overlaps sector size i ∧
          ∀ j ∈ s.held, Overlaps sector size j → i.sector ≤ j.sector) ∧
      ∃ visited : List BsrInterval, visited.Nodup ∧
        (∀ i, i ∈ visited ↔ i ∈ s.held ∧ Overlaps sector size i) ∧
        ∀ fuel, s.held.card < fuel →
          bsrForEachOverlap rb s.root sector size fuel = .ok visited := by
  have hinv := hs.inv
  refine ⟨endsExact_of_augmented hinv.augmented, hinv.mem_iff, ?_⟩
  intro sector size haligned hfits
  constructor
  · refine ⟨_, hinv.bsrFindOverlap_eq haligned hfits, ?_, fun i => hinv.find_lowest⟩
    simp [hinv.mem_iff]
  refine ⟨_, hinv.sorted.nodup.filter _, ?_,
    fun fuel hfuel => hinv.bsrForEachOverlap_eq rb haligned hfits hfuel⟩
  intro i
  simp [hinv.mem_iff]

/-- Two overlapping requests, the second one inserted below the first. -/
def pairState : TreeState where
  root := .node .leaf ⟨64, 8, 4096⟩ 24 (.node .leaf ⟨128, 12, 6144⟩ 24 .leaf)
  held := {⟨128, 12, 6144⟩, ⟨64, 8, 4096⟩}

theorem pairState_reached : Reached (plainBalancer BsrInterval Nat) pairState := by
  have hempty : Reached (plainBalancer BsrInterval Nat) ⟨.leaf, ∅⟩ := Reachable.start rfl
  have hfirst : Reached (plainBalancer BsrInterval Nat)
      ⟨.node .leaf ⟨64, 8, 4096⟩ 16 .leaf, {⟨64, 8, 4096⟩}⟩ := by
    apply Reachable.next (TreeCall.insert ⟨64, 8, 4096⟩ 0) hempty
    exact ⟨⟨⟨by decide, by decide, by decide⟩, by decide⟩, rfl⟩
  apply Reachable.next (TreeCall.insert ⟨128, 12, 6144⟩ 0) hfirst
  exact ⟨⟨⟨by decide, by decide, by decide⟩, by decide⟩, rfl⟩

/-- A query over two requests. -/
theorem interval_tree_runs_pair :
    EndsExact pairState.root ∧ ∃ found, bsrFindOverlap pairState.root 14 1024 = .ok found ∧
      (found = none ↔ ∀ i ∈ pairState.held, ¬ Overlaps 14 1024 i) ∧
      ∀ i, found = some i → ∀ j ∈ pairState.held, Overlaps 14 1024 j → i.sector ≤ j.sector := by
  obtain ⟨hends, _, hqueries⟩ := interval_tree_runs _ pairState_reached
  obtain ⟨⟨found, hfound, hnone, hlow⟩, _⟩ := hqueries 14 1024 (by decide) (by decide)
  exact ⟨hends, found, hfound, hnone, fun i hi => (hlow i hi).2.2⟩

/-- Over any run: the next legal call returns, and `bsr_contains_interval` tells which intervals are
held. -/
theorem interval_contains_runs (rb : RbTree) {s : TreeState} (hs : Reached rb s) :
    (∀ call : TreeCall, call.Legal s → ∃ s', call.exec rb s = .ok s') ∧ ∀ sector addr,
      bsrContainsInterval sector addr s.root = true ↔ ∃ i ∈ s.held, i.sector = sector ∧ i.addr = addr := by
  refine ⟨TreeCall.exec_ok, fun sector addr => ?_⟩
  rw [bsrContainsInterval_iff sector addr hs.inv.sorted]
  simp only [hs.inv.mem_iff]

/-- The second of the two requests is found. -/
theorem interval_contains_runs_pair : bsrContainsInterval 12 128 pairState.root = true :=
  ((interval_contains_runs _ pairState_reached).2 12 128).2 ⟨⟨128, 12, 6144⟩, by decide, rfl, rfl⟩

end Bsr.Interval
