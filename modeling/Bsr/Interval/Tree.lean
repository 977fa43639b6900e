import Bsr.Interval.Model

/-!
# Order and ends of the interval tree

* `Sorted` is the order of the tree: by start sector, then by address;
* `EndsExact` is what the `end` fields are for: each is the highest interval end of its subtree;
* linking a new leaf keeps the order and leaves only the ends above it stale.
-/

namespace Bsr.Interval

open Lib AugTree

/-- The order of the tree. -/
def Before (i j : BsrInterval) : Prop :=
  i.sector < j.sector ∨ i.sector = j.sector ∧ i.addr < j.addr

theorem Before.trans {i j k : BsrInterval} (hij : Before i j) (hjk : Before j k) : Before i k := by
  unfold Before at *
  omega

theorem Before.sector_le {i j : BsrInterval} (h : Before i j) : i.sector ≤ j.sector := by
  unfold Before at h
  omega

theorem Before.ne {i j : BsrInterval} (h : Before i j) : i ≠ j := by
  rintro rfl
  unfold Before at h
  omega

def Sorted (t : Tree) : Prop :=
  t.inorder.Pairwise Before

variable {t : Tree}

theorem Sorted.nodup (h : Sorted t) : t.inorder.Nodup :=
  List.Pairwise.imp Before.ne h

variable {e : Nat}

open List

theorem Sorted.node {l r : Tree} {here : BsrInterval} (h : Sorted (.node l here e r)) :
    Sorted l ∧ Sorted r ∧ (∀ i ∈ l.inorder, Before i here) ∧ (∀ i ∈ r.inorder, Before here i) ∧
      ∀ i ∈ l.inorder, ∀ j ∈ r.inorder, Before i j := by
  unfold Sorted at h
  rw [inorder_node, pairwise_append, pairwise_cons] at h
  obtain ⟨hl, ⟨hhere, hr⟩, hcross⟩ := h
  have hleft : ∀ i ∈ l.inorder, Before i here := fun i hi => hcross i hi here mem_cons_self
  exact ⟨hl, hr, hleft, hhere, fun i hi j hj => (hleft i hi).trans (hhere j hj)⟩

/-- `e` is the highest interval end in the list. -/
def IsMaxEnd (e : Nat) (xs : List BsrInterval) : Prop :=
  (∃ i ∈ xs, i.stop = e) ∧ ∀ i ∈ xs, i.stop ≤ e

/-- Every node's `end` is the highest interval end of its subtree. -/
def EndsExact : Tree → Prop
  | .leaf => True
  | .node l here e r => IsMaxEnd e (inorder (.node l here e r)) ∧ EndsExact l ∧ EndsExact r

theorem updateIntervalEnd_eq (left : Option Nat) (this : BsrInterval) (right : Option Nat) :
    updateIntervalEnd left this right = max (max this.stop (left.getD 0)) (right.getD 0) := by
  cases left <;> cases right <;> simp only [updateIntervalEnd] <;> grind

/-- The value at the root bounds the ends of a tree, where an empty tree counts as ending at 0. -/
theorem EndsExact.stop_le (h : EndsExact t) {i : BsrInterval} (hi : i ∈ t.inorder) :
    i.stop ≤ t.rootVal.getD 0 := by
  cases t with
  | leaf => cases hi
  | node l here e r => exact h.1.2 i hi

theorem EndsExact.attained (h : EndsExact t) (hpos : 0 < t.rootVal.getD 0) :
    ∃ i ∈ t.inorder, i.stop = t.rootVal.getD 0 := by
  cases t with
  | leaf => cases hpos
  | node l here e r => exact h.1.1

theorem isMaxEnd_updateIntervalEnd {l r : Tree} (here : BsrInterval) (e : Nat) (hl : EndsExact l)
    (hr : EndsExact r) :
    IsMaxEnd (updateIntervalEnd l.rootVal here r.rootVal) (inorder (.node l here e r)) := by
  rw [updateIntervalEnd_eq, inorder_node]
  constructor
  · -- the maximum is the own end or the end of a child, which some node of the child attains
    by_cases hown : l.rootVal.getD 0 ≤ here.stop ∧ r.rootVal.getD 0 ≤ here.stop
    · exact ⟨here, by simp, by omega⟩
    by_cases hside : r.rootVal.getD 0 ≤ l.rootVal.getD 0
    · obtain ⟨i, hi, hstop⟩ := hl.attained (by omega)
      exact ⟨i, by simp [hi], by omega⟩
    · obtain ⟨i, hi, hstop⟩ := hr.attained (by omega)
      exact ⟨i, by simp [hi], by omega⟩
  · intro i hi
    rw [mem_append, mem_cons] at hi
    rcases hi with hi | rfl | hi
    · have := hl.stop_le hi
      omega
    · omega
    · have := hr.stop_le hi
      omega

theorem endsExact_of_augmented (h : Augmented updateIntervalEnd t) : EndsExact t := by
  induction t with
  | leaf => trivial
  | node l here e r ihl ihr =>
    obtain ⟨he, hl, hr⟩ := h
    subst he
    exact ⟨isMaxEnd_updateIntervalEnd here _ (ihl hl) (ihr hr), ihl hl, ihr hr⟩

/-- What the loop of `bsr_insert_interval` and `rb_link_node` do to the order of the nodes. -/
structure Linked (this : BsrInterval) (t t' : Tree) : Prop where
  split : ∃ before after, t.inorder = before ++ after ∧ t'.inorder = before ++ this :: after ∧
    (∀ i ∈ before, Before i this) ∧ ∀ i ∈ after, Before this i
  off : Augmented updateIntervalEnd t → AugmentedOff updateIntervalEnd this t'

theorem Linked.mem_iff {this i : BsrInterval} {t t' : Tree} (h : Linked this t t') :
    i ∈ t'.inorder ↔ i = this ∨ i ∈ t.inorder := by
  obtain ⟨_, _, ht, ht', _, _⟩ := h.split
  rw [ht, ht', mem_append, mem_cons, mem_append]
  tauto

theorem Linked.sorted {this : BsrInterval} {t t' : Tree} (h : Linked this t t') (ht : Sorted t) :
    Sorted t' := by
  obtain ⟨_, _, hsplit, hsplit', hbefore, hafter⟩ := h.split
  unfold Sorted at ht ⊢
  rw [hsplit, pairwise_append] at ht
  rw [hsplit', pairwise_append, pairwise_cons]
  refine ⟨ht.1, ⟨hafter, ht.2.1⟩, ?_⟩
  intro i hi j hj
  rcases mem_cons.mp hj with rfl | hj
  · exact hbefore i hi
  · exact ht.2.2 i hi j hj

theorem Linked.left {this here : BsrInterval} {l l' r : Tree} (h : Linked this l l')
    (hsorted : Sorted (.node l here e r)) (hbefore : Before this here) :
    Linked this (.node l here e r) (.node l' here e r) := by
  obtain ⟨before, after, hl, hl', hleft, hright⟩ := h.split
  constructor
  · refine ⟨before, after ++ here :: r.inorder, by simp [hl], by simp [hl'], hleft, ?_⟩
    intro i hi
    rw [mem_append, mem_cons] at hi
    rcases hi with hi | rfl | hi
    · exact hright i hi
    · exact hbefore
    · exact hbefore.trans (hsorted.node.2.2.2.1 i hi)
  · rintro ⟨_, hal, har⟩
    refine ⟨fun hnot => ?_, h.off hal, har.off this⟩
    exact absurd (by simp [hl']) hnot

theorem Linked.right {this here : BsrInterval} {l r r' : Tree} (h : Linked this r r')
    (hsorted : Sorted (.node l here e r)) (hafter : Before here this) :
    Linked this (.node l here e r) (.node l here e r') := by
  obtain ⟨before, after, hr, hr', hleft, hright⟩ := h.split
  constructor
  · refine ⟨l.inorder ++ here :: before, after, by simp [hr], by simp [hr'], ?_, hright⟩
    intro i hi
    rw [mem_append, mem_cons] at hi
    rcases hi with hi | rfl | hi
    · exact (hsorted.node.2.2.1 i hi).trans hafter
    · exact hafter
    · exact hleft i hi
  · rintro ⟨_, hal, har⟩
    refine ⟨fun hnot => ?_, hal.off this, h.off har⟩
    exact absurd (by simp [hr']) hnot

/-- The loop ends at a free place, or at the node it was to insert. -/
theorem linkInterval_spec (this : BsrInterval) (stale : Nat) (ht : Sorted t) :
    (∃ t', linkInterval this stale t = some t' ∧ Linked this t t') ∨
      (linkInterval this stale t = none ∧
        ∃ i ∈ t.inorder, i.sector = this.sector ∧ i.addr = this.addr) := by
  induction t with
  | leaf =>
    left
    refine ⟨_, rfl, ⟨[], [], rfl, rfl, by simp, by simp⟩, fun _ => ?_⟩
    exact ⟨fun hnot => absurd (by simp) hnot, trivial, trivial⟩
  | node l here e r ihl ihr =>
    have hleft : Before this here → linkInterval this stale (.node l here e r) =
        (linkInterval this stale l).map fun l' => .node l' here e r := by
      unfold Before
      intro h
      rw [linkInterval]
      grind
    have hright : Before here this → linkInterval this stale (.node l here e r) =
        (linkInterval this stale r).map fun r' => .node l here e r' := by
      unfold Before
      intro h
      rw [linkInterval]
      grind
    by_cases hbefore : Before this here
    · rw [hleft hbefore]
      rcases ihl ht.node.1 with ⟨l', hl', hlinked⟩ | ⟨hnone, i, hi, hsame⟩
      · left
        exact ⟨_, by rw [hl', Option.map_some], hlinked.left ht hbefore⟩
      · right
        exact ⟨by rw [hnone, Option.map_none], i, by simp [hi], hsame⟩
    by_cases hafter : Before here this
    · rw [hright hafter]
      rcases ihr ht.node.2.1 with ⟨r', hr', hlinked⟩ | ⟨hnone, i, hi, hsame⟩
      · left
        exact ⟨_, by rw [hr', Option.map_some], hlinked.right ht hafter⟩
      · right
        exact ⟨by rw [hnone, Option.map_none], i, by simp [hi], hsame⟩
    · right
      unfold Before at hbefore hafter
      refine ⟨?_, here, by simp, by omega, by omega⟩
      rw [linkInterval, if_neg (by omega), if_neg (by omega), if_neg (by omega),
        if_neg (by omega)]

/-- `bsr_contains_interval` finds exactly the nodes of the tree. -/
theorem bsrContainsInterval_iff (sector addr : Nat) (ht : Sorted t) :
    bsrContainsInterval sector addr t = true ↔
      ∃ i ∈ t.inorder, i.sector = sector ∧ i.addr = addr := by
  induction t with
  | leaf => simp [bsrContainsInterval]
  | node l here e r ihl ihr =>
    obtain ⟨_, _, hl, hr, _⟩ := ht.node
    -- a node with the searched key is not on the side the loop does not take
    have hsides : (∃ i ∈ inorder (.node l here e r), i.sector = sector ∧ i.addr = addr) ↔
        (∃ i ∈ l.inorder, i.sector = sector ∧ i.addr = addr) ∨
          (here.sector = sector ∧ here.addr = addr) ∨
          ∃ i ∈ r.inorder, i.sector = sector ∧ i.addr = addr := by
      simp only [inorder_node]
      grind
    have hnl : (∃ i ∈ l.inorder, i.sector = sector ∧ i.addr = addr) →
        sector < here.sector ∨ sector = here.sector ∧ addr < here.addr := by
      rintro ⟨i, hi, rfl, rfl⟩
      exact hl i hi
    have hnr : (∃ i ∈ r.inorder, i.sector = sector ∧ i.addr = addr) →
        here.sector < sector ∨ here.sector = sector ∧ here.addr < addr := by
      rintro ⟨i, hi, rfl, rfl⟩
      exact hr i hi
    rw [bsrContainsInterval]
    grind

end Bsr.Interval
