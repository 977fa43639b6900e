import Mathlib

/-!
# Sorted lists of ranges

A set of positions is kept as a list of half-open ranges, sorted and apart from each other. A range
may be empty.

* `covered` is the set that a list stands for;
* `Separated` says that each range ends where the next one starts or before; from it follow the
  order (`Separated.sorted`) and the disjointness (`Separated.disjoint`);
* `Separated.flatMap` and `covered_flatMap_diff` are for a pass over the list that replaces each
  range by parts of it.
-/

namespace Bsr.Lib

/-- A half-open range. -/
structure Range (α : Type*) where
  lo : α
  hi : α
  deriving DecidableEq, Repr

variable {α : Type*} [LinearOrder α]

/-- The positions of a range. -/
def Range.toSet (p : Range α) : Set α :=
  Set.Ico p.lo p.hi

/-- The positions of a list of ranges. -/
def covered (l : List (Range α)) : Set α :=
  { x | ∃ p ∈ l, x ∈ p.toSet }

@[simp] theorem covered_nil : covered ([] : List (Range α)) = ∅ := by
  simp [covered]

theorem covered_cons (p : Range α) (l : List (Range α)) : covered (p :: l) = p.toSet ∪ covered l := by
  ext x
  simp [covered]

theorem covered_append (l l' : List (Range α)) : covered (l ++ l') = covered l ∪ covered l' := by
  ext x
  simp [covered, or_and_right, exists_or]

/-- A pass that takes `S` out of each range takes `S` out of the set. -/
theorem covered_flatMap_diff {l : List (Range α)} {f : Range α → List (Range α)} {S : Set α}
    (h : ∀ p ∈ l, covered (f p) = p.toSet \ S) : covered (l.flatMap f) = covered l \ S := by
  induction l with
  | nil => simp
  | cons p l ih =>
    have hp := h p (List.mem_cons_self ..)
    have hl := ih fun q hq => h q (List.mem_cons_of_mem _ hq)
    rw [List.flatMap_cons, covered_append, covered_cons, hp, hl, Set.union_sdiff_distrib]

/-- The ranges are valid, and each one ends before the next one starts. -/
structure Separated (l : List (Range α)) : Prop where
  valid : ∀ p ∈ l, p.lo ≤ p.hi
  before : l.Pairwise fun p q => p.hi ≤ q.lo

namespace Separated

variable {l l' : List (Range α)} {p : Range α}

theorem nil : Separated ([] : List (Range α)) :=
  ⟨nofun, .nil⟩

theorem cons_iff : Separated (p :: l) ↔ p.lo ≤ p.hi ∧ (∀ q ∈ l, p.hi ≤ q.lo) ∧ Separated l := by
  constructor
  · rintro ⟨hvalid, hbefore⟩
    obtain ⟨hp, hl⟩ := List.forall_mem_cons.1 hvalid
    obtain ⟨hrel, hrest⟩ := List.pairwise_cons.1 hbefore
    exact ⟨hp, hrel, hl, hrest⟩
  · rintro ⟨hp, hrel, hl⟩
    exact ⟨List.forall_mem_cons.2 ⟨hp, hl.valid⟩, List.pairwise_cons.2 ⟨hrel, hl.before⟩⟩

theorem append_iff :
    Separated (l ++ l') ↔ Separated l ∧ Separated l' ∧ ∀ p ∈ l, ∀ q ∈ l', p.hi ≤ q.lo := by
  constructor
  · rintro ⟨hvalid, hbefore⟩
    obtain ⟨hv, hv'⟩ := List.forall_mem_append.1 hvalid
    obtain ⟨hb, hb', hrel⟩ := List.pairwise_append.1 hbefore
    exact ⟨⟨hv, hb⟩, ⟨hv', hb'⟩, hrel⟩
  · rintro ⟨hl, hl', hrel⟩
    exact ⟨List.forall_mem_append.2 ⟨hl.valid, hl'.valid⟩, List.pairwise_append.2 ⟨hl.before, hl'.before, hrel⟩⟩

theorem sorted (h : Separated l) : l.Pairwise fun p q => p.lo ≤ q.lo :=
  h.before.imp_of_mem fun hp _ hle => (h.valid _ hp).trans hle

theorem disjoint (h : Separated l) : l.Pairwise fun p q => Disjoint p.toSet q.toSet := by
  refine h.before.imp fun {p q} hle => Set.disjoint_left.2 fun x hx hx' => ?_
  exact absurd (hx.2.trans_le (hle.trans hx'.1)) (lt_irrefl x)

theorem flatMap {f : Range α → List (Range α)} (h : Separated l)
    (hf : ∀ p ∈ l, Separated (f p) ∧ ∀ q ∈ f p, p.lo ≤ q.lo ∧ q.hi ≤ p.hi) : Separated (l.flatMap f) := by
  induction l with
  | nil => exact nil
  | cons p l ih =>
    obtain ⟨-, hrel, hl⟩ := cons_iff.1 h
    obtain ⟨hp, hfl⟩ := List.forall_mem_cons.1 hf
    rw [List.flatMap_cons, append_iff]
    refine ⟨hp.1, ih hl hfl, fun q hq r hr => ?_⟩
    obtain ⟨p', hp', hr'⟩ := List.mem_flatMap.1 hr
    exact (hp.2 q hq).2.trans ((hrel p' hp').trans ((hfl p' hp').2 r hr').1)

end Separated

end Bsr.Lib
